import Mathlib.Data.List.Nodup
import Mathlib.Logic.Function.Basic

/-!
Threads that take locks and give them back, last taken first. A lock that its
owner asks for again is never given to it.
-/

namespace MeizuM5c.Lib

variable {T L : Type}

structure Locks (T L : Type) where
  owner : L → Option T := fun _ => none
  held : T → List L := fun _ => []
  wants : T → Option L := fun _ => none

namespace Locks

/-- A thread begins to wait for a lock. -/
def ask [DecidableEq T] (s : Locks T L) (t : T) (l : L) : Locks T L :=
  { s with wants := Function.update s.wants t (some l) }

def acquire [DecidableEq T] [DecidableEq L] (s : Locks T L) (t : T) (l : L) : Locks T L :=
  { owner := Function.update s.owner l (some t)
    held := Function.update s.held t (l :: s.held t)
    wants := Function.update s.wants t none }

def release [DecidableEq T] [DecidableEq L] (s : Locks T L) (t : T) (l : L) : Locks T L :=
  { s with
    owner := Function.update s.owner l none
    held := Function.update s.held t (s.held t).tail }

/-- Each lock is held by its owner, once, and no thread waits for a lock of its
own. -/
structure Sound (s : Locks T L) : Prop where
  owner : ∀ l t, s.owner l = some t ↔ l ∈ s.held t
  nodup : ∀ t, (s.held t).Nodup
  wants : ∀ t l, s.wants t = some l → l ∉ s.held t

theorem Sound.initial : Sound ({} : Locks T L) :=
  ⟨fun _ _ => iff_of_false nofun List.not_mem_nil, fun _ => .nil, nofun⟩

namespace Sound

variable {s : Locks T L} {t : T} {l : L}

/-- A lock has one holder. -/
theorem exclusive (h : s.Sound) {u : T} (ht : l ∈ s.held t) (hu : l ∈ s.held u) : t = u := by
  have howner := (h.owner l t).mpr ht
  rw [(h.owner l u).mpr hu] at howner
  exact (Option.some.inj howner).symm

theorem ask [DecidableEq T] (h : s.Sound) (hfree : l ∉ s.held t) : (s.ask t l).Sound := by
  refine ⟨h.owner, h.nodup, fun u k hwants => ?_⟩
  simp only [Locks.ask] at hwants
  by_cases hu : u = t
  · subst hu
    rw [Function.update_self] at hwants
    exact Option.some.inj hwants ▸ hfree
  · rw [Function.update_of_ne hu] at hwants
    exact h.wants u k hwants

theorem acquire [DecidableEq T] [DecidableEq L] (h : s.Sound) (hfree : s.owner l = none) :
    (s.acquire t l).Sound := by
  have hnobody (u : T) : l ∉ s.held u := fun hu => by
    rw [(h.owner l u).mpr hu] at hfree
    exact Option.some_ne_none u hfree
  refine ⟨fun k u => ?_, fun u => ?_, fun u k hwants => ?_⟩
  · simp only [Locks.acquire]
    by_cases hk : k = l
    · subst hk
      rw [Function.update_self]
      by_cases hu : u = t
      · subst hu
        rw [Function.update_self]
        exact iff_of_true rfl List.mem_cons_self
      · rw [Function.update_of_ne hu]
        exact iff_of_false (fun heq => hu (Option.some.inj heq).symm) (hnobody u)
    · rw [Function.update_of_ne hk, h.owner]
      by_cases hu : u = t
      · subst hu
        rw [Function.update_self, List.mem_cons, or_iff_right hk]
      · rw [Function.update_of_ne hu]
  · simp only [Locks.acquire]
    by_cases hu : u = t
    · subst hu
      rw [Function.update_self]
      exact List.nodup_cons.mpr ⟨hnobody u, h.nodup u⟩
    · rw [Function.update_of_ne hu]
      exact h.nodup u
  · simp only [Locks.acquire] at hwants ⊢
    by_cases hu : u = t
    · subst hu
      rw [Function.update_self] at hwants
      exact absurd hwants nofun
    · rw [Function.update_of_ne hu] at hwants ⊢
      exact h.wants u k hwants

theorem release [DecidableEq T] [DecidableEq L] (h : s.Sound) {rest : List L}
    (hheld : s.held t = l :: rest) : (s.release t l).Sound := by
  have hnodup := h.nodup t
  rw [hheld, List.nodup_cons] at hnodup
  have hl (u : T) (hu : l ∈ s.held u) : u = t :=
    h.exclusive hu (hheld ▸ List.mem_cons_self)
  refine ⟨fun k u => ?_, fun u => ?_, fun u k hwants => ?_⟩
  · simp only [Locks.release, hheld, List.tail_cons]
    by_cases hk : k = l
    · subst hk
      rw [Function.update_self]
      refine iff_of_false nofun fun hu => ?_
      by_cases hut : u = t
      · subst hut
        rw [Function.update_self] at hu
        exact hnodup.1 hu
      · rw [Function.update_of_ne hut] at hu
        exact hut (hl u hu)
    · rw [Function.update_of_ne hk, h.owner]
      by_cases hut : u = t
      · subst hut
        rw [Function.update_self, hheld, List.mem_cons, or_iff_right hk]
      · rw [Function.update_of_ne hut]
  · simp only [Locks.release, hheld, List.tail_cons]
    by_cases hut : u = t
    · subst hut
      rw [Function.update_self]
      exact hnodup.2
    · rw [Function.update_of_ne hut]
      exact h.nodup u
  · have hold := h.wants u k hwants
    simp only [Locks.release, hheld, List.tail_cons]
    by_cases hut : u = t
    · subst hut
      rw [Function.update_self]
      exact fun hin => hold (hheld ▸ List.mem_cons_of_mem l hin)
    · rw [Function.update_of_ne hut]
      exact hold

end Sound

end Locks

end MeizuM5c.Lib
