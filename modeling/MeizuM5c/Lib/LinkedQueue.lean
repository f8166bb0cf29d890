import Mathlib.Data.List.Nodup
import Mathlib.Logic.Function.Basic

/-!
First-in first-out lists of cells that are linked by pointers, with a pointer to the
first cell and one to the last. `A` are the addresses, and `none` is the null pointer.
-/

namespace MeizuM5c.Lib

variable {A : Type}

/-- The cells from a pointer on, up to the null pointer. -/
def Chain (next : A → Option A) : Option A → List A → Prop
  | head, [] => head = none
  | head, a :: l => head = some a ∧ Chain next (next a) l

/-- A list from its first cell, with a pointer to its last. -/
structure LinkedQueue (next : A → Option A) (head tail : Option A) (l : List A) : Prop where
  chain : Chain next head l
  tail : tail = l.getLast?
  nodup : l.Nodup

variable {next next' : A → Option A} {head tail : Option A} {l : List A} {a z : A}

theorem Chain.congr (h : Chain next head l) (hsame : ∀ b ∈ l, next' b = next b) :
    Chain next' head l := by
  induction l generalizing head with
  | nil => exact h
  | cons b l ih =>
      refine ⟨h.1, ?_⟩
      rw [hsame b List.mem_cons_self]
      exact ih h.2 (fun c hc => hsame c (List.mem_cons_of_mem b hc))

/-- Pointers lead to one list. -/
theorem Chain.unique {m : List A} (hl : Chain next head l) (hm : Chain next head m) : l = m := by
  induction l generalizing head m with
  | nil =>
      cases m with
      | nil => rfl
      | cons b m =>
          have hhead : head = none := hl
          rw [hhead] at hm
          cases hm.1
  | cons b l ih =>
      cases m with
      | nil =>
          have hhead : head = none := hm
          rw [hhead] at hl
          cases hl.1
      | cons c m =>
          have hbc : b = c := Option.some.inj (hl.1.symm.trans hm.1)
          subst hbc
          rw [ih hl.2 hm.2]

/-- The pointer that ends a chain is turned to a cell that ends the longer one. -/
theorem Chain.concat [DecidableEq A] (h : Chain next head l) (hlast : l.getLast? = some z)
    (hnodup : l.Nodup) (ha : next a = none) (hfresh : a ∉ l) :
    Chain (Function.update next z (some a)) head (l ++ [a]) := by
  induction l generalizing head with
  | nil => cases hlast
  | cons b l ih =>
      rw [List.nodup_cons] at hnodup
      rw [List.mem_cons, not_or] at hfresh
      refine ⟨h.1, ?_⟩
      cases l with
      | nil =>
          have hz : b = z := Option.some.inj hlast
          subst hz
          rw [Function.update_self]
          refine ⟨rfl, ?_⟩
          rw [Function.update_of_ne hfresh.1]
          exact ha
      | cons c l =>
          rw [List.getLast?_cons_cons] at hlast
          have hz : z ∈ c :: l := List.mem_of_getLast? hlast
          have hbz : b ≠ z := fun heq => hnodup.1 (heq ▸ hz)
          rw [Function.update_of_ne hbz]
          exact ih h.2 hlast hnodup.2 hfresh.2

namespace LinkedQueue

theorem nil (next : A → Option A) : LinkedQueue next none none [] := ⟨rfl, rfl, .nil⟩

theorem congr (h : LinkedQueue next head tail l) (hsame : ∀ b ∈ l, next' b = next b) :
    LinkedQueue next' head tail l :=
  ⟨h.chain.congr hsame, h.tail, h.nodup⟩

/-- A null pointer to the first cell, or to the last, is the empty list. -/
theorem head_eq_none (h : LinkedQueue next head tail l) : head = none ↔ l = [] := by
  cases l with
  | nil => exact iff_of_true h.chain rfl
  | cons b l =>
      rw [h.chain.1]
      exact iff_of_false (Option.some_ne_none b) (List.cons_ne_nil b l)

theorem tail_eq_none (h : LinkedQueue next head tail l) : tail = none ↔ l = [] := by
  rw [h.tail]
  exact List.getLast?_eq_none_iff

theorem tail_mem (h : LinkedQueue next head (some z) l) : z ∈ l :=
  List.mem_of_getLast? h.tail.symm

theorem nodup_concat (h : LinkedQueue next head tail l) (hfresh : a ∉ l) : (l ++ [a]).Nodup := by
  apply List.nodup_append.mpr
  refine ⟨h.nodup, List.nodup_singleton a, ?_⟩
  intro b hb c hc hbc
  rw [List.mem_singleton.mp hc] at hbc
  exact hfresh (hbc ▸ hb)

/-- A cell is filed as the only one. -/
theorem push_first (h : LinkedQueue next head none l) (ha : next a = none) (hfresh : a ∉ l) :
    LinkedQueue next (some a) (some a) (l ++ [a]) := by
  refine ⟨?_, List.getLast?_concat.symm, h.nodup_concat hfresh⟩
  rw [h.tail_eq_none.mp rfl]
  exact ⟨rfl, ha⟩

/-- A cell is filed behind the last. -/
theorem push_last [DecidableEq A] (h : LinkedQueue next head (some z) l) (ha : next a = none)
    (hfresh : a ∉ l) :
    LinkedQueue (Function.update next z (some a)) head (some a) (l ++ [a]) :=
  ⟨h.chain.concat h.tail.symm h.nodup ha hfresh, List.getLast?_concat.symm,
    h.nodup_concat hfresh⟩

/-- The first cell is taken off, and with the only one both pointers are null. -/
theorem pop (h : LinkedQueue next (some a) tail l) :
    ∃ rest, l = a :: rest ∧
      LinkedQueue next (next a) (if next a = none then none else tail) rest := by
  cases l with
  | nil => cases h.chain
  | cons b rest =>
      obtain ⟨hb, hchain⟩ := h.chain
      cases hb
      refine ⟨rest, rfl, hchain, ?_, (List.nodup_cons.mp h.nodup).2⟩
      cases rest with
      | nil =>
          have hnext : next a = none := hchain
          rw [if_pos hnext]
          rfl
      | cons c rest =>
          have hnext : next a = some c := hchain.1
          rw [if_neg (by simp [hnext]), h.tail, List.getLast?_cons_cons]

end LinkedQueue

/-! Many lists in one memory: the lists of the others stay as they are. -/

section Family

variable {C : Type} [DecidableEq C] {head tail : C → Option A} {l : C → List A} {c : C}

theorem queues_push_first (h : ∀ d, LinkedQueue next (head d) (tail d) (l d))
    (htail : tail c = none) (ha : next a = none) (hfresh : a ∉ l c) (d : C) :
    LinkedQueue next (Function.update head c (some a) d) (Function.update tail c (some a) d)
      (Function.update l c (l c ++ [a]) d) := by
  by_cases hd : d = c
  · rw [hd, Function.update_self, Function.update_self, Function.update_self]
    have hc := h c
    rw [htail] at hc
    exact hc.push_first ha hfresh
  · rw [Function.update_of_ne hd, Function.update_of_ne hd, Function.update_of_ne hd]
    exact h d

/-- The last cell of a list is in no other list. -/
theorem queues_push_last [DecidableEq A] (h : ∀ d, LinkedQueue next (head d) (tail d) (l d))
    (htail : tail c = some z) (ha : next a = none) (hfresh : a ∉ l c)
    (hapart : ∀ d, z ∈ l d → d = c) (d : C) :
    LinkedQueue (Function.update next z (some a)) (head d) (Function.update tail c (some a) d)
      (Function.update l c (l c ++ [a]) d) := by
  by_cases hd : d = c
  · rw [hd, Function.update_self, Function.update_self]
    have hc := h c
    rw [htail] at hc
    exact hc.push_last ha hfresh
  · rw [Function.update_of_ne hd, Function.update_of_ne hd]
    apply (h d).congr
    intro b hb
    have hne : b ≠ z := fun heq => hd (hapart d (heq ▸ hb))
    rw [Function.update_of_ne hne]

theorem queues_pop (h : ∀ d, LinkedQueue next (head d) (tail d) (l d)) (hhead : head c = some a) :
    ∃ rest, l c = a :: rest ∧ ∀ d,
      LinkedQueue next (Function.update head c (next a) d)
        ((if next a = none then Function.update tail c none else tail) d)
        (Function.update l c rest d) := by
  have hc := h c
  rw [hhead] at hc
  obtain ⟨rest, hl, hrest⟩ := hc.pop
  refine ⟨rest, hl, ?_⟩
  intro d
  by_cases hd : d = c
  · rw [hd, Function.update_self, Function.update_self]
    split_ifs at hrest ⊢
    · rw [Function.update_self]
      exact hrest
    · exact hrest
  · rw [Function.update_of_ne hd, Function.update_of_ne hd]
    split_ifs
    · rw [Function.update_of_ne hd]
      exact h d
    · exact h d

end Family

end MeizuM5c.Lib
