import Mathlib.Data.List.Chain
import Mathlib.Data.List.Nodup
import Mathlib.Logic.Function.Basic
import Mathlib.Tactic

/-!
Lists of cells that are linked in a ring: each cell has a pointer to the cell behind it
and one to the cell in front of it, and a head, which holds no element, closes the ring.
A cell can be put in front of any cell, and taken out, without a search.
-/

namespace MeizuM5c.Lib

variable {A : Type}

/-- Two cells that point to each other. -/
def Linked (next prev : A → Option A) (x y : A) : Prop := next x = some y ∧ prev y = some x

/-- The elements of a ring, from its head on. -/
structure Ring (next prev : A → Option A) (head : A) (l : List A) : Prop where
  linked : (head :: l ++ [head]).IsChain (Linked next prev)
  nodup : (head :: l).Nodup

variable {next prev next' prev' : A → Option A} {head a : A} {l l₁ l₂ : List A}

theorem getLastD_mem_append : l₁.getLastD head ∈ head :: (l₁ ++ l₂) := by
  rcases List.mem_cons.mp (List.getLastD_mem_cons (l := l₁) (a := head)) with h | h
  · rw [h]
    exact List.mem_cons_self
  · exact List.mem_cons_of_mem _ (List.mem_append_left _ h)

theorem headD_mem_append : l₂.headD head ∈ head :: (l₁ ++ l₂) := by
  cases l₂ with
  | nil => exact List.mem_cons_self
  | cons b l₂ =>
      exact List.mem_cons_of_mem _ (List.mem_append_right _ List.mem_cons_self)

theorem nodup_insert (h : (head :: (l₁ ++ l₂)).Nodup) (ha : a ∉ head :: (l₁ ++ l₂)) :
    (head :: (l₁ ++ a :: l₂)).Nodup := by
  have hperm : (head :: (l₁ ++ a :: l₂)).Perm (a :: head :: (l₁ ++ l₂)) :=
    (List.perm_middle.cons head).trans (List.Perm.swap a head (l₁ ++ l₂))
  exact hperm.nodup_iff.mpr (List.nodup_cons.mpr ⟨ha, h⟩)

theorem nodup_remove (h : (head :: (l₁ ++ a :: l₂)).Nodup) :
    (head :: (l₁ ++ l₂)).Nodup ∧ a ∉ head :: (l₁ ++ l₂) := by
  have hperm : (head :: (l₁ ++ a :: l₂)).Perm (a :: head :: (l₁ ++ l₂)) :=
    (List.perm_middle.cons head).trans (List.Perm.swap a head (l₁ ++ l₂))
  obtain ⟨hout, hrest⟩ := List.nodup_cons.mp (hperm.nodup_iff.mp h)
  exact ⟨hrest, hout⟩

namespace Ring

/-- A ring without elements: the head points to itself. -/
theorem nil (hnext : next head = some head) (hprev : prev head = some head) :
    Ring next prev head [] :=
  ⟨List.isChain_pair.mpr ⟨hnext, hprev⟩, List.nodup_singleton head⟩

/-- A ring is as long as its own cells keep their pointers. -/
theorem congr (h : Ring next prev head l) (hnext : ∀ b ∈ head :: l, next' b = next b)
    (hprev : ∀ b ∈ head :: l, prev' b = prev b) : Ring next' prev' head l := by
  refine ⟨h.linked.imp_of_mem_imp ?_, h.nodup⟩
  have hmem : ∀ b ∈ head :: l ++ [head], b ∈ head :: l := by
    intro b hb
    rcases List.mem_append.mp hb with hb | hb
    · exact hb
    · rw [List.mem_singleton.mp hb]
      exact List.mem_cons_self
  rintro x y hx hy ⟨hxy, hyx⟩
  exact ⟨(hnext x (hmem x hx)).trans hxy, (hprev y (hmem y hy)).trans hyx⟩

/-- The links of a ring on the two sides of a seam, and at it. -/
theorem linked_append : (head :: (l₁ ++ l₂) ++ [head]).IsChain (Linked next prev) ↔
    (head :: l₁).IsChain (Linked next prev) ∧ (l₂ ++ [head]).IsChain (Linked next prev) ∧
      Linked next prev (l₁.getLastD head) (l₂.headD head) := by
  have hsplit : head :: (l₁ ++ l₂) ++ [head] = (head :: l₁) ++ (l₂ ++ [head]) := by simp
  rw [hsplit, List.isChain_append]
  refine and_congr_right (fun _ => and_congr_right (fun _ => ?_))
  have hlast : (head :: l₁).getLast? = some (l₁.getLastD head) := by
    rw [List.getLast?_cons]
    simp
  have hfirst : (l₂ ++ [head]).head? = some (l₂.headD head) := by
    cases l₂ with
    | nil => rfl
    | cons b l₂ => rfl
  rw [hlast, hfirst]
  simp

/-- What is behind a part of the ring, and what is in front of the rest. -/
theorem seam (h : Ring next prev head (l₁ ++ l₂)) :
    Linked next prev (l₁.getLastD head) (l₂.headD head) :=
  (linked_append.mp h.linked).2.2

theorem next_head (h : Ring next prev head l) : next head = some (l.headD head) := by
  have hsplit : Ring next prev head ([] ++ l) := h
  exact hsplit.seam.1

/-- The links of an element to the one behind it and to the one in front of it. -/
theorem element (h : Ring next prev head (l₁ ++ a :: l₂)) :
    Linked next prev (l₁.getLastD head) a ∧ Linked next prev a (l₂.headD head) := by
  have hbehind := h.seam
  have hsplit : l₁ ++ a :: l₂ = (l₁ ++ [a]) ++ l₂ := by simp
  rw [hsplit] at h
  have hfront := h.seam
  rw [List.getLastD_concat] at hfront
  exact ⟨hbehind, hfront⟩

/-- The half of a ring up to its last cell, whose pointer to the next may change. -/
theorem half_left (h : (head :: l₁).IsChain (Linked next prev)) (hnodup : (head :: l₁).Nodup)
    (hnext : ∀ b ∈ head :: l₁, b ≠ l₁.getLastD head → next' b = next b)
    (hprev : ∀ b ∈ l₁, prev' b = prev b) :
    (head :: l₁).IsChain (Linked next' prev') := by
  induction l₁ generalizing head with
  | nil => exact List.isChain_singleton head
  | cons b l₁ ih =>
      rw [List.isChain_cons_cons] at h ⊢
      obtain ⟨hout, hrest⟩ := List.nodup_cons.mp hnodup
      rw [List.getLastD_cons] at hnext
      have hhead : head ≠ l₁.getLastD b := fun heq => hout (heq ▸ List.getLastD_mem_cons)
      refine ⟨⟨?_, ?_⟩, ?_⟩
      · rw [hnext head List.mem_cons_self hhead]
        exact h.1.1
      · rw [hprev b List.mem_cons_self]
        exact h.1.2
      · exact ih h.2 hrest (fun c hc => hnext c (List.mem_cons_of_mem head hc))
          (fun c hc => hprev c (List.mem_cons_of_mem b hc))

/-- The half of a ring from its first cell on, whose pointer to the previous may change. -/
theorem half_right (h : (l₂ ++ [a]).IsChain (Linked next prev)) (hnodup : (l₂ ++ [a]).Nodup)
    (hnext : ∀ b ∈ l₂, next' b = next b)
    (hprev : ∀ b ∈ l₂ ++ [a], b ≠ l₂.headD a → prev' b = prev b) :
    (l₂ ++ [a]).IsChain (Linked next' prev') := by
  have hkept : ∀ b ∈ (l₂ ++ [a]).tail, prev' b = prev b := by
    intro b hb
    cases l₂ with
    | nil => cases hb
    | cons c l₂ =>
        apply hprev b (List.mem_of_mem_tail hb)
        intro hbc
        rw [hbc] at hb
        exact (List.nodup_cons.mp hnodup).1 hb
  clear hprev hnodup
  induction l₂ with
  | nil => exact List.isChain_singleton a
  | cons c l₂ ih =>
      rw [List.cons_append, List.isChain_cons] at h ⊢
      refine ⟨?_, ?_⟩
      · intro y hy
        have hlink := h.1 y hy
        exact ⟨(hnext c List.mem_cons_self).trans hlink.1,
          (hkept y (List.mem_of_mem_head? hy)).trans hlink.2⟩
      · exact ih h.2 (fun b hb => hnext b (List.mem_cons_of_mem c hb))
          (fun b hb => hkept b (List.mem_of_mem_tail hb))

/-- A change at a seam leaves the links of both halves as they are. -/
theorem halves (next' prev' : A → Option A) (hleft : (head :: l₁).IsChain (Linked next prev))
    (hright : (l₂ ++ [head]).IsChain (Linked next prev)) (hnodup : (head :: (l₁ ++ l₂)).Nodup)
    (hnext : ∀ b ∈ head :: (l₁ ++ l₂), b ≠ l₁.getLastD head → next' b = next b)
    (hprev : ∀ b ∈ head :: (l₁ ++ l₂), b ≠ l₂.headD head → prev' b = prev b) :
    (head :: l₁).IsChain (Linked next' prev') ∧ (l₂ ++ [head]).IsChain (Linked next' prev') := by
  have hout : head ∉ l₁ ++ l₂ := (List.nodup_cons.mp hnodup).1
  rw [← List.cons_append] at hnodup hnext hprev
  obtain ⟨hnodupl, hnodupr, hapart⟩ := List.nodup_append.mp hnodup
  constructor
  · apply half_left hleft hnodupl
    · exact fun b hb => hnext b (List.mem_append_left l₂ hb)
    · intro b hb
      apply hprev b (List.mem_append_left l₂ (List.mem_cons_of_mem head hb))
      intro heq
      cases l₂ with
      | nil =>
          rw [List.headD_nil] at heq
          exact hout (heq ▸ List.mem_append_left [] hb)
      | cons c l₂ => exact hapart b (List.mem_cons_of_mem head hb) c List.mem_cons_self heq
  · apply half_right hright
    · apply List.nodup_append.mpr
      refine ⟨hnodupr, List.nodup_singleton head, ?_⟩
      intro b hb c hc hbc
      rw [hbc, List.mem_singleton.mp hc] at hb
      exact hout (List.mem_append_right l₁ hb)
    · intro b hb
      apply hnext b (List.mem_append_right (head :: l₁) hb)
      exact fun heq => hapart _ List.getLastD_mem_cons b hb heq.symm
    · intro b hb
      apply hprev b
      rcases List.mem_append.mp hb with hb | hb
      · exact List.mem_append_right (head :: l₁) hb
      · rw [List.mem_singleton.mp hb]
        exact List.mem_append_left l₂ List.mem_cons_self

section Updates

variable [DecidableEq A]

/-- A cell is linked in between two cells of the ring. -/
theorem insert (h : Ring next prev head (l₁ ++ l₂)) (ha : a ∉ head :: (l₁ ++ l₂)) :
    Ring
      (Function.update (Function.update next a (some (l₂.headD head))) (l₁.getLastD head) (some a))
      (Function.update (Function.update prev a (some (l₁.getLastD head))) (l₂.headD head) (some a))
      head (l₁ ++ a :: l₂) := by
  obtain ⟨hleft, hright, -⟩ := linked_append.mp h.linked
  have hlast : a ≠ l₁.getLastD head := fun heq => ha (heq ▸ getLastD_mem_append)
  have hfirst : a ≠ l₂.headD head := fun heq => ha (heq ▸ headD_mem_append)
  have hother : ∀ b ∈ head :: (l₁ ++ l₂), b ≠ a := fun b hb heq => ha (heq ▸ hb)
  obtain ⟨hleft', hright'⟩ := halves
    (Function.update (Function.update next a (some (l₂.headD head))) (l₁.getLastD head) (some a))
    (Function.update (Function.update prev a (some (l₁.getLastD head))) (l₂.headD head) (some a))
    hleft hright h.nodup
    (fun b hb hne => by rw [Function.update_of_ne hne, Function.update_of_ne (hother b hb)])
    (fun b hb hne => by rw [Function.update_of_ne hne, Function.update_of_ne (hother b hb)])
  refine ⟨linked_append.mpr ⟨hleft', ?_, ?_⟩, nodup_insert h.nodup ha⟩
  · rw [List.cons_append, List.isChain_cons]
    refine ⟨?_, hright'⟩
    intro y hy
    have hy' : l₂.headD head = y := by
      cases l₂ with
      | nil => exact Option.some.inj hy
      | cons c l₂ => exact Option.some.inj hy
    subst hy'
    constructor
    · rw [Function.update_of_ne hlast, Function.update_self]
    · rw [Function.update_self]
  · rw [List.headD_cons]
    constructor
    · rw [Function.update_self]
    · rw [Function.update_of_ne hfirst, Function.update_self]

/-- A cell is taken out of the ring. -/
theorem remove (h : Ring next prev head (l₁ ++ a :: l₂)) (x y : Option A) :
    Ring
      (Function.update (Function.update next (l₁.getLastD head) (some (l₂.headD head))) a x)
      (Function.update (Function.update prev (l₂.headD head) (some (l₁.getLastD head))) a y)
      head (l₁ ++ l₂) := by
  obtain ⟨hleft, hright, -⟩ := linked_append.mp h.linked
  obtain ⟨hnodup, ha⟩ := nodup_remove h.nodup
  have hlast : l₁.getLastD head ≠ a := fun heq => ha (heq ▸ getLastD_mem_append)
  have hfirst : l₂.headD head ≠ a := fun heq => ha (heq ▸ headD_mem_append)
  have hother : ∀ b ∈ head :: (l₁ ++ l₂), b ≠ a := fun b hb heq => ha (heq ▸ hb)
  rw [List.cons_append, List.isChain_cons] at hright
  obtain ⟨hleft', hright'⟩ := halves
    (Function.update (Function.update next (l₁.getLastD head) (some (l₂.headD head))) a x)
    (Function.update (Function.update prev (l₂.headD head) (some (l₁.getLastD head))) a y)
    hleft hright.2 hnodup
    (fun b hb hne => by rw [Function.update_of_ne (hother b hb), Function.update_of_ne hne])
    (fun b hb hne => by rw [Function.update_of_ne (hother b hb), Function.update_of_ne hne])
  refine ⟨linked_append.mpr ⟨hleft', hright', ?_, ?_⟩, hnodup⟩
  · rw [Function.update_of_ne hlast, Function.update_self]
  · rw [Function.update_of_ne hfirst, Function.update_self]

end Updates

end Ring

end MeizuM5c.Lib
