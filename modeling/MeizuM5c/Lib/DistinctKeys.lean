import Mathlib.Data.List.Nodup
import Mathlib.Data.List.Perm.Basic

/-!
Lists whose elements have distinct keys. To erase an element is to drop its key.
-/

namespace MeizuM5c.Lib

variable {α β : Type} [BEq α] [LawfulBEq α] {key : α → β} {l : List α} {a : α}

theorem map_erase_of_nodup [DecidableEq β] (hnodup : (l.map key).Nodup) (ha : a ∈ l) :
    (l.erase a).map key = (l.map key).filter (· ≠ key a) := by
  have herase : (l.erase a).map key = (l.map key).erase (key a) := by
    induction l with
    | nil => rfl
    | cons b l ih =>
        rw [List.map_cons, List.nodup_cons] at hnodup
        by_cases hb : b = a
        · rw [hb, List.erase_cons_head, List.map_cons, List.erase_cons_head]
        · have hal : a ∈ l := List.mem_of_ne_of_mem (Ne.symm hb) ha
          have hne : key b ≠ key a := fun h => hnodup.1 (h ▸ List.mem_map_of_mem hal)
          rw [List.erase_cons_tail (by simpa using hb), List.map_cons, List.map_cons,
            List.erase_cons_tail (by simpa using hne), ih hnodup.2 hal]
  rw [herase, hnodup.erase_eq_filter]
  apply List.filter_congr
  intro x _
  by_cases hx : x = key a
  · simp [hx]
  · simp [hx]

theorem mem_map_erase_of_nodup (hnodup : (l.map key).Nodup) (ha : a ∈ l) (x : β) :
    x ∈ (l.erase a).map key ↔ x ≠ key a ∧ x ∈ l.map key := by
  have hperm := (List.perm_cons_erase ha).map key
  have hcons := hperm.nodup_iff.mp hnodup
  rw [List.map_cons, List.nodup_cons] at hcons
  rw [hperm.mem_iff, List.map_cons, List.mem_cons]
  constructor
  · intro hx
    exact ⟨fun heq => hcons.1 (heq ▸ hx), .inr hx⟩
  · rintro ⟨hne, heq | hx⟩
    · exact absurd heq hne
    · exact hx

/-- The other elements stay, in their order. -/
theorem erase_filter_ne [DecidableEq α] (l : List α) (a : α) :
    (l.erase a).filter (· ≠ a) = l.filter (· ≠ a) := by
  induction l with
  | nil => rfl
  | cons b l ih =>
      by_cases hb : b = a
      · rw [hb, List.erase_cons_head, List.filter_cons_of_neg (by simp)]
      · rw [List.erase_cons_tail (by simpa using hb), List.filter_cons, List.filter_cons, ih]

omit [BEq α] [LawfulBEq α] in
/-- A function that is only defined at the key of one element sees that element. -/
theorem filterMap_of_nodup {γ : Type} {f : α → Option γ} (hnodup : (l.map key).Nodup)
    (ha : a ∈ l) (hf : ∀ b, key b ≠ key a → f b = none) : l.filterMap f = (f a).toList := by
  obtain ⟨before, after, rfl⟩ := List.append_of_mem ha
  rw [(List.perm_middle.map key).nodup_iff, List.map_cons, List.nodup_cons] at hnodup
  have hother : ∀ b ∈ before ++ after, f b = none := by
    intro b hb
    apply hf
    intro heq
    exact hnodup.1 (heq ▸ List.mem_map_of_mem hb)
  have hbefore := List.filterMap_eq_nil_iff.mpr
    (fun b hb => hother b (List.mem_append_left after hb))
  have hafter := List.filterMap_eq_nil_iff.mpr
    (fun b hb => hother b (List.mem_append_right before hb))
  rw [List.filterMap_append, hbefore, List.nil_append, List.filterMap_cons, hafter]
  cases f a with
  | none => rfl
  | some c => rfl

end MeizuM5c.Lib
