import Mathlib.Tactic
import Mathlib.Data.List.Basic

/-!
Finite maps as strictly sorted association lists. The sortedness proof is a
field, so lookups, insertions and erasures never have to re-establish it.
Iteration over `entries` is iteration in key order.
-/

namespace MeizuM5c.Lib

/-- An association list whose keys are strictly increasing. -/
structure OrdMap (κ : Type*) (α : Type*) [LinearOrder κ] where
  entries : List (κ × α)
  sorted : entries.Pairwise (fun a b => a.1 < b.1)

namespace OrdMap

variable {κ α : Type*} [LinearOrder κ]

theorem ext_entries {m n : OrdMap κ α} (h : m.entries = n.entries) : m = n := by
  cases m
  cases n
  simpa using h

instance [DecidableEq α] : DecidableEq (OrdMap κ α) := fun m n =>
  decidable_of_iff (m.entries = n.entries) ⟨ext_entries, fun h => by rw [h]⟩

def empty : OrdMap κ α := ⟨[], List.Pairwise.nil⟩

def isEmpty (m : OrdMap κ α) : Bool := m.entries.isEmpty

def find? (m : OrdMap κ α) (key : κ) : Option α :=
  (m.entries.find? (fun e => e.1 = key)).map Prod.snd

def insertEntry (key : κ) (value : α) : List (κ × α) → List (κ × α)
  | [] => [(key, value)]
  | entry :: rest =>
      if key < entry.1 then (key, value) :: entry :: rest
      else if key = entry.1 then (key, value) :: rest
      else entry :: insertEntry key value rest

theorem mem_insertEntry (key : κ) (value : α) (entries : List (κ × α))
    (hsorted : entries.Pairwise (fun a b => a.1 < b.1)) (e : κ × α) :
    e ∈ insertEntry key value entries ↔
      e = (key, value) ∨ (e ∈ entries ∧ e.1 ≠ key) := by
  induction entries with
  | nil => simp [insertEntry]
  | cons entry rest ih =>
      obtain ⟨hhead, hrest⟩ := List.pairwise_cons.mp hsorted
      unfold insertEntry
      split_ifs with hlt heq
      · simp only [List.mem_cons]
        constructor
        · rintro (h | h | h)
          · exact Or.inl h
          · exact Or.inr ⟨Or.inl h, by rw [h]; exact hlt.ne'⟩
          · exact Or.inr ⟨Or.inr h, (hlt.trans (hhead e h)).ne'⟩
        · rintro (h | ⟨h | h, _⟩)
          · exact Or.inl h
          · exact Or.inr (Or.inl h)
          · exact Or.inr (Or.inr h)
      · simp only [List.mem_cons]
        constructor
        · rintro (h | h)
          · exact Or.inl h
          · exact Or.inr ⟨Or.inr h, by rw [heq]; exact (hhead e h).ne'⟩
        · rintro (h | ⟨h | h, hne⟩)
          · exact Or.inl h
          · exact absurd (by rw [h, heq]) hne
          · exact Or.inr h
      · simp only [List.mem_cons, ih hrest]
        constructor
        · rintro (h | h | ⟨h, hne⟩)
          · exact Or.inr ⟨Or.inl h, by rw [h]; exact fun hk => heq hk.symm⟩
          · exact Or.inl h
          · exact Or.inr ⟨Or.inr h, hne⟩
        · rintro (h | ⟨h | h, hne⟩)
          · exact Or.inr (Or.inl h)
          · exact Or.inl h
          · exact Or.inr (Or.inr ⟨h, hne⟩)

theorem insertEntry_sorted (key : κ) (value : α) (entries : List (κ × α))
    (hsorted : entries.Pairwise (fun a b => a.1 < b.1)) :
    (insertEntry key value entries).Pairwise (fun a b => a.1 < b.1) := by
  induction entries with
  | nil => simp [insertEntry]
  | cons entry rest ih =>
      obtain ⟨hhead, hrest⟩ := List.pairwise_cons.mp hsorted
      unfold insertEntry
      split_ifs with hlt heq
      · refine List.pairwise_cons.mpr ⟨?_, hsorted⟩
        intro e he
        rcases List.mem_cons.mp he with h | h
        · rw [h]
          exact hlt
        · exact hlt.trans (hhead e h)
      · refine List.pairwise_cons.mpr ⟨?_, hrest⟩
        intro e he
        simpa only [heq] using hhead e he
      · refine List.pairwise_cons.mpr ⟨?_, ih hrest⟩
        intro e he
        rcases (mem_insertEntry key value rest hrest e).mp he with h | ⟨h, _⟩
        · rw [h]
          exact lt_of_le_of_ne (not_lt.mp hlt) (fun hk => heq hk.symm)
        · exact hhead e h

def insert (m : OrdMap κ α) (key : κ) (value : α) : OrdMap κ α :=
  ⟨insertEntry key value m.entries, insertEntry_sorted key value m.entries m.sorted⟩

def filter (m : OrdMap κ α) (p : κ → α → Bool) : OrdMap κ α :=
  ⟨m.entries.filter (fun e => p e.1 e.2), m.sorted.filter _⟩

def erase (m : OrdMap κ α) (key : κ) : OrdMap κ α :=
  m.filter (fun k _ => decide (k ≠ key))

theorem mem_entries_unique (m : OrdMap κ α) {key : κ} {a b : α}
    (ha : (key, a) ∈ m.entries) (hb : (key, b) ∈ m.entries) : a = b := by
  by_contra hne
  have hpair : (key, a) ≠ (key, b) := fun h => hne (Prod.ext_iff.mp h).2
  have hall : m.entries.Pairwise (fun a b => a.1 ≠ b.1) :=
    m.sorted.imp (fun h => h.ne)
  have : Std.Symm (fun a b : κ × α => a.1 ≠ b.1) := ⟨fun _ _ h => h.symm⟩
  exact hall.forall ha hb hpair rfl

/-- A lookup returns exactly the entry stored under the key. -/
theorem find?_eq_some_iff (m : OrdMap κ α) (key : κ) (value : α) :
    m.find? key = some value ↔ (key, value) ∈ m.entries := by
  unfold find?
  constructor
  · intro h
    obtain ⟨e, he, hv⟩ := Option.map_eq_some_iff.mp h
    have hkey : e.1 = key := by simpa using List.find?_some he
    have hmem := List.mem_of_find?_eq_some he
    rw [← hkey, ← hv]
    exact hmem
  · intro h
    cases hfind : m.entries.find? (fun e => e.1 = key) with
    | none =>
        have := List.find?_eq_none.mp hfind (key, value) h
        simp at this
    | some e =>
        have hkey : e.1 = key := by simpa using List.find?_some hfind
        have hmem := List.mem_of_find?_eq_some hfind
        have hval : e.2 = value :=
          m.mem_entries_unique (by rw [← hkey]; exact hmem) h
        simp [hval]

theorem find?_eq_none_iff (m : OrdMap κ α) (key : κ) :
    m.find? key = none ↔ ∀ value, (key, value) ∉ m.entries := by
  constructor
  · intro h value hmem
    rw [(m.find?_eq_some_iff key value).mpr hmem] at h
    cases h
  · intro h
    cases hfind : m.find? key with
    | none => rfl
    | some value => exact absurd ((m.find?_eq_some_iff key value).mp hfind) (h value)

/-- Two maps with the same lookups are the same. -/
theorem ext_find? {m n : OrdMap κ α} (h : ∀ key, m.find? key = n.find? key) : m = n := by
  have hmem : ∀ e, e ∈ m.entries ↔ e ∈ n.entries := by
    intro e
    rw [← find?_eq_some_iff m e.1 e.2, ← find?_eq_some_iff n e.1 e.2, h]
  have hnodup (m : OrdMap κ α) : m.entries.Nodup :=
    m.sorted.imp (fun hlt heq => absurd hlt (by rw [heq]; exact lt_irrefl _))
  apply ext_entries
  apply List.Perm.eq_of_pairwise _ m.sorted n.sorted
  · exact (List.perm_ext_iff_of_nodup (hnodup m) (hnodup n)).mpr hmem
  · intro a b _ _ hab hba
    exact absurd hab hba.asymm

theorem mem_insert (m : OrdMap κ α) (key : κ) (value : α) (e : κ × α) :
    e ∈ (m.insert key value).entries ↔
      e = (key, value) ∨ (e ∈ m.entries ∧ e.1 ≠ key) :=
  mem_insertEntry key value m.entries m.sorted e

theorem mem_filter (m : OrdMap κ α) (p : κ → α → Bool) (e : κ × α) :
    e ∈ (m.filter p).entries ↔ e ∈ m.entries ∧ p e.1 e.2 = true := by
  simp [filter]

theorem mem_erase (m : OrdMap κ α) (key : κ) (e : κ × α) :
    e ∈ (m.erase key).entries ↔ e ∈ m.entries ∧ e.1 ≠ key := by
  simp [erase, mem_filter]

@[simp] theorem find?_insert_self (m : OrdMap κ α) (key : κ) (value : α) :
    (m.insert key value).find? key = some value := by
  simp [find?_eq_some_iff, mem_insert]

theorem find?_insert_of_ne (m : OrdMap κ α) {key other : κ} (value : α)
    (hne : other ≠ key) : (m.insert key value).find? other = m.find? other := by
  apply Option.ext
  intro a
  simp only [find?_eq_some_iff, mem_insert, Prod.mk.injEq]
  constructor
  · rintro (⟨h, _⟩ | ⟨h, _⟩)
    · exact absurd h hne
    · exact h
  · intro h
    exact Or.inr ⟨h, hne⟩

@[simp] theorem find?_erase_self (m : OrdMap κ α) (key : κ) :
    (m.erase key).find? key = none := by
  simp [find?_eq_none_iff, mem_erase]

theorem find?_erase_of_ne (m : OrdMap κ α) {key other : κ} (hne : other ≠ key) :
    (m.erase key).find? other = m.find? other := by
  apply Option.ext
  intro a
  simp [find?_eq_some_iff, mem_erase, hne]

theorem find?_filter_eq_some_iff (m : OrdMap κ α) (p : κ → α → Bool) (key : κ)
    (value : α) : (m.filter p).find? key = some value ↔
      m.find? key = some value ∧ p key value = true := by
  simp [find?_eq_some_iff, mem_filter]

theorem isEmpty_iff (m : OrdMap κ α) : m.isEmpty = true ↔ m.entries = [] := by
  simp [isEmpty]

end OrdMap

end MeizuM5c.Lib
