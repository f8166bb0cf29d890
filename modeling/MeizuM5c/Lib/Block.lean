import MeizuM5c.Lib.Checked

/-!
Blocks of memory with checked accesses. An access outside of its block and the
use of a null pointer are faults. A computation is safe when it ends in
neither.
-/

namespace MeizuM5c.Lib

variable {α β : Type}

inductive Fault where
  | nullPointer
  | outOfBounds
deriving DecidableEq

/-- The computation ends without a fault. -/
def Safe (x : Except Fault α) : Prop := ∃ a, x = .ok a

@[simp] theorem safe_ok (a : α) : Safe (.ok a) := ⟨a, rfl⟩

@[simp] theorem safe_pure (a : α) : Safe (pure a : Except Fault α) := ⟨a, rfl⟩

@[simp] theorem not_safe_error (f : Fault) : ¬ Safe (.error f : Except Fault α) := by
  rintro ⟨a, ha⟩
  cases ha

theorem safe_bind_iff {x : Except Fault α} {f : α → Except Fault β} :
    Safe (x >>= f) ↔ ∃ a, x = .ok a ∧ Safe (f a) := by
  constructor
  · rintro ⟨b, hb⟩
    obtain ⟨a, ha, hfa⟩ := bind_eq_ok_iff.mp hb
    exact ⟨a, ha, b, hfa⟩
  · rintro ⟨a, rfl, b, hb⟩
    exact ⟨b, hb⟩

theorem Safe.bind {x : Except Fault α} {f : α → Except Fault β} (hx : Safe x)
    (hf : ∀ a, Safe (f a)) : Safe (x >>= f) := by
  obtain ⟨a, ha⟩ := hx
  exact safe_bind_iff.mpr ⟨a, ha, hf a⟩

/-- What a pointer points to. -/
def deref (p : Option α) : Except Fault α :=
  match p with
  | some a => .ok a
  | none => .error .nullPointer

@[simp] theorem deref_some (a : α) : deref (some a) = .ok a := rfl

/-- The element at an index of a block. -/
def load (block : List α) (i : Nat) : Except Fault α :=
  match block[i]? with
  | some a => .ok a
  | none => .error .outOfBounds

theorem load_eq_ok_iff {block : List α} {i : Nat} {a : α} :
    load block i = .ok a ↔ block[i]? = some a := by
  unfold load
  cases block[i]? with
  | none => simp
  | some b => simp

theorem load_of_lt {block : List α} {i : Nat} (h : i < block.length) :
    load block i = .ok block[i] := by
  rw [load_eq_ok_iff]
  exact List.getElem?_eq_getElem h

theorem safe_load_iff {block : List α} {i : Nat} : Safe (load block i) ↔ i < block.length := by
  constructor
  · rintro ⟨a, ha⟩
    exact (List.getElem?_eq_some_iff.mp (load_eq_ok_iff.mp ha)).1
  · intro h
    exact ⟨block[i], load_of_lt h⟩

/-- The elements in front of an index. -/
def loadFront (block : List α) (n : Nat) : Except Fault (List α) :=
  if n ≤ block.length then .ok (block.take n) else .error .outOfBounds

theorem loadFront_of_le {block : List α} {n : Nat} (h : n ≤ block.length) :
    loadFront block n = .ok (block.take n) := if_pos h

/-- The element behind a first part. -/
theorem load_append {before after : List α} {a : α} {i : Nat} (h : i = before.length) :
    load (before ++ a :: after) i = .ok a := by
  rw [load_eq_ok_iff, h]
  simp

/-- The block with a new element at an index. -/
def store (block : List α) (i : Nat) (a : α) : Except Fault (List α) :=
  if i < block.length then .ok (block.set i a) else .error .outOfBounds

theorem store_of_lt {block : List α} {i : Nat} (h : i < block.length) (a : α) :
    store block i a = .ok (block.set i a) := if_pos h

theorem store_append {before after : List α} {a : α} {i : Nat} (h : i = before.length) (b : α) :
    store (before ++ a :: after) i b = .ok (before ++ b :: after) := by
  rw [store_of_lt (by simp [h]), h, List.set_append_right _ _ (le_refl _), Nat.sub_self]
  rfl

/-- A whole list written to the front of a block. -/
def overwrite (block new : List α) : Except Fault (List α) :=
  if new.length ≤ block.length then .ok (new ++ block.drop new.length)
  else .error .outOfBounds

theorem overwrite_of_le {block new : List α} (h : new.length ≤ block.length) :
    overwrite block new = .ok (new ++ block.drop new.length) := if_pos h

theorem overwrite_of_lt {block new : List α} (h : block.length < new.length) :
    overwrite block new = .error .outOfBounds := if_neg (by omega)

end MeizuM5c.Lib
