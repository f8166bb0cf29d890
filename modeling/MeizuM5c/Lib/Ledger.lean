import Mathlib.Data.List.Perm.Basic

/-!
The account of a piece of code's allocations and frees. Blocks are numbered by the calls
of the allocator, which may fail; a pointer is into a block. `settle` goes through a
trace with the blocks that are live, and stops at a pointer that is not the start of a
live block.
-/

namespace MeizuM5c.Lib

structure Pointer where
  block : Nat
  offset : Nat := 0
  deriving DecidableEq, Repr

inductive HeapOp where
  | alloc (block size : Nat)
  | free (p : Pointer)
  deriving DecidableEq, Repr

def settle : List Nat → List HeapOp → Option (List Nat)
  | live, [] => some live
  | live, .alloc block _ :: ops => settle (block :: live) ops
  | live, .free p :: ops =>
      if p.offset = 0 ∧ p.block ∈ live then settle (live.erase p.block) ops else none

/-- The calls of the allocator so far, and the trace. -/
structure Ledger where
  calls : Nat := 0
  trace : List HeapOp := []
  deriving DecidableEq, Repr

namespace Ledger

/-- Every pointer that was freed was the start of a live block, and no block is left. -/
def Clean (m : Ledger) : Prop := settle [] m.trace = some []

instance (m : Ledger) : Decidable m.Clean := inferInstanceAs (Decidable (_ = _))

/-- A call of the allocator, which `gives` may refuse. -/
def calloc (gives : Nat → Bool) (size : Nat) (m : Ledger) : Option Pointer × Ledger :=
  if gives m.calls then
    (some ⟨m.calls, 0⟩, ⟨m.calls + 1, m.trace ++ [.alloc m.calls size]⟩)
  else (none, ⟨m.calls + 1, m.trace⟩)

/-- A null pointer may be freed. -/
def free (p : Option Pointer) (m : Ledger) : Ledger :=
  match p with
  | some p => { m with trace := m.trace ++ [.free p] }
  | none => m

def freeAll (ps : List (Option Pointer)) (m : Ledger) : Ledger :=
  ps.foldl (fun m p => m.free p) m

end Ledger

/-- The blocks of a list of pointers. -/
def blocks (ps : List (Option Pointer)) : List Nat :=
  ps.filterMap (fun p => p.map Pointer.block)

/-- The pointers are to the start of a block, or null. -/
def Starts (ps : List (Option Pointer)) : Prop := ∀ p, some p ∈ ps → p.offset = 0

section Lists

variable {p : Pointer} {ps qs : List (Option Pointer)}

@[simp] theorem blocks_nil : blocks [] = [] := rfl

@[simp] theorem blocks_none (ps : List (Option Pointer)) : blocks (none :: ps) = blocks ps := rfl

@[simp] theorem blocks_some (p : Pointer) (ps : List (Option Pointer)) :
    blocks (some p :: ps) = p.block :: blocks ps := rfl

@[simp] theorem blocks_append (ps qs : List (Option Pointer)) :
    blocks (ps ++ qs) = blocks ps ++ blocks qs := List.filterMap_append

theorem blocks_perm (h : ps.Perm qs) : (blocks ps).Perm (blocks qs) := h.filterMap _

theorem Starts.perm (h : Starts ps) (hperm : ps.Perm qs) : Starts qs :=
  fun p hp => h p (hperm.mem_iff.mpr hp)

theorem starts_nil : Starts [] := fun _ hp => absurd hp List.not_mem_nil

theorem starts_append : Starts (ps ++ qs) ↔ Starts ps ∧ Starts qs := by
  constructor
  · intro h
    exact ⟨fun p hp => h p (List.mem_append_left qs hp),
      fun p hp => h p (List.mem_append_right ps hp)⟩
  · rintro ⟨hps, hqs⟩ p hp
    rcases List.mem_append.mp hp with hp | hp
    · exact hps p hp
    · exact hqs p hp

theorem starts_start (block : Nat) : Starts [some ⟨block, 0⟩] := by
  intro p hp
  cases List.mem_singleton.mp hp
  rfl

theorem starts_null : Starts [none] := by
  intro p hp
  cases List.mem_singleton.mp hp

end Lists

section Settle

variable {live : List Nat} {ops more : List HeapOp} {p : Pointer}

theorem settle_append :
    settle live (ops ++ more) = (settle live ops).bind (fun live => settle live more) := by
  induction ops generalizing live with
  | nil => rfl
  | cons op ops ih =>
      cases op with
      | alloc block size =>
          rw [List.cons_append, settle, settle]
          exact ih
      | free p =>
          rw [List.cons_append, settle, settle]
          split_ifs
          · exact ih
          · rfl

end Settle

namespace Ledger

/-- The live blocks, in any order, each of which has been given. -/
def Holds (m : Ledger) (owned : List Nat) : Prop :=
  ∃ live, settle [] m.trace = some live ∧ live.Perm owned ∧ ∀ b ∈ live, b < m.calls

/-- A pointer was freed that was not the start of a live block. -/
def Broken (m : Ledger) : Prop := settle [] m.trace = none

variable {m : Ledger} {owned : List Nat} {gives : Nat → Bool}

theorem holds_start : Holds {} [] := ⟨[], rfl, .refl [], fun _ hb => absurd hb List.not_mem_nil⟩

theorem Holds.perm (h : m.Holds owned) {other : List Nat} (hperm : owned.Perm other) :
    m.Holds other := by
  obtain ⟨live, hsettle, howned, hbound⟩ := h
  exact ⟨live, hsettle, howned.trans hperm, hbound⟩

theorem Holds.clean_iff (h : m.Holds owned) : m.Clean ↔ owned = [] := by
  obtain ⟨live, hsettle, howned, -⟩ := h
  unfold Clean
  rw [hsettle, Option.some.injEq]
  constructor
  · intro hnil
    rw [hnil] at howned
    exact howned.nil_eq.symm
  · intro hnil
    rw [hnil] at howned
    exact howned.eq_nil

theorem Broken.not_clean (h : m.Broken) : ¬ m.Clean := by
  unfold Clean
  rw [h]
  exact (Option.some_ne_none _).symm

theorem calloc_given (size : Nat) (h : gives m.calls = true) :
    m.calloc gives size =
      (some ⟨m.calls, 0⟩, ⟨m.calls + 1, m.trace ++ [.alloc m.calls size]⟩) := if_pos h

theorem calloc_refused (size : Nat) (h : gives m.calls = false) :
    m.calloc gives size = (none, ⟨m.calls + 1, m.trace⟩) := by
  unfold calloc
  rw [h, if_neg Bool.false_ne_true]

/-- What the allocator gives is owned. -/
theorem Holds.calloc (h : m.Holds owned) (gives : Nat → Bool) (size : Nat) :
    Starts [(m.calloc gives size).1] ∧
      (m.calloc gives size).2.Holds (blocks [(m.calloc gives size).1] ++ owned) := by
  obtain ⟨live, hsettle, howned, hbound⟩ := h
  cases hgives : gives m.calls with
  | true =>
      rw [calloc_given size hgives]
      refine ⟨starts_start m.calls, m.calls :: live, ?_, ?_, ?_⟩
      · simp only
        rw [settle_append, hsettle]
        rfl
      · exact howned.cons m.calls
      · intro b hb
        rcases List.mem_cons.mp hb with rfl | hb
        · exact Nat.lt_succ_self _
        · exact Nat.lt_succ_of_lt (hbound b hb)
  | false =>
      rw [calloc_refused size hgives]
      refine ⟨starts_null, live, hsettle, howned, ?_⟩
      intro b hb
      exact Nat.lt_succ_of_lt (hbound b hb)

theorem Holds.free {p : Option Pointer} (h : m.Holds (blocks [p] ++ owned)) (hp : Starts [p]) :
    (m.free p).Holds owned := by
  cases p with
  | none => exact h
  | some p =>
      obtain ⟨live, hsettle, howned, hbound⟩ := h
      have hoffset : p.offset = 0 := hp p List.mem_cons_self
      have hmem : p.block ∈ live := howned.mem_iff.mpr List.mem_cons_self
      refine ⟨live.erase p.block, ?_, ?_, ?_⟩
      · simp only [Ledger.free]
        rw [settle_append, hsettle, Option.bind_some, settle, if_pos ⟨hoffset, hmem⟩]
        rfl
      · have herase := howned.erase p.block
        rwa [blocks_some, blocks_nil, List.singleton_append, List.erase_cons_head] at herase
      · intro b hb
        exact hbound b (List.mem_of_mem_erase hb)

/-- To free all that is owned settles the account. -/
theorem Holds.freeAll {ps : List (Option Pointer)} (h : m.Holds (blocks ps ++ owned))
    (hps : Starts ps) : (m.freeAll ps).Holds owned := by
  induction ps generalizing m with
  | nil => exact h
  | cons p ps ih =>
      have hsplit : blocks (p :: ps) = blocks [p] ++ blocks ps := blocks_append [p] ps
      rw [hsplit, List.append_assoc] at h
      obtain ⟨hhead, htail⟩ := starts_append.mp (show Starts ([p] ++ ps) from hps)
      exact ih (h.free hhead) htail

theorem Broken.free (h : m.Broken) (p : Option Pointer) : (m.free p).Broken := by
  cases p with
  | none => exact h
  | some p =>
      unfold Broken Ledger.free
      rw [settle_append, h]
      rfl

theorem Broken.freeAll (h : m.Broken) (ps : List (Option Pointer)) : (m.freeAll ps).Broken := by
  induction ps generalizing m with
  | nil => exact h
  | cons p ps ih => exact ih (h.free p)

/-- A pointer into a block cannot be freed. -/
theorem broken_free_interior (m : Ledger) {p : Pointer} (hp : p.offset ≠ 0) :
    (m.free (some p)).Broken := by
  unfold Broken Ledger.free
  rw [settle_append]
  cases settle [] m.trace with
  | none => rfl
  | some live =>
      rw [Option.bind_some, settle, if_neg (fun h => hp h.1)]

end Ledger

end MeizuM5c.Lib
