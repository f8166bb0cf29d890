import Mathlib.Data.Finset.Card
import Mathlib.Tactic.Common

/-!
A lock that many threads may hold for reading or one for writing. It counts its
readers and does not know them: a thread that gives back what it does not hold
takes the hold of another. `surplus` compares the count with the threads that
believe to hold the lock.
-/

namespace MeizuM5c.Lib

@[ext]
structure RwLock (T : Type) where
  readers : Nat
  writer : Option T
  alone : writer = none ∨ readers = 0

namespace RwLock

variable {T : Type}

def free : RwLock T := ⟨0, none, .inl rfl⟩

/-- `none` where the thread has to wait. -/
def rdlock (l : RwLock T) : Option (RwLock T) :=
  if l.writer = none then some ⟨l.readers + 1, none, .inl rfl⟩ else none

def wrlock (l : RwLock T) (t : T) : Option (RwLock T) :=
  if l.writer = none ∧ l.readers = 0 then some ⟨0, some t, .inr rfl⟩ else none

/-- `none` where the lock is another's or nobody's. -/
def unlock [DecidableEq T] (l : RwLock T) (t : T) : Option (RwLock T) :=
  match l.writer, l.readers with
  | some u, _ => if u = t then some free else none
  | none, 0 => none
  | none, n + 1 => some ⟨n, none, .inl rfl⟩

section Spec

variable {l l' : RwLock T} {t : T}

theorem readers_of_writer (h : l.writer = some t) : l.readers = 0 := by
  refine l.alone.resolve_left ?_
  simp [h]

theorem rdlock_eq_some_iff :
    l.rdlock = some l' ↔ l.writer = none ∧ l'.readers = l.readers + 1 ∧ l'.writer = none := by
  unfold rdlock
  split_ifs with hfree
  · simp [hfree, RwLock.ext_iff, eq_comm]
  · simp [hfree]

theorem wrlock_eq_some_iff :
    l.wrlock t = some l' ↔
      l.writer = none ∧ l.readers = 0 ∧ l'.readers = 0 ∧ l'.writer = some t := by
  unfold wrlock
  split_ifs with hfree
  · simp [hfree, RwLock.ext_iff, eq_comm]
  · constructor
    · intro h
      cases h
    · rintro ⟨hwriter, hreaders, -⟩
      exact absurd ⟨hwriter, hreaders⟩ hfree

variable [DecidableEq T]

theorem unlock_writer (h : l.writer = some t) : l.unlock t = some free := by
  simp [unlock, h]

/-- A thread that is not the writer gives back the hold of some reader. -/
theorem unlock_eq_some_iff (h : l.writer ≠ some t) :
    l.unlock t = some l' ↔ l.readers = l'.readers + 1 ∧ l'.writer = none := by
  cases hwriter : l.writer with
  | some u =>
      have hother : u ≠ t := by simpa [hwriter] using h
      have hnone : l.readers = 0 := readers_of_writer hwriter
      simp [unlock, hwriter, hother, hnone]
  | none =>
      cases hreaders : l.readers with
      | zero => simp [unlock, hwriter, hreaders]
      | succ n => simp [unlock, hwriter, hreaders, RwLock.ext_iff, eq_comm]

theorem unlock_eq_none_iff (h : l.writer ≠ some t) : l.unlock t = none ↔ l.readers = 0 := by
  cases hwriter : l.writer with
  | some u =>
      have hother : u ≠ t := by simpa [hwriter] using h
      have hnone : l.readers = 0 := readers_of_writer hwriter
      simp [unlock, hwriter, hother, hnone]
  | none =>
      cases hreaders : l.readers with
      | zero => simp [unlock, hwriter, hreaders]
      | succ n => simp [unlock, hwriter, hreaders]

end Spec

/-- The holds for reading that no thread knows of, less those that a thread believes
to have and has not. -/
def surplus (l : RwLock T) (reading : Finset T) : Int := l.readers - reading.card

section Surplus

variable {l l' : RwLock T} {reading : Finset T} {t : T}

/-- With a hold too many there is no writer, and none is let in. -/
theorem writer_of_surplus (h : 0 < l.surplus reading) : l.writer = none := by
  refine l.alone.resolve_right ?_
  unfold surplus at h
  omega

theorem wrlock_of_surplus (h : 0 < l.surplus reading) : l.wrlock t = none := by
  unfold wrlock
  refine if_neg ?_
  unfold surplus at h
  omega

theorem surplus_rdlock [DecidableEq T] (h : l.rdlock = some l') (ht : t ∉ reading) :
    l'.surplus (insert t reading) = l.surplus reading := by
  obtain ⟨-, hreaders, -⟩ := rdlock_eq_some_iff.mp h
  unfold surplus
  rw [hreaders, Finset.card_insert_of_notMem ht]
  push_cast
  omega

/-- A thread that takes the lock and does not mean to give it back. -/
theorem surplus_rdlock_lost (h : l.rdlock = some l') :
    l'.surplus reading = l.surplus reading + 1 := by
  obtain ⟨-, hreaders, -⟩ := rdlock_eq_some_iff.mp h
  unfold surplus
  rw [hreaders]
  push_cast
  omega

theorem surplus_unlock [DecidableEq T] (hother : l.writer ≠ some t) (h : l.unlock t = some l')
    (ht : t ∈ reading) : l'.surplus (reading.erase t) = l.surplus reading := by
  obtain ⟨hreaders, -⟩ := (unlock_eq_some_iff hother).mp h
  have hcard := Finset.card_erase_add_one ht
  unfold surplus
  omega

/-- The hold that a thread has lost to another is found missing. -/
theorem surplus_unlock_refused [DecidableEq T] (ht : t ∈ reading) :
    l.surplus (reading.erase t) = l.surplus reading + 1 := by
  have hcard := Finset.card_erase_add_one ht
  unfold surplus
  omega

end Surplus

end RwLock

end MeizuM5c.Lib
