import Mathlib.Data.List.Forall2
import Mathlib.Tactic

/-!
Computations that may stop with an error. One error can be singled out as the
one that must not happen: `Avoids e` says that a computation does not end in
it, and composes with `bind` and with loops.
-/

namespace MeizuM5c.Lib

variable {ε α β : Type}

@[simp] theorem ok_bind (a : α) (f : α → Except ε β) : (Except.ok a >>= f) = f a := rfl

theorem bind_eq_ok_iff {x : Except ε α} {f : α → Except ε β} {b : β} :
    x >>= f = .ok b ↔ ∃ a, x = .ok a ∧ f a = .ok b := by
  cases x with
  | error e => simp [bind, Except.bind]
  | ok a => simp [bind, Except.bind]

/-- A loop that ends has an answer for every item. -/
theorem mapM_eq_ok_iff {f : α → Except ε β} {xs : List α} {ys : List β} :
    xs.mapM f = .ok ys ↔ List.Forall₂ (fun x y => f x = .ok y) xs ys := by
  induction xs generalizing ys with
  | nil =>
      rw [List.mapM_nil, List.forall₂_nil_left_iff]
      exact ⟨fun h => (Except.ok.inj h).symm, fun h => by rw [h]; rfl⟩
  | cons x xs ih =>
      rw [List.mapM_cons, bind_eq_ok_iff, List.forall₂_cons_left_iff]
      constructor
      · rintro ⟨y, hy, h⟩
        obtain ⟨rest, hrest, hys⟩ := bind_eq_ok_iff.mp h
        exact ⟨y, rest, hy, ih.mp hrest, (Except.ok.inj hys).symm⟩
      · rintro ⟨y, rest, hy, hrest, rfl⟩
        exact ⟨y, hy, bind_eq_ok_iff.mpr ⟨rest, ih.mpr hrest, rfl⟩⟩

theorem exists_of_mem_mapM {f : α → Except ε β} {xs : List α} {ys : List β}
    (h : xs.mapM f = .ok ys) {x : α} (hx : x ∈ xs) : ∃ y ∈ ys, f x = .ok y := by
  rw [mapM_eq_ok_iff] at h
  induction h with
  | nil => cases hx
  | cons hy _ ih =>
      rcases List.mem_cons.mp hx with rfl | hx
      · exact ⟨_, List.mem_cons_self, hy⟩
      · obtain ⟨y, hmem, hfy⟩ := ih hx
        exact ⟨y, List.mem_cons_of_mem _ hmem, hfy⟩

theorem exists_of_mem_result {f : α → Except ε β} {xs : List α} {ys : List β}
    (h : xs.mapM f = .ok ys) {y : β} (hy : y ∈ ys) : ∃ x ∈ xs, f x = .ok y := by
  rw [mapM_eq_ok_iff] at h
  induction h with
  | nil => cases hy
  | cons hfy _ ih =>
      rcases List.mem_cons.mp hy with rfl | hy
      · exact ⟨_, List.mem_cons_self, hfy⟩
      · obtain ⟨x, hmem, hfx⟩ := ih hy
        exact ⟨x, List.mem_cons_of_mem _ hmem, hfx⟩

/-- The computation does not stop with this error. -/
def Avoids (e : ε) (x : Except ε α) : Prop := x ≠ .error e

@[simp] theorem avoids_ok (e : ε) (a : α) : Avoids e (.ok a) := nofun

@[simp] theorem avoids_error_iff (e e' : ε) : Avoids e (.error e' : Except ε α) ↔ e' ≠ e := by
  simp [Avoids]

theorem avoids_bind_iff {e : ε} {x : Except ε α} {f : α → Except ε β} :
    Avoids e (x >>= f) ↔ Avoids e x ∧ ∀ a, x = .ok a → Avoids e (f a) := by
  cases x with
  | error e' => simp [Avoids, bind, Except.bind]
  | ok a => simp [Avoids, bind, Except.bind]

/-- When a computation does not end in the error, and when it then has a result. -/
structure Outcome (e : ε) (x : Except ε α) (safe done : Prop) : Prop where
  avoids : Avoids e x ↔ safe
  result : safe → ((∃ a, x = .ok a) ↔ done)

/-- Every item is good, up to the first at which the loop does not go on. -/
def UpTo (good goesOn : α → Prop) : List α → Prop
  | [] => True
  | x :: xs => good x ∧ (goesOn x → UpTo good goesOn xs)

theorem upTo_of_forall {good goesOn : α → Prop} {xs : List α} (h : ∀ x ∈ xs, good x) :
    UpTo good goesOn xs := by
  induction xs with
  | nil => trivial
  | cons x xs ih =>
      rw [List.forall_mem_cons] at h
      exact ⟨h.1, fun _ => ih h.2⟩

/-- A loop that nothing but a bad item stops. -/
theorem upTo_true_iff {good : α → Prop} {xs : List α} :
    UpTo good (fun _ => True) xs ↔ ∀ x ∈ xs, good x := by
  induction xs with
  | nil => simp [UpTo]
  | cons x xs ih => simp [UpTo, ih]

namespace Outcome

variable {e : ε} {x : Except ε α} {f : α → Except ε β} {safe safe' done done' : Prop}

theorem ok (e : ε) (a : α) : Outcome e (.ok a) True True := by
  refine ⟨iff_true_intro (avoids_ok e a), fun _ => iff_true_intro ⟨a, rfl⟩⟩

theorem error {e' : ε} (hne : e' ≠ e) : Outcome e (.error e' : Except ε α) True False := by
  constructor
  · simpa using hne
  · simp

theorem congr (h : Outcome e x safe done) (hsafe : safe ↔ safe')
    (hdone : safe → (done ↔ done')) : Outcome e x safe' done' := by
  refine ⟨h.avoids.trans hsafe, fun hs => ?_⟩
  have hold := hsafe.mpr hs
  exact (h.result hold).trans (hdone hold)

/-- The rest of the computation runs when there is a first result. -/
theorem bind (h : Outcome e x safe done)
    (hf : ∀ a, x = .ok a → Outcome e (f a) safe' done') :
    Outcome e (x >>= f) (safe ∧ (done → safe')) (done ∧ done') := by
  constructor
  · rw [avoids_bind_iff, h.avoids]
    refine and_congr_right (fun hs => ?_)
    rw [← h.result hs]
    constructor
    · rintro hall ⟨a, ha⟩
      exact (hf a ha).avoids.mp (hall a ha)
    · exact fun hrest a ha => (hf a ha).avoids.mpr (hrest ⟨a, ha⟩)
  · rintro ⟨hs, hrest⟩
    rw [← h.result hs] at hrest ⊢
    constructor
    · rintro ⟨b, hb⟩
      obtain ⟨a, ha, hfa⟩ := bind_eq_ok_iff.mp hb
      exact ⟨⟨a, ha⟩, ((hf a ha).result (hrest ⟨a, ha⟩)).mp ⟨b, hfa⟩⟩
    · rintro ⟨⟨a, ha⟩, hd⟩
      obtain ⟨b, hb⟩ := ((hf a ha).result (hrest ⟨a, ha⟩)).mpr hd
      exact ⟨b, bind_eq_ok_iff.mpr ⟨a, ha, hb⟩⟩

/-- The same after a first part that only the error can stop. -/
theorem bind_of_true (h : Outcome e x safe True)
    (hf : ∀ a, x = .ok a → Outcome e (f a) safe' done') :
    Outcome e (x >>= f) (safe ∧ safe') done' := by
  refine (h.bind hf).congr ?_ ?_
  · rw [true_implies]
  · intro _
    rw [true_and]

/-- And when the rest cannot end in the error. -/
theorem bind_of_safe (h : Outcome e x safe True) (hf : ∀ a, x = .ok a → Outcome e (f a) True done') :
    Outcome e (x >>= f) safe done' :=
  (h.bind_of_true hf).congr (and_iff_left trivial) (fun _ => Iff.rfl)

/-- The loop. -/
theorem mapM {good goesOn : α → Prop} {xs : List α}
    (h : ∀ x ∈ xs, Outcome e (f x) (good x) (goesOn x)) :
    Outcome e (xs.mapM f) (UpTo good goesOn xs) (∀ x ∈ xs, goesOn x) := by
  induction xs with
  | nil =>
      rw [List.mapM_nil]
      exact (Outcome.ok e []).congr Iff.rfl (fun _ => by simp)
  | cons x xs ih =>
      rw [List.forall_mem_cons] at h
      rw [List.mapM_cons]
      refine (h.1.bind fun y _ => (ih h.2).bind fun ys _ => Outcome.ok e (y :: ys)).congr ?_ ?_
      · simp [UpTo]
      · simp

end Outcome

end MeizuM5c.Lib
