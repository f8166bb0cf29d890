import Mathlib.Tactic

/-!
Loops of the form `do body while (again)`, with fuel for the number of rounds
and a body that may itself run out of fuel. A loop that works through a list,
one element a round, ends as soon as it has fuel for every element.
-/

namespace MeizuM5c.Lib

variable {σ τ : Type*}

def doWhile (body : σ → Option σ) (again : σ → Bool) : Nat → σ → Option σ
  | 0, _ => none
  | fuel + 1, s =>
      match body s with
      | none => none
      | some t => if again t then doWhile body again fuel t else some t

theorem doWhile_list {body : σ → Option σ} {again : σ → Bool} (Rel : σ → List τ → Prop)
    (hbody : ∀ s x xs, Rel s (x :: xs) → ∃ t, body s = some t ∧ Rel t xs)
    (hagain : ∀ s xs, Rel s xs → (again s = true ↔ xs ≠ []))
    {x : τ} {xs : List τ} {s : σ} (hs : Rel s (x :: xs)) {fuel : Nat} (hfuel : xs.length < fuel) :
    ∃ t, doWhile body again fuel s = some t ∧ Rel t [] := by
  induction xs generalizing x s fuel with
  | nil =>
      obtain ⟨fuel, rfl⟩ : ∃ n, fuel = n + 1 := ⟨fuel - 1, by omega⟩
      obtain ⟨t, hbody, ht⟩ := hbody s x [] hs
      have hstop : ¬ again t = true := by simp [hagain t [] ht]
      exact ⟨t, by rw [doWhile, hbody]; simp [hstop], ht⟩
  | cons y ys ih =>
      simp only [List.length_cons] at hfuel
      obtain ⟨fuel, rfl⟩ : ∃ n, fuel = n + 1 := ⟨fuel - 1, by omega⟩
      obtain ⟨t, hbody, ht⟩ := hbody s x (y :: ys) hs
      have hmore : again t = true := by simp [hagain t (y :: ys) ht]
      obtain ⟨t', hrun, ht'⟩ := ih ht (by omega : ys.length < fuel)
      refine ⟨t', ?_, ht'⟩
      rw [doWhile, hbody]
      simp only [hmore, if_true, hrun]

end MeizuM5c.Lib
