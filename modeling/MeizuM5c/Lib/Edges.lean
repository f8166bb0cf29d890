import Mathlib.Data.List.Basic

/-!
The edges of a signal: of a list of samples those whose key differs from the one of
the sample in front, where the first is compared with a given key.
-/

namespace MeizuM5c.Lib

variable {α β : Type} (key : α → β)

def edges [DecidableEq β] : β → List α → List α
  | _, [] => []
  | b, x :: xs => if key x = b then edges b xs else x :: edges (key x) xs

/-- The key of the last sample, or the given one where there is none. -/
def lastKey (b : β) (xs : List α) : β := ((xs.map key).getLast?).getD b

theorem lastKey_cons (b : β) (x : α) (xs : List α) :
    lastKey key b (x :: xs) = lastKey key (key x) xs := by
  rw [lastKey, List.map_cons, List.getLast?_cons, Option.getD_some, lastKey]

@[simp] theorem lastKey_concat (b : β) (xs : List α) (x : α) :
    lastKey key b (xs ++ [x]) = key x := by
  rw [lastKey, List.map_append, List.map_singleton, List.getLast?_concat, Option.getD_some]

/-- One more sample is an edge when its key differs from the last. -/
theorem edges_concat [DecidableEq β] (b : β) (xs : List α) (x : α) :
    edges key b (xs ++ [x]) =
      edges key b xs ++ if key x = lastKey key b xs then [] else [x] := by
  induction xs generalizing b with
  | nil => rfl
  | cons y ys ih =>
      rw [List.cons_append, edges, edges, lastKey_cons]
      split_ifs with hy hx hx
      · subst hy
        rw [ih, if_pos hx]
      · subst hy
        rw [ih, if_neg hx]
      · rw [ih, if_pos hx, List.cons_append]
      · rw [ih, if_neg hx, List.cons_append]

end MeizuM5c.Lib
