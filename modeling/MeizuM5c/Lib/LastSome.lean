import Mathlib.Tactic

/-!
The last of the values that a function finds in a list, as in a log of which only
the newest entry of a kind counts.
-/

namespace MeizuM5c.Lib

variable {α β : Type}

def lastSome (f : α → Option β) (l : List α) : Option β := (l.filterMap f).getLast?

@[simp] theorem lastSome_nil (f : α → Option β) : lastSome f [] = none := rfl

theorem lastSome_cons (f : α → Option β) (a : α) (l : List α) :
    lastSome f (a :: l) = (lastSome f l).or (f a) := by
  unfold lastSome
  cases ha : f a with
  | none => simp [ha]
  | some b =>
      rw [List.filterMap_cons, ha, List.getLast?_cons]
      cases (l.filterMap f).getLast? with
      | none => rfl
      | some c => rfl

/-- When only one element is of the kind that the function looks for, it is the
last. -/
theorem lastSome_of_single {f : α → Option β} {p : α → Bool} {l : List α} {a : α}
    (hp : ∀ b, p b = false → f b = none) (hsingle : l.filter p = [a]) : lastSome f l = f a := by
  have hfilter : l.filterMap f = (l.filter p).filterMap f := by
    rw [List.filterMap_filter]
    apply List.filterMap_congr
    intro b _
    cases hb : p b with
    | false => simp [hp b hb]
    | true => simp
  rw [lastSome, hfilter, hsingle]
  cases ha : f a with
  | none => simp [ha]
  | some b => simp [ha]

theorem lastSome_append (f : α → Option β) (l m : List α) :
    lastSome f (l ++ m) = (lastSome f m).or (lastSome f l) := by
  induction l with
  | nil => simp
  | cons a l ih => rw [List.cons_append, lastSome_cons, lastSome_cons, ih, Option.or_assoc]

theorem lastSome_eq_none {f : α → Option β} {l : List α} (h : ∀ a ∈ l, f a = none) :
    lastSome f l = none := by
  unfold lastSome
  rw [List.filterMap_eq_nil_iff.mpr h]
  rfl

end MeizuM5c.Lib
