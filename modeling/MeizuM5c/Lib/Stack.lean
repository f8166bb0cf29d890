import Mathlib.Tactic

/-!
Stacking images bottom to top with a binary operator. `none` is the empty
stack, so that a stack may itself be one of the images of another.
-/

namespace MeizuM5c.Lib

variable {α : Type*} (overlay : α → α → α)

def overOpt : Option α → Option α → Option α
  | none, top => top
  | bottom, none => bottom
  | some bottom, some top => some (overlay bottom top)

/-- The composition of the images, the first one at the bottom. -/
def stack (images : List (Option α)) : Option α := images.foldl (overOpt overlay) none

variable {overlay}

theorem overOpt_none_right (a : Option α) : overOpt overlay a none = a := by
  cases a <;> rfl

theorem overOpt_assoc (hassoc : ∀ a b c, overlay (overlay a b) c = overlay a (overlay b c))
    (a b c : Option α) :
    overOpt overlay (overOpt overlay a b) c = overOpt overlay a (overOpt overlay b c) := by
  cases a <;> cases b <;> cases c <;> simp [overOpt, hassoc]

theorem foldl_overOpt (hassoc : ∀ a b c, overlay (overlay a b) c = overlay a (overlay b c))
    (bottom : Option α) (images : List (Option α)) :
    images.foldl (overOpt overlay) bottom = overOpt overlay bottom (stack overlay images) := by
  induction images generalizing bottom with
  | nil => exact (overOpt_none_right bottom).symm
  | cons image images ih =>
      have hstack : stack overlay (image :: images) = overOpt overlay image (stack overlay images) :=
        ih (overOpt overlay none image)
      rw [List.foldl_cons, ih, hstack, overOpt_assoc hassoc]

/-- A stack may be split anywhere. -/
theorem stack_append (hassoc : ∀ a b c, overlay (overlay a b) c = overlay a (overlay b c))
    (bottom top : List (Option α)) :
    stack overlay (bottom ++ top) = overOpt overlay (stack overlay bottom) (stack overlay top) := by
  rw [stack, List.foldl_append]
  exact foldl_overOpt hassoc _ top

theorem stack_singleton (image : Option α) : stack overlay [image] = image := rfl

end MeizuM5c.Lib
