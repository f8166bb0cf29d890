import MeizuM5c.Region.Operator
import MeizuM5c.Region.Rasterizer

/-!
The exported operations of the region shim on `mStorage`, and what they are
for: a region is a set of pixels, stored in a normal form with its bounding
box as the last entry.
-/

namespace MeizuM5c.Region

open Lib

/-- `mStorage`. -/
abbrev Storage := List Rect

def getBounds (s : Storage) : Rect := s.getLastD EMPTY_RECT
def isEmpty (s : Storage) : Bool := (getBounds s).isEmpty
def isRect (s : Storage) : Bool := s.length = 1

/-- The rectangles between `begin()` and `end()`. -/
def getArray (s : Storage) : List Rect :=
  if s = [] then [] else s.take (if isRect s then 1 else s.length - 1)

def clear : Storage := [⟨0, 0, 0, 0⟩]
def set (r : Rect) : Storage := [r]
def setSize (w h : Int) : Storage := [⟨0, 0, w, h⟩]

def booleanOperation (fuel : Nat) (op : Nat) (lhs : Storage) (rhs : Rect) : Option Storage :=
  if !rhs.isValid then some lhs
  else (regionOperator Rasterizer.add op fuel (getArray lhs) [rhs] {}).map Rasterizer.finish

def orSelf (fuel : Nat) (r : Rect) (s : Storage) : Option Storage :=
  if isEmpty s then some (set r) else booleanOperation fuel opOr s r

def subtractSelf (fuel : Nat) (r : Rect) (s : Storage) : Option Storage :=
  booleanOperation fuel opNand s r

inductive RegionOp where
  | create
  | clear
  | set (w h : Int)
  | orSelf (r : Rect)
  | subtractSelf (r : Rect)

def RegionOp.exec (fuel : Nat) : RegionOp → Storage → Option Storage
  | .create, _ => some Region.clear
  | .clear, _ => some Region.clear
  | .set w h, _ => some (setSize w h)
  | .orSelf r, s => Region.orSelf fuel r s
  | .subtractSelf r, s => Region.subtractSelf fuel r s

/-- The calls in order, on a new region. -/
def run (fuel : Nat) (ops : List RegionOp) : Option Storage :=
  ops.foldlM (fun s op => op.exec fuel s) Region.clear

section Law

abbrev Pixels := Set (Int × Int)

def Rect.Has (r : Rect) (x y : Int) : Prop :=
  (r.left ≤ x ∧ x < r.right) ∧ r.top ≤ y ∧ y < r.bottom

def Rect.pixels (r : Rect) : Pixels := { p | r.Has p.1 p.2 }

/-- What a call does to the set. -/
def RegionOp.denote : RegionOp → Pixels → Pixels
  | .create, _ => ∅
  | .clear, _ => ∅
  | .set w h, _ => (⟨0, 0, w, h⟩ : Rect).pixels
  | .orSelf r, S => S ∪ r.pixels
  | .subtractSelf r, S => S \ r.pixels

def denote (ops : List RegionOp) : Pixels := ops.foldl (fun S op => op.denote S) ∅

def InRange (v : Int) : Prop := INT_MIN ≤ v ∧ v ≤ INT_MAX

instance (v : Int) : Decidable (InRange v) := inferInstanceAs (Decidable (_ ∧ _))

/-- Rectangles that callers pass: ordered 32-bit sides, a width and a height
that fit as well, and a corner below the largest integer. -/
structure Rect.Valid (r : Rect) : Prop where
  left : InRange r.left
  top : InRange r.top
  right : InRange r.right
  bottom : InRange r.bottom
  width : r.left ≤ r.right ∧ r.right - r.left ≤ INT_MAX
  height : r.top ≤ r.bottom ∧ r.bottom - r.top ≤ INT_MAX
  corner : r.left < INT_MAX ∧ r.top < INT_MAX

def RegionOp.Valid : RegionOp → Prop
  | .create | .clear => True
  | .set w h => (0 ≤ w ∧ w ≤ INT_MAX) ∧ 0 ≤ h ∧ h ≤ INT_MAX
  | .orSelf r | .subtractSelf r => r.Valid

/-- The smallest rectangle around the rectangles. -/
structure BoundingBox (box : Rect) (rects : List Rect) : Prop where
  contains : ∀ r ∈ rects,
    box.left ≤ r.left ∧ box.top ≤ r.top ∧ r.right ≤ box.right ∧ r.bottom ≤ box.bottom
  left : ∃ r ∈ rects, r.left = box.left
  top : ∃ r ∈ rects, r.top = box.top
  right : ∃ r ∈ rects, r.right = box.right
  bottom : ∃ r ∈ rects, r.bottom = box.bottom

/-- The horizontal extents of the rectangles with a given top. -/
def spansAt (rects : List Rect) (top : Int) : List (Int × Int) :=
  (rects.filter fun r => r.top = top).map fun r => (r.left, r.right)

/-- The stored rectangles are the normal form of a set of pixels. Pairs are
taken in the order of the list. -/
structure RegionLaw (s : Storage) (S : Pixels) : Prop where
  covers : ∀ x y, (x, y) ∈ S ↔ ∃ r ∈ getArray s, r.Has x y
  disjoint : (getArray s).Pairwise fun r q => ∀ x y, ¬ (r.Has x y ∧ q.Has x y)
  sorted : (getArray s).Pairwise fun r q => r.top < q.top ∨ r.top = q.top ∧ r.left < q.left
  bands : ∀ r ∈ getArray s, ∀ q ∈ getArray s, r.top = q.top → r.bottom = q.bottom
  horizontal : (getArray s).Pairwise fun r q => r.top = q.top → r.right ≠ q.left
  vertical : (getArray s).Pairwise fun r q => r.top < q.top → r.bottom = q.top →
    spansAt (getArray s) r.top ≠ spansAt (getArray s) q.top
  nonempty : (∀ r ∈ getArray s, r.left < r.right ∧ r.top < r.bottom) ∨
    S = ∅ ∧ ∃ r, getArray s = [r] ∧ (r.left = r.right ∨ r.top = r.bottom)
  last : ∃ box, s.getLast? = some box ∧ BoundingBox box (getArray s)

/-- The calls return, and leave the normal form of their set. -/
def LawAfter (ops : List RegionOp) : Prop :=
  ∃ s N, (∀ fuel ≥ N, run fuel ops = some s) ∧ RegionLaw s (denote ops)

end Law

end MeizuM5c.Region
