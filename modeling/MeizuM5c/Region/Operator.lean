import MeizuM5c.Lib.Loop
import MeizuM5c.Region.Rect

/-!
`region_operator`: the boolean operation on two lists of rectangles. An outer
spanner walks the bands of both lists from top to bottom, an inner one the
rectangles of the current bands from left to right, and each rectangle that
the operation selects is handed to a rasterizer. The code is generic in the
rasterizer, and so is the model. Both operands have offset zero in every call
of the shim.
-/

namespace MeizuM5c.Region

open Lib

def LHS : Nat := 0x5
def RHS : Nat := 0x6
def opNand : Nat := LHS &&& (RHS ^^^ 0xffffffff)
def opOr : Nat := LHS ||| RHS

/-- Which operand covers the piece that `next` returns. -/
inductive Inside where
  | lhsBeforeRhs
  | lhsAfterRhs
  | lhsCoincideRhs
deriving DecidableEq

def Inside.toNat : Inside → Nat
  | .lhsBeforeRhs => 0
  | .lhsAfterRhs => 1
  | .lhsCoincideRhs => 2

/-- An operand that is used up has both ends at the largest integer. -/
structure SpannerBase where
  lhsHead : Int := INT_MAX
  lhsTail : Int := INT_MAX
  rhsHead : Int := INT_MAX
  rhsTail : Int := INT_MAX
deriving DecidableEq

/-- What `SpannerBase::next` returns, its reference parameters included. -/
structure Next where
  inside : Inside
  head : Int
  tail : Int
  moreLhs : Bool := false
  moreRhs : Bool := false
  base : SpannerBase

def SpannerBase.next (b : SpannerBase) : Next :=
  if b.lhsHead < b.rhsHead then
    if b.lhsTail ≤ b.rhsHead then
      { inside := .lhsBeforeRhs, head := b.lhsHead, tail := b.lhsTail, moreLhs := true, base := b }
    else
      { inside := .lhsBeforeRhs, head := b.lhsHead, tail := b.rhsHead
        base := { b with lhsHead := b.rhsHead } }
  else if b.rhsHead < b.lhsHead then
    if b.rhsTail ≤ b.lhsHead then
      { inside := .lhsAfterRhs, head := b.rhsHead, tail := b.rhsTail, moreRhs := true, base := b }
    else
      { inside := .lhsAfterRhs, head := b.rhsHead, tail := b.lhsHead
        base := { b with rhsHead := b.lhsHead } }
  else
    -- One of the two tests succeeds, so the first `tail` never remains.
    let n : Next := { inside := .lhsCoincideRhs, head := b.lhsHead, tail := b.lhsHead, base := b }
    let n : Next :=
      if b.lhsTail ≤ b.rhsTail then
        { n with
          tail := b.lhsTail, moreLhs := true, base := { n.base with rhsHead := b.lhsTail } }
      else n
    if b.rhsTail ≤ b.lhsTail then
      { n with
        tail := b.rhsTail, moreRhs := true, base := { n.base with lhsHead := b.rhsTail } }
    else n

/-- The outer spanner: the bands of both operands. -/
structure Spanner where
  base : SpannerBase
  lhs : List Rect
  rhs : List Rect

def Spanner.isDone (s : Spanner) : Bool := s.rhs.isEmpty && s.lhs.isEmpty

/-- An operand and the two ends that `advance` leaves behind. -/
structure Advanced where
  rects : List Rect
  head : Int
  tail : Int

/-- The ends of the first band among the rectangles that are left. -/
def bandEnds : List Rect → Advanced
  | [] => ⟨[], INT_MAX, INT_MAX⟩
  | r :: rects => ⟨r :: rects, r.top, r.bottom⟩

def Spanner.create (lhs rhs : List Rect) : Spanner :=
  let l := bandEnds lhs
  let r := bandEnds rhs
  { base := ⟨l.head, l.tail, r.head, r.tail⟩, lhs, rhs }

/-- To the next band: the first rectangle with another top. -/
def Spanner.advance : List Rect → Advanced
  | [] => bandEnds []
  | r :: rects => bandEnds (rects.dropWhile (fun q => q.top = r.top))

def Spanner.next (s : Spanner) : Next × Spanner :=
  let n := s.base.next
  let lhs := if n.moreLhs then Spanner.advance s.lhs else ⟨s.lhs, n.base.lhsHead, n.base.lhsTail⟩
  let rhs := if n.moreRhs then Spanner.advance s.rhs else ⟨s.rhs, n.base.rhsHead, n.base.rhsTail⟩
  (n, ⟨⟨lhs.head, lhs.tail, rhs.head, rhs.tail⟩, lhs.rects, rhs.rects⟩)

/-- The inner spanner: the rectangles of the current bands. -/
structure SpannerInner where
  base : SpannerBase := {}
  lhs : List Rect
  rhs : List Rect

def SpannerInner.prepare (s : SpannerInner) (inside : Inside) : SpannerInner :=
  let lhsHead := (s.lhs.head?.map Rect.left).getD s.base.lhsHead
  let lhsTail := (s.lhs.head?.map Rect.right).getD s.base.lhsTail
  let rhsHead := (s.rhs.head?.map Rect.left).getD s.base.rhsHead
  let rhsTail := (s.rhs.head?.map Rect.right).getD s.base.rhsTail
  match inside with
  | .lhsBeforeRhs => { s with base := ⟨lhsHead, lhsTail, INT_MAX, INT_MAX⟩ }
  | .lhsAfterRhs => { s with base := ⟨INT_MAX, INT_MAX, rhsHead, rhsTail⟩ }
  | .lhsCoincideRhs => { s with base := ⟨lhsHead, lhsTail, rhsHead, rhsTail⟩ }

def SpannerInner.isDone (s : SpannerInner) : Bool :=
  s.base.lhsHead = INT_MAX && s.base.rhsHead = INT_MAX

/-- To the next rectangle, as long as it is in the same band. An operand
without rectangles keeps its ends. -/
def SpannerInner.advance (head tail : Int) : List Rect → Advanced
  | [] => ⟨[], head, tail⟩
  | [_] => ⟨[], INT_MAX, INT_MAX⟩
  | r :: q :: rects =>
      if q.top ≠ r.top then ⟨q :: rects, INT_MAX, INT_MAX⟩
      else ⟨q :: rects, q.left, q.right⟩

def SpannerInner.next (s : SpannerInner) : Next × SpannerInner :=
  let n := s.base.next
  let lhs : Advanced :=
    if n.moreLhs then SpannerInner.advance n.base.lhsHead n.base.lhsTail s.lhs
    else ⟨s.lhs, n.base.lhsHead, n.base.lhsTail⟩
  let rhs : Advanced :=
    if n.moreRhs then SpannerInner.advance n.base.rhsHead n.base.rhsTail s.rhs
    else ⟨s.rhs, n.base.rhsHead, n.base.rhsTail⟩
  (n, ⟨⟨lhs.head, lhs.tail, rhs.head, rhs.tail⟩, lhs.rects, rhs.rects⟩)

section Operator

variable {ρ : Type} (rasterizer : ρ → Rect → ρ) (opMask : Nat)

def selects (opMask : Nat) (inside : Inside) : Bool := (opMask >>> inside.toNat) &&& 1 = 1

/-- The round of the inner loop. -/
def innerBody (s : SpannerInner × Rect × ρ) : Option (SpannerInner × Rect × ρ) :=
  let (n, spanner) := s.1.next
  let current : Rect := { s.2.1 with left := n.head, right := n.tail }
  let out :=
    if selects opMask n.inside ∧ current.left < current.right ∧ current.top < current.bottom then
      rasterizer s.2.2 current
    else s.2.2
  some (spanner, current, out)

/-- The round of the outer loop. -/
def outerBody (fuel : Nat) (s : Spanner × Rect × ρ) : Option (Spanner × Rect × ρ) :=
  let inner : SpannerInner := { lhs := s.1.lhs, rhs := s.1.rhs }
  let (n, spanner) := s.1.next
  let inner := inner.prepare n.inside
  let current : Rect := { s.2.1 with top := n.head, bottom := n.tail }
  match doWhile (innerBody rasterizer opMask) (fun s => !s.1.isDone) fuel
      (inner, current, s.2.2) with
  | none => none
  | some (_, current, out) => some (spanner, current, out)

/-- `region_operator::operator()`. -/
def regionOperator (fuel : Nat) (lhs rhs : List Rect) (out : ρ) : Option ρ :=
  (doWhile (outerBody rasterizer opMask fuel) (fun s => !s.1.isDone) fuel
    (Spanner.create lhs rhs, EMPTY_RECT, out)).map (fun s => s.2.2)

end Operator

end MeizuM5c.Region
