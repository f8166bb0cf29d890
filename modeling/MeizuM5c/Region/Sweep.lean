import MeizuM5c.Lib.Scan
import MeizuM5c.Region.Operator

/-!
The two spanners are scans: the outer one of the bands of both operands, the
inner one of the spans within the current bands. With enough fuel the
operator therefore hands the rasterizer the selected pieces, in order.
-/

namespace MeizuM5c.Region

open Lib

/-- The spans of a band from left to right, and the bands of a region from
top to bottom. -/
abbrev XSpans := List (Span Int Unit)
abbrev Bands := List (Span Int XSpans)

def bandRects (top bottom : Int) (xs : XSpans) : List Rect :=
  xs.map fun x => ⟨x.lo, top, x.hi, bottom⟩

/-- The rectangles of a list of bands. -/
def rectsOf (B : Bands) : List Rect := B.flatMap fun b => bandRects b.lo b.hi b.item

@[simp] theorem bandRects_nil (top bottom : Int) : bandRects top bottom [] = [] := rfl

@[simp] theorem bandRects_cons (top bottom : Int) (x : Span Int Unit) (xs : XSpans) :
    bandRects top bottom (x :: xs) = ⟨x.lo, top, x.hi, bottom⟩ :: bandRects top bottom xs := rfl

@[simp] theorem rectsOf_nil : rectsOf [] = [] := rfl

@[simp] theorem rectsOf_cons (b : Span Int XSpans) (B : Bands) :
    rectsOf (b :: B) = bandRects b.lo b.hi b.item ++ rectsOf B := rfl

section Heads

variable {α β : Type}

def headLo (L : List (Span Int α)) : Int := (L.head?.map Span.lo).getD INT_MAX
def headHi (L : List (Span Int α)) : Int := (L.head?.map Span.hi).getD INT_MAX

/-- The largest integer is free to mean "used up". -/
def Below (L : List (Span Int α)) : Prop := ∀ s ∈ L, s.lo < INT_MAX ∧ s.hi ≤ INT_MAX

def insideOf : Option α × Option β → Inside
  | (some _, none) => .lhsBeforeRhs
  | (none, some _) => .lhsAfterRhs
  | _ => .lhsCoincideRhs

theorem take_below {lo hi : Int} {L L' : List (Span Int α)} {o : Option α}
    (h : Take lo hi L o L') (hL : Below L) : Below L' := by
  cases h with
  | keep _ => exact hL
  | pop _ _ => exact fun t ht => hL t (by simp [ht])
  | @clip s L _ hhi =>
      have hs := hL s (by simp)
      intro t ht
      rcases List.mem_cons.mp ht with rfl | ht
      · exact ⟨lt_of_lt_of_le hhi hs.2, hs.2⟩
      · exact hL t (by simp [ht])

/-- How `next` leaves one operand: its first span is done with and `advance`
is due, or the ends are already right. -/
def Moved (L L' : List (Span Int α)) (more : Bool) (head tail : Int) : Prop :=
  match more with
  | true => ∃ s, L = s :: L'
  | false => head = headLo L' ∧ tail = headHi L' ∧
      (L' = L ∨ ∃ (s s' : Span Int α) (rest : List (Span Int α)),
        L = s :: rest ∧ L' = s' :: rest ∧ s'.item = s.item)

structure NextSpec (L : List (Span Int α)) (R : List (Span Int β)) (st : ScanStep Int α β)
    (n : Next) : Prop where
  inside : n.inside = insideOf st.piece.item
  head : n.head = st.piece.lo
  tail : n.tail = st.piece.hi
  left : Moved L st.left n.moreLhs n.base.lhsHead n.base.lhsTail
  right : Moved R st.right n.moreRhs n.base.rhsHead n.base.rhsTail

section Cases

variable {a b c d : Int}

private theorem next_lhs_done (h : a < c) (h' : b ≤ c) :
    SpannerBase.next ⟨a, b, c, d⟩ = ⟨.lhsBeforeRhs, a, b, true, false, ⟨a, b, c, d⟩⟩ := by
  simp only [SpannerBase.next, h, h', if_true]

private theorem next_lhs_cut (h : a < c) (h' : c < b) :
    SpannerBase.next ⟨a, b, c, d⟩ = ⟨.lhsBeforeRhs, a, c, false, false, ⟨c, b, c, d⟩⟩ := by
  simp only [SpannerBase.next, h, h'.not_ge, if_true, if_false]

private theorem next_rhs_done (h : c < a) (h' : d ≤ a) :
    SpannerBase.next ⟨a, b, c, d⟩ = ⟨.lhsAfterRhs, c, d, false, true, ⟨a, b, c, d⟩⟩ := by
  simp only [SpannerBase.next, h, h.not_gt, h', if_true, if_false]

private theorem next_rhs_cut (h : c < a) (h' : a < d) :
    SpannerBase.next ⟨a, b, c, d⟩ = ⟨.lhsAfterRhs, c, a, false, false, ⟨a, b, a, d⟩⟩ := by
  simp only [SpannerBase.next, h, h.not_gt, h'.not_ge, if_true, if_false]

private theorem next_both_lhs (h : b < d) :
    SpannerBase.next ⟨a, b, a, d⟩ = ⟨.lhsCoincideRhs, a, b, true, false, ⟨a, b, b, d⟩⟩ := by
  simp only [SpannerBase.next, lt_irrefl, h.le, h.not_ge, if_true, if_false]

private theorem next_both_rhs (h : d < b) :
    SpannerBase.next ⟨a, b, a, d⟩ = ⟨.lhsCoincideRhs, a, d, false, true, ⟨d, b, a, d⟩⟩ := by
  simp only [SpannerBase.next, lt_irrefl, h.le, h.not_ge, if_true, if_false]

private theorem next_both :
    SpannerBase.next ⟨a, b, a, b⟩ = ⟨.lhsCoincideRhs, a, b, true, true, ⟨b, b, b, b⟩⟩ := by
  simp only [SpannerBase.next, lt_irrefl, le_refl, if_true, if_false]

end Cases

/-- `SpannerBase::next` is a step of the scan. -/
theorem next_spec {L : List (Span Int α)} {R : List (Span Int β)} {st : ScanStep Int α β}
    (hL : Below L) (hR : Below R) (h : scanStep L R = some st) :
    NextSpec L R st (SpannerBase.next ⟨headLo L, headHi L, headLo R, headHi R⟩) := by
  unfold scanStep at h
  split at h
  case h_1 => cases h
  case h_2 s L =>
    cases h
    obtain ⟨hlo, hhi⟩ := hL s (by simp)
    have hnext := next_lhs_done (d := INT_MAX) hlo hhi
    change NextSpec _ _ _ (SpannerBase.next ⟨s.lo, s.hi, INT_MAX, INT_MAX⟩)
    rw [hnext]
    exact ⟨rfl, rfl, rfl, ⟨s, rfl⟩, rfl, rfl, .inl rfl⟩
  case h_3 t R =>
    cases h
    obtain ⟨hlo, hhi⟩ := hR t (by simp)
    have hnext := next_rhs_done (b := INT_MAX) hlo hhi
    change NextSpec _ _ _ (SpannerBase.next ⟨INT_MAX, INT_MAX, t.lo, t.hi⟩)
    rw [hnext]
    exact ⟨rfl, rfl, rfl, ⟨rfl, rfl, .inl rfl⟩, t, rfl⟩
  case h_4 s L t R =>
    change NextSpec _ _ _ (SpannerBase.next ⟨s.lo, s.hi, t.lo, t.hi⟩)
    split at h
    case isTrue hlt =>
      split at h
      case isTrue hhi =>
        cases h
        rw [next_lhs_done hlt hhi]
        exact ⟨rfl, rfl, rfl, ⟨s, rfl⟩, rfl, rfl, .inl rfl⟩
      case isFalse hhi =>
        cases h
        rw [next_lhs_cut hlt (not_le.mp hhi)]
        exact ⟨rfl, rfl, rfl, ⟨rfl, rfl, .inr ⟨s, _, L, rfl, rfl, rfl⟩⟩, rfl, rfl, .inl rfl⟩
    case isFalse hge =>
      split at h
      case isTrue hlt =>
        split at h
        case isTrue hhi =>
          cases h
          rw [next_rhs_done hlt hhi]
          exact ⟨rfl, rfl, rfl, ⟨rfl, rfl, .inl rfl⟩, t, rfl⟩
        case isFalse hhi =>
          cases h
          rw [next_rhs_cut hlt (not_le.mp hhi)]
          exact ⟨rfl, rfl, rfl, ⟨rfl, rfl, .inl rfl⟩, rfl, rfl, .inr ⟨t, _, R, rfl, rfl, rfl⟩⟩
      case isFalse hle =>
        have hlo : t.lo = s.lo := le_antisymm (not_lt.mp hge) (not_lt.mp hle)
        rw [hlo]
        split at h
        case isTrue hhi =>
          cases h
          rw [next_both_lhs hhi]
          exact ⟨rfl, rfl, rfl, ⟨s, rfl⟩, rfl, rfl, .inr ⟨t, _, R, rfl, rfl, rfl⟩⟩
        case isFalse hhi =>
          split at h
          case isTrue hhi' =>
            cases h
            rw [next_both_rhs hhi']
            exact ⟨rfl, rfl, rfl, ⟨rfl, rfl, .inr ⟨s, _, L, rfl, rfl, rfl⟩⟩, t, rfl⟩
          case isFalse hhi' =>
            cases h
            rw [le_antisymm (not_lt.mp hhi) (not_lt.mp hhi'), next_both]
            exact ⟨rfl, rfl, rfl, ⟨s, rfl⟩, t, rfl⟩

end Heads

section Inner

/-- The spans of the rectangles that still belong to a band. -/
def bandSpans (top : Int) (rects : List Rect) : XSpans :=
  (rects.takeWhile (fun r => r.top = top)).map fun r => ⟨r.left, r.right, ()⟩

/-- An operand of the inner spanner shows a list of spans. -/
def InnerSide (head tail : Int) (rects : List Rect) : XSpans → Prop
  | [] => head = INT_MAX ∧ tail = INT_MAX
  | x :: xs => head = x.lo ∧ tail = x.hi ∧
      ∃ r rest, rects = r :: rest ∧ bandSpans r.top rest = xs

theorem InnerSide.heads {head tail : Int} {rects : List Rect} {L : XSpans}
    (h : InnerSide head tail rects L) : head = headLo L ∧ tail = headHi L := by
  cases L with
  | nil => exact h
  | cons x xs => exact ⟨h.1, h.2.1⟩

theorem InnerSide.advance {head tail : Int} {rects : List Rect} {x : Span Int Unit} {xs : XSpans}
    (h : InnerSide head tail rects (x :: xs)) (head' tail' : Int) :
    InnerSide (SpannerInner.advance head' tail' rects).head
      (SpannerInner.advance head' tail' rects).tail
      (SpannerInner.advance head' tail' rects).rects xs := by
  obtain ⟨-, -, r, rest, rfl, rfl⟩ := h
  cases rest with
  | nil => exact ⟨rfl, rfl⟩
  | cons q rest =>
      rw [SpannerInner.advance]
      by_cases hq : q.top = r.top
      · have hspans : bandSpans r.top (q :: rest) =
            ⟨q.left, q.right, ()⟩ :: bandSpans r.top rest := by
          simp only [bandSpans, List.takeWhile_cons, hq, decide_true, if_true, List.map_cons]
        rw [hspans, if_neg (by simpa using hq)]
        exact ⟨rfl, rfl, q, rest, rfl, by rw [hq]⟩
      · have hspans : bandSpans r.top (q :: rest) = [] := by
          simp only [bandSpans, List.takeWhile_cons, hq, decide_false, Bool.false_eq_true,
            if_false, List.map_nil]
        rw [hspans, if_pos hq]
        exact ⟨rfl, rfl⟩

/-- One operand of the inner spanner through `next`. -/
theorem InnerSide.moved {head tail head' tail' : Int} {rects : List Rect} {L L' : XSpans}
    {more : Bool} (h : InnerSide head tail rects L) (hmoved : Moved L L' more head' tail') :
    let side : Advanced :=
      if more then SpannerInner.advance head' tail' rects else ⟨rects, head', tail'⟩
    InnerSide side.head side.tail side.rects L' := by
  cases more with
  | true =>
      obtain ⟨x, rfl⟩ := hmoved
      exact h.advance head' tail'
  | false =>
      obtain ⟨rfl, rfl, rfl | ⟨x, x', rest, rfl, rfl, -⟩⟩ := hmoved
      · cases L' with
        | nil => exact ⟨rfl, rfl⟩
        | cons x xs => exact ⟨rfl, rfl, h.2.2⟩
      · exact ⟨rfl, rfl, h.2.2⟩

theorem innerSide_done {head tail : Int} {rects : List Rect} {L : XSpans}
    (h : InnerSide head tail rects L) (hL : Below L) : head = INT_MAX ↔ L = [] := by
  cases L with
  | nil => simp [h.1]
  | cons x xs =>
      have hlt := (hL x (by simp)).1
      rw [h.1]
      simp [hlt.ne]

variable {ρ : Type} (rasterizer : ρ → Rect → ρ) (opMask : Nat)

/-- What a piece of the inner scan does to the rasterizer. -/
def emit (top bottom : Int) (out : ρ) (p : Span Int (Option Unit × Option Unit)) : ρ :=
  if selects opMask (insideOf p.item) ∧ p.lo < p.hi ∧ top < bottom then
    rasterizer out ⟨p.lo, top, p.hi, bottom⟩
  else out

/-- The inner loop, in front of the pieces that are still to come. -/
structure InnerRel (top bottom : Int) (target : ρ) (s : SpannerInner × Rect × ρ)
    (ps : List (Span Int (Option Unit × Option Unit))) : Prop where
  sides : ∃ L R : XSpans, (Ordered L ∧ Below L ∧ Ordered R ∧ Below R) ∧
    InnerSide s.1.base.lhsHead s.1.base.lhsTail s.1.lhs L ∧
    InnerSide s.1.base.rhsHead s.1.base.rhsTail s.1.rhs R ∧ scan L R = ps
  band : s.2.1.top = top ∧ s.2.1.bottom = bottom
  result : ps.foldl (emit rasterizer opMask top bottom) s.2.2 = target

theorem innerBody_rel {top bottom : Int} {target : ρ} {s : SpannerInner × Rect × ρ}
    {p : Span Int (Option Unit × Option Unit)}
    {ps : List (Span Int (Option Unit × Option Unit))}
    (h : InnerRel rasterizer opMask top bottom target s (p :: ps)) :
    ∃ t, innerBody rasterizer opMask s = some t ∧
      InnerRel rasterizer opMask top bottom target t ps := by
  obtain ⟨⟨L, R, ⟨hL, hbL, hR, hbR⟩, hleft, hright, hscan⟩, ⟨htop, hbottom⟩, hresult⟩ := h
  obtain ⟨st, hst, rfl, hrest⟩ := scanStep_of_scan hscan
  have hspec := scanStep_spec hL hR hst
  have hbase : s.1.base = ⟨headLo L, headHi L, headLo R, headHi R⟩ := by
    obtain ⟨hl, hl'⟩ := hleft.heads
    obtain ⟨hr, hr'⟩ := hright.heads
    rw [← hl, ← hl', ← hr, ← hr']
  have hnext := next_spec hbL hbR hst
  rw [← hbase] at hnext
  refine ⟨_, rfl, ⟨st.left, st.right, ⟨hspec.left.ordered hL, take_below hspec.left hbL,
    hspec.right.ordered hR, take_below hspec.right hbR⟩, hleft.moved hnext.left,
    hright.moved hnext.right, hrest⟩, ⟨htop, hbottom⟩, ?_⟩
  rw [← hresult, List.foldl_cons]
  congr 1
  simp only [emit, hnext.inside, hnext.head, hnext.tail, htop, hbottom]

theorem innerRel_again {top bottom : Int} {target : ρ} {s : SpannerInner × Rect × ρ}
    {ps : List (Span Int (Option Unit × Option Unit))}
    (h : InnerRel rasterizer opMask top bottom target s ps) :
    (!s.1.isDone) = true ↔ ps ≠ [] := by
  obtain ⟨⟨L, R, ⟨-, hbL, -, hbR⟩, hleft, hright, rfl⟩, -, -⟩ := h
  have hdone : s.1.isDone = true ↔ L = [] ∧ R = [] := by
    rw [SpannerInner.isDone, Bool.and_eq_true, decide_eq_true_eq, decide_eq_true_eq,
      innerSide_done hleft hbL, innerSide_done hright hbR]
  rw [Bool.not_eq_true', ← Bool.not_eq_true, hdone, ne_eq, scan_eq_nil]

/-- The inner loop ends, having emitted every piece of the scan. -/
theorem innerLoop_emits {top bottom : Int} {L R : XSpans} {spanner : SpannerInner}
    {fuel : Nat} (current : Rect) (out : ρ) (hL : Ordered L) (hbL : Below L) (hR : Ordered R) (hbR : Below R)
    (hleft : InnerSide spanner.base.lhsHead spanner.base.lhsTail spanner.lhs L)
    (hright : InnerSide spanner.base.rhsHead spanner.base.rhsTail spanner.rhs R)
    (htop : current.top = top) (hbottom : current.bottom = bottom)
    (hne : scan L R ≠ []) (hfuel : (scan L R).length ≤ fuel) :
    ∃ t, doWhile (innerBody rasterizer opMask) (fun s => !s.1.isDone) fuel
        (spanner, current, out) = some t ∧
      t.2.2 = (scan L R).foldl (emit rasterizer opMask top bottom) out := by
  obtain ⟨p, ps, hps⟩ := List.exists_cons_of_ne_nil hne
  have hstart : InnerRel rasterizer opMask top bottom
      ((scan L R).foldl (emit rasterizer opMask top bottom) out)
      (spanner, current, out) (p :: ps) :=
    ⟨⟨L, R, ⟨hL, hbL, hR, hbR⟩, hleft, hright, hps⟩, ⟨htop, hbottom⟩, by rw [hps]⟩
  have hlength : ps.length < fuel := by
    rw [hps, List.length_cons] at hfuel
    omega
  obtain ⟨t, hrun, ht⟩ := doWhile_list
    (InnerRel rasterizer opMask top bottom ((scan L R).foldl (emit rasterizer opMask top bottom) out))
    (fun s p ps h => innerBody_rel rasterizer opMask h)
    (fun s ps h => innerRel_again rasterizer opMask h) hstart hlength
  exact ⟨t, hrun, ht.result⟩

end Inner

section Outer

/-- An operand of the outer spanner shows a list of bands. The first band may
have lost its upper part; its rectangles have not. -/
def OuterSide (head tail : Int) (rects : List Rect) : Bands → Prop
  | [] => head = INT_MAX ∧ tail = INT_MAX ∧ rects = []
  | b :: B => head = b.lo ∧ tail = b.hi ∧
      ∃ top bottom, rects = bandRects top bottom b.item ++ rectsOf B ∧
        (∀ c ∈ B, c.lo ≠ top) ∧ B.Pairwise (fun c d => c.lo < d.lo)

/-- A band that the inner spanner can walk through. -/
def Walkable (xs : XSpans) : Prop := xs ≠ [] ∧ Ordered xs ∧ Below xs

def EachWalkable (B : Bands) : Prop := Each (fun _ => True) Walkable B

theorem OuterSide.heads {head tail : Int} {rects : List Rect} {B : Bands}
    (h : OuterSide head tail rects B) : head = headLo B ∧ tail = headHi B := by
  cases B with
  | nil => exact ⟨h.1, h.2.1⟩
  | cons b B => exact ⟨h.1, h.2.1⟩

private theorem bandRects_top {top bottom : Int} {xs : XSpans} :
    ∀ r ∈ bandRects top bottom xs, r.top = top := by
  intro r hr
  obtain ⟨x, -, rfl⟩ := List.mem_map.mp hr
  rfl

/-- The next rectangle after a band has another top. -/
private theorem rectsOf_head {B : Bands} {top : Int} (hne : ∀ c ∈ B, c.lo ≠ top) :
    ∀ r ∈ (rectsOf B).head?, r.top ≠ top := by
  intro r hr
  obtain ⟨b, hb, hrb⟩ := List.mem_flatMap.mp (List.mem_of_mem_head? hr)
  rw [bandRects_top r hrb]
  exact hne b hb

private theorem dropWhile_append {α : Type} {p : α → Bool} {xs ys : List α}
    (hxs : ∀ x ∈ xs, p x = true) (hys : ∀ y ∈ ys.head?, p y = false) :
    (xs ++ ys).dropWhile p = ys ∧ (xs ++ ys).takeWhile p = xs := by
  have hnone : ys.dropWhile p = ys ∧ ys.takeWhile p = [] := by
    cases ys with
    | nil => exact ⟨rfl, rfl⟩
    | cons y ys =>
        have hy : ¬ p y = true := by simp [hys y rfl]
        exact ⟨List.dropWhile_cons_of_neg hy, List.takeWhile_cons_of_neg hy⟩
  constructor
  · rw [List.dropWhile_append_of_pos hxs, hnone.1]
  · rw [List.takeWhile_append_of_pos hxs, hnone.2, List.append_nil]

theorem OuterSide.advance {head tail : Int} {rects : List Rect} {b : Span Int XSpans} {B : Bands}
    (h : OuterSide head tail rects (b :: B)) (hw : EachWalkable (b :: B)) :
    OuterSide (Spanner.advance rects).head (Spanner.advance rects).tail
      (Spanner.advance rects).rects B := by
  obtain ⟨-, -, top, bottom, rfl, hne, hB⟩ := h
  obtain ⟨x, xs, hx⟩ := List.exists_cons_of_ne_nil (hw b (by simp)).2.2.1
  have hdrop : (bandRects top bottom xs ++ rectsOf B).dropWhile (fun q => q.top = top) =
      rectsOf B := by
    apply (dropWhile_append _ _).1
    · intro r hr
      simp [bandRects_top r hr]
    · intro r hr
      simp [rectsOf_head hne r hr]
  have hadvance : Spanner.advance (bandRects top bottom b.item ++ rectsOf B) =
      bandEnds (rectsOf B) := by
    rw [hx]
    change Spanner.advance (⟨x.lo, top, x.hi, bottom⟩ :: (bandRects top bottom xs ++ rectsOf B)) = _
    rw [Spanner.advance, hdrop]
  rw [hadvance]
  cases B with
  | nil => exact ⟨rfl, rfl, rfl⟩
  | cons c B =>
      obtain ⟨y, ys, hy⟩ := List.exists_cons_of_ne_nil (hw c (by simp)).2.2.1
      obtain ⟨hfirst, hrest⟩ := List.pairwise_cons.mp hB
      have hrects : rectsOf (c :: B) =
          ⟨y.lo, c.lo, y.hi, c.hi⟩ :: (bandRects c.lo c.hi ys ++ rectsOf B) := by
        rw [rectsOf_cons, hy, bandRects_cons, List.cons_append]
      rw [hrects]
      refine ⟨rfl, rfl, c.lo, c.hi, ?_, fun d hd => (hfirst d hd).ne', hrest⟩
      rw [hy]
      rfl

/-- One operand of the outer spanner through `next`. -/
theorem OuterSide.moved {head tail head' tail' : Int} {rects : List Rect} {B B' : Bands}
    {more : Bool} (h : OuterSide head tail rects B) (hw : EachWalkable B)
    (hmoved : Moved B B' more head' tail') :
    let side : Advanced := if more then Spanner.advance rects else ⟨rects, head', tail'⟩
    OuterSide side.head side.tail side.rects B' := by
  cases more with
  | true =>
      obtain ⟨b, rfl⟩ := hmoved
      exact h.advance hw
  | false =>
      obtain ⟨rfl, rfl, rfl | ⟨b, b', rest, rfl, rfl, hitem⟩⟩ := hmoved
      · cases B' with
        | nil => exact ⟨rfl, rfl, h.2.2⟩
        | cons b B => exact ⟨rfl, rfl, h.2.2⟩
      · refine ⟨rfl, rfl, ?_⟩
        rw [hitem]
        exact h.2.2

theorem outerSide_done {head tail : Int} {rects : List Rect} {B : Bands}
    (h : OuterSide head tail rects B) (hw : EachWalkable B) : rects.isEmpty = true ↔ B = [] := by
  cases B with
  | nil =>
      rw [h.2.2]
      simp
  | cons b B =>
      obtain ⟨-, -, top, bottom, rfl, -, -⟩ := h
      obtain ⟨x, xs, hx⟩ := List.exists_cons_of_ne_nil (hw b (by simp)).2.2.1
      simp [bandRects, hx]

/-- The inner spanner starts with the spans of the band that the outer one
shows. -/
theorem OuterSide.inner {head tail lo hi : Int} {rects : List Rect} {B B' : Bands} {xs : XSpans}
    (h : OuterSide head tail rects B) (hw : EachWalkable B) (htake : Take lo hi B (some xs) B') :
    ∃ r, rects.head? = some r ∧ InnerSide r.left r.right rects xs := by
  obtain ⟨b, rest, rfl, rfl⟩ : ∃ b rest, B = b :: rest ∧ b.item = xs := by
    cases htake with
    | @pop b _ _ _ => exact ⟨b, B', rfl, rfl⟩
    | @clip b rest _ _ => exact ⟨b, rest, rfl, rfl⟩
  obtain ⟨-, -, top, bottom, rfl, hne, -⟩ := h
  obtain ⟨x, xs, hx⟩ := List.exists_cons_of_ne_nil (hw b (by simp)).2.2.1
  have htaken : (bandRects top bottom xs ++ rectsOf rest).takeWhile (fun q => q.top = top) =
      bandRects top bottom xs := by
    apply (dropWhile_append _ _).2
    · intro r hr
      simp [bandRects_top r hr]
    · intro r hr
      simp [rectsOf_head hne r hr]
  rw [hx]
  refine ⟨⟨x.lo, top, x.hi, bottom⟩, rfl, rfl, rfl, _, _, rfl, ?_⟩
  rw [bandSpans]
  change List.map _ ((bandRects top bottom xs ++ rectsOf rest).takeWhile _) = xs
  rw [htaken, bandRects, List.map_map]
  exact List.map_id _

variable {ρ : Type} (rasterizer : ρ → Rect → ρ) (opMask : Nat)

/-- The inner scan within a piece of the outer one. -/
def innerPieces (p : Span Int (Option XSpans × Option XSpans)) :
    List (Span Int (Option Unit × Option Unit)) :=
  scan (p.item.1.getD []) (p.item.2.getD [])

def emitBand (out : ρ) (p : Span Int (Option XSpans × Option XSpans)) : ρ :=
  (innerPieces p).foldl (emit rasterizer opMask p.lo p.hi) out

/-- The outer loop, in front of the pieces that are still to come. -/
structure OuterRel (fuel : Nat) (target : ρ) (s : Spanner × Rect × ρ)
    (ps : List (Span Int (Option XSpans × Option XSpans))) : Prop where
  sides : ∃ L R : Bands, (Ordered L ∧ Below L ∧ EachWalkable L) ∧
    (Ordered R ∧ Below R ∧ EachWalkable R) ∧
    OuterSide s.1.base.lhsHead s.1.base.lhsTail s.1.lhs L ∧
    OuterSide s.1.base.rhsHead s.1.base.rhsTail s.1.rhs R ∧ scan L R = ps
  fuel : ∀ p ∈ ps, (innerPieces p).length ≤ fuel
  result : ps.foldl (emitBand rasterizer opMask) s.2.2 = target

/-- An operand without a band shows no spans. -/
theorem getD_nil_of {P : XSpans → Prop} (hnil : P []) {o : Option XSpans}
    (h : ∀ xs, o = some xs → P xs) : P (o.getD []) := by
  cases o with
  | none => exact hnil
  | some xs => exact h xs rfl

private theorem walkable_getD {o : Option XSpans} (h : ∀ xs, o = some xs → Walkable xs) :
    Ordered (o.getD []) ∧ Below (o.getD []) := by
  apply getD_nil_of (P := fun xs => Ordered xs ∧ Below xs)
  · exact ⟨⟨by simp, List.Pairwise.nil⟩, by simp [Below]⟩
  · exact fun xs hxs => (h xs hxs).2

/-- `prepare` shows the bands of the piece, and nothing for an operand that
the piece does not touch. -/
theorem prepare_sides {s : Spanner} {L R : Bands} {st : ScanStep Int XSpans XSpans}
    (hwL : EachWalkable L) (hwR : EachWalkable R) (hspec : StepSpec L R st)
    (hleft : OuterSide s.base.lhsHead s.base.lhsTail s.lhs L)
    (hright : OuterSide s.base.rhsHead s.base.rhsTail s.rhs R) :
    let inner := SpannerInner.prepare { lhs := s.lhs, rhs := s.rhs } (insideOf st.piece.item)
    InnerSide inner.base.lhsHead inner.base.lhsTail inner.lhs (st.piece.item.1.getD []) ∧
      InnerSide inner.base.rhsHead inner.base.rhsTail inner.rhs (st.piece.item.2.getD []) := by
  have htakeL := hspec.left
  have htakeR := hspec.right
  have hcovered := hspec.covered
  rcases hitem : st.piece.item with ⟨_ | xs, _ | ys⟩
  · exact absurd hitem hcovered
  · rw [hitem] at htakeR
    obtain ⟨r, hr, hside⟩ := hright.inner hwR htakeR
    simp only [insideOf, SpannerInner.prepare, hr]
    exact ⟨⟨rfl, rfl⟩, hside⟩
  · rw [hitem] at htakeL
    obtain ⟨l, hl, hside⟩ := hleft.inner hwL htakeL
    simp only [insideOf, SpannerInner.prepare, hl]
    exact ⟨hside, rfl, rfl⟩
  · rw [hitem] at htakeL htakeR
    obtain ⟨l, hl, hsideL⟩ := hleft.inner hwL htakeL
    obtain ⟨r, hr, hsideR⟩ := hright.inner hwR htakeR
    simp only [insideOf, SpannerInner.prepare, hl, hr]
    exact ⟨hsideL, hsideR⟩

theorem outerBody_rel {fuel : Nat} {target : ρ} {s : Spanner × Rect × ρ}
    {p : Span Int (Option XSpans × Option XSpans)}
    {ps : List (Span Int (Option XSpans × Option XSpans))}
    (h : OuterRel rasterizer opMask fuel target s (p :: ps)) :
    ∃ t, outerBody rasterizer opMask fuel s = some t ∧
      OuterRel rasterizer opMask fuel target t ps := by
  obtain ⟨⟨L, R, ⟨hL, hbL, hwL⟩, ⟨hR, hbR, hwR⟩, hleft, hright, hscan⟩, hfuel, hresult⟩ := h
  obtain ⟨st, hst, rfl, hrest⟩ := scanStep_of_scan hscan
  have hspec := scanStep_spec hL hR hst
  obtain ⟨hwL', hitemL⟩ := hspec.left.each trivial hwL
  obtain ⟨hwR', hitemR⟩ := hspec.right.each trivial hwR
  have hbase : s.1.base = ⟨headLo L, headHi L, headLo R, headHi R⟩ := by
    obtain ⟨hl, hl'⟩ := hleft.heads
    obtain ⟨hr, hr'⟩ := hright.heads
    rw [← hl, ← hl', ← hr, ← hr']
  have hnext := next_spec hbL hbR hst
  rw [← hbase] at hnext
  -- The inner loop runs over the spans of the bands in this piece.
  have hsides := prepare_sides hwL hwR hspec hleft hright
  have hne : innerPieces st.piece ≠ [] := by
    intro hnil
    obtain ⟨hl, hr⟩ := scan_eq_nil.mp hnil
    apply hspec.covered
    apply Prod.ext
    · cases hi : st.piece.item.1 with
      | none => rfl
      | some xs => exact absurd (by rw [hi] at hl; exact hl) (hitemL xs hi).1
    · cases hi : st.piece.item.2 with
      | none => rfl
      | some ys => exact absurd (by rw [hi] at hr; exact hr) (hitemR ys hi).1
  obtain ⟨hoL, hbL'⟩ := walkable_getD hitemL
  obtain ⟨hoR, hbR'⟩ := walkable_getD hitemR
  obtain ⟨t, hrun, hout⟩ := innerLoop_emits rasterizer opMask
    { s.2.1 with top := st.piece.lo, bottom := st.piece.hi } s.2.2
    hoL hbL' hoR hbR' hsides.1 hsides.2 rfl rfl hne (hfuel _ (by simp))
  refine ⟨(s.1.next.2, t.2.1, t.2.2), ?_, ⟨st.left, st.right,
    ⟨hspec.left.ordered hL, take_below hspec.left hbL, hwL'⟩,
    ⟨hspec.right.ordered hR, take_below hspec.right hbR, hwR'⟩,
    hleft.moved hwL hnext.left, hright.moved hwR hnext.right, hrest⟩, ?_, ?_⟩
  · simp only [outerBody, Spanner.next, hnext.inside, hnext.head, hnext.tail, hrun]
  · intro q hq
    exact hfuel q (by simp [hq])
  · rw [← hresult, List.foldl_cons, hout]
    rfl

theorem outerRel_again {fuel : Nat} {target : ρ} {s : Spanner × Rect × ρ}
    {ps : List (Span Int (Option XSpans × Option XSpans))}
    (h : OuterRel rasterizer opMask fuel target s ps) : (!s.1.isDone) = true ↔ ps ≠ [] := by
  obtain ⟨⟨L, R, ⟨-, -, hwL⟩, ⟨-, -, hwR⟩, hleft, hright, rfl⟩, -, -⟩ := h
  have hdone : s.1.isDone = true ↔ L = [] ∧ R = [] := by
    rw [Spanner.isDone, Bool.and_eq_true, outerSide_done hleft hwL, outerSide_done hright hwR,
      and_comm]
  rw [Bool.not_eq_true', ← Bool.not_eq_true, hdone, ne_eq, scan_eq_nil]

/-- A list of bands that the operator can walk through. -/
structure Sweepable (B : Bands) : Prop where
  ordered : Ordered B
  below : Below B
  walkable : EachWalkable B
  tops : B.Pairwise (fun b c => b.lo < c.lo)

theorem Sweepable.outerSide {B : Bands} (h : Sweepable B) :
    OuterSide (bandEnds (rectsOf B)).head (bandEnds (rectsOf B)).tail (rectsOf B) B := by
  cases B with
  | nil => exact ⟨rfl, rfl, rfl⟩
  | cons b B =>
      obtain ⟨x, xs, hx⟩ := List.exists_cons_of_ne_nil (h.walkable b (by simp)).2.2.1
      obtain ⟨hfirst, hrest⟩ := List.pairwise_cons.mp h.tops
      have hrects : rectsOf (b :: B) =
          ⟨x.lo, b.lo, x.hi, b.hi⟩ :: (bandRects b.lo b.hi xs ++ rectsOf B) := by
        rw [rectsOf_cons, hx, bandRects_cons, List.cons_append]
      refine ⟨by rw [hrects]; rfl, by rw [hrects]; rfl, b.lo, b.hi, rfl, ?_, hrest⟩
      exact fun c hc => (hfirst c hc).ne'

/-- The operator ends, and the rasterizer has seen every piece. -/
theorem regionOperator_emits {L R : Bands} (hL : Sweepable L) (hR : Sweepable R) (hne : L ≠ [])
    (out : ρ) :
    ∃ N, ∀ fuel ≥ N, regionOperator rasterizer opMask fuel (rectsOf L) (rectsOf R) out =
      some ((scan L R).foldl (emitBand rasterizer opMask) out) := by
  obtain ⟨p, ps, hps⟩ : ∃ p ps, scan L R = p :: ps :=
    List.exists_cons_of_ne_nil (fun hnil => hne (scan_eq_nil.mp hnil).1)
  refine ⟨(p :: ps).length + ((p :: ps).map fun q => (innerPieces q).length).sum, ?_⟩
  intro fuel hfuel
  have hinner : ∀ q ∈ p :: ps, (innerPieces q).length ≤ fuel := by
    intro q hq
    have hle := List.single_le_sum (fun _ _ => Nat.zero_le _) _
      (List.mem_map_of_mem (f := fun q => (innerPieces q).length) hq)
    omega
  have hstart : OuterRel rasterizer opMask fuel
      ((scan L R).foldl (emitBand rasterizer opMask) out)
      (Spanner.create (rectsOf L) (rectsOf R), EMPTY_RECT, out) (p :: ps) :=
    ⟨⟨L, R, ⟨hL.ordered, hL.below, hL.walkable⟩, ⟨hR.ordered, hR.below, hR.walkable⟩,
      hL.outerSide, hR.outerSide, hps⟩, hinner, by rw [hps]⟩
  have hlength : ps.length < fuel := by
    simp only [List.length_cons] at hfuel
    omega
  obtain ⟨t, hrun, ht⟩ := doWhile_list
    (OuterRel rasterizer opMask fuel ((scan L R).foldl (emitBand rasterizer opMask) out))
    (fun s p ps h => outerBody_rel rasterizer opMask h)
    (fun s ps h => outerRel_again rasterizer opMask h) hstart hlength
  rw [regionOperator, hrun]
  exact congrArg some ht.result

end Outer

end MeizuM5c.Region
