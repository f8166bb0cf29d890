import MeizuM5c.Region.Sweep

/-!
What the operator emits, as bands: a piece of the outer scan with the selected
pieces of its inner scan. The emitted bands cover the pixels that the
operation selects.
-/

namespace MeizuM5c.Region

open Lib

section Bands

variable (opMask : Nat)

def selectSpans (ps : List (Span Int (Option Unit × Option Unit))) : XSpans :=
  ps.filterMap fun p =>
    if selects opMask (insideOf p.item) ∧ p.lo < p.hi then some ⟨p.lo, p.hi, ()⟩ else none

theorem selectSpans_cons (p : Span Int (Option Unit × Option Unit))
    (ps : List (Span Int (Option Unit × Option Unit))) :
    selectSpans opMask (p :: ps) =
      if selects opMask (insideOf p.item) ∧ p.lo < p.hi then
        ⟨p.lo, p.hi, ()⟩ :: selectSpans opMask ps
      else selectSpans opMask ps := by
  rw [selectSpans, List.filterMap_cons]
  split <;> simp_all [selectSpans]

def emittedBand (p : Span Int (Option XSpans × Option XSpans)) : Span Int XSpans :=
  ⟨p.lo, p.hi, if p.lo < p.hi then selectSpans opMask (innerPieces p) else []⟩

def emittedBands (L R : Bands) : Bands := (scan L R).map (emittedBand opMask)

variable {ρ : Type} (rasterizer : ρ → Rect → ρ)

private theorem foldl_emit (top bottom : Int) (ps : List (Span Int (Option Unit × Option Unit)))
    (out : ρ) :
    ps.foldl (emit rasterizer opMask top bottom) out =
      (bandRects top bottom (if top < bottom then selectSpans opMask ps else [])).foldl
        rasterizer out := by
  induction ps generalizing out with
  | nil => simp [selectSpans, bandRects]
  | cons p ps ih =>
      rw [List.foldl_cons, ih]
      by_cases hband : top < bottom
      · rw [if_pos hband, if_pos hband]
        by_cases hp : selects opMask (insideOf p.item) ∧ p.lo < p.hi
        · rw [emit, if_pos ⟨hp.1, hp.2, hband⟩, selectSpans_cons, if_pos hp, bandRects_cons,
            List.foldl_cons]
        · rw [emit, if_neg (fun h => hp ⟨h.1, h.2.1⟩), selectSpans_cons, if_neg hp]
      · rw [if_neg hband, if_neg hband, emit, if_neg (fun h => hband h.2.2)]

/-- The rasterizer sees the rectangles of the emitted bands. -/
theorem foldl_emitBand (ps : List (Span Int (Option XSpans × Option XSpans))) (out : ρ) :
    ps.foldl (emitBand rasterizer opMask) out =
      (rectsOf (ps.map (emittedBand opMask))).foldl rasterizer out := by
  induction ps generalizing out with
  | nil => rfl
  | cons p ps ih =>
      rw [List.foldl_cons, ih, emitBand, foldl_emit, List.map_cons, rectsOf_cons,
        List.foldl_append]
      rfl

end Bands

section Coverage

/-- The pixel belongs to one of the bands. -/
def Covers (B : Bands) (x y : Int) : Prop := ∃ xs, lookup B y = some xs ∧ lookup xs x = some ()

/-- What the bands say about a pixel. -/
def pixelAt (B : Bands) (x y : Int) : Option Unit := lookup ((lookup B y).getD []) x

theorem covers_iff_pixelAt {B : Bands} {x y : Int} : Covers B x y ↔ pixelAt B x y = some () := by
  unfold Covers pixelAt
  cases lookup B y with
  | none => simp [lookup]
  | some xs => simp

variable {opMask : Nat}

theorem selectSpans_ordered {ps : List (Span Int (Option Unit × Option Unit))} (h : Ordered ps) :
    Ordered (selectSpans opMask ps) := by
  constructor
  · intro s hs
    obtain ⟨p, hp, hsome⟩ := List.mem_filterMap.mp hs
    split at hsome
    · cases hsome
      exact h.1 p hp
    · cases hsome
  · rw [selectSpans, List.pairwise_filterMap]
    apply h.2.imp
    intro p q hpq s hs t ht
    split at hs <;> cases hs
    split at ht <;> cases ht
    exact hpq

theorem selectSpans_nonempty {ps : List (Span Int (Option Unit × Option Unit))} :
    ∀ s ∈ selectSpans opMask ps, s.lo < s.hi := by
  intro s hs
  obtain ⟨p, hp, hsome⟩ := List.mem_filterMap.mp hs
  split at hsome
  case isTrue hsel =>
    cases hsome
    exact hsel.2
  case isFalse => cases hsome

theorem lookup_selectSpans {ps : List (Span Int (Option Unit × Option Unit))} (h : Ordered ps)
    (x : Int) :
    lookup (selectSpans opMask ps) x = some () ↔
      ∃ o, lookup ps x = some o ∧ selects opMask (insideOf o) = true := by
  rw [lookup_eq_some_iff (selectSpans_ordered h)]
  constructor
  · rintro ⟨s, hs, hx, -⟩
    obtain ⟨p, hp, hsome⟩ := List.mem_filterMap.mp hs
    split at hsome
    case isTrue hsel =>
      cases hsome
      exact ⟨p.item, (lookup_eq_some_iff h).mpr ⟨p, hp, hx, rfl⟩, hsel.1⟩
    case isFalse => cases hsome
  · rintro ⟨o, ho, hsel⟩
    obtain ⟨p, hp, hx, rfl⟩ := (lookup_eq_some_iff h).mp ho
    refine ⟨⟨p.lo, p.hi, ()⟩, List.mem_filterMap.mpr ⟨p, hp, ?_⟩, hx, rfl⟩
    exact if_pos ⟨hsel, lt_of_le_of_lt hx.1 hx.2⟩

/-- The emitted bands cover a pixel exactly when the operation selects what
the operands say about it. -/
theorem covers_emittedBands {L R : Bands} (hL : Sweepable L) (hR : Sweepable R) (x y : Int) :
    Covers (emittedBands opMask L R) x y ↔
      ∃ o, pair (pixelAt L x y) (pixelAt R x y) = some o ∧
        selects opMask (insideOf o) = true := by
  have hrow : lookup (emittedBands opMask L R) y =
      (lookup (scan L R) y).map (fun item =>
        selectSpans opMask (scan (item.1.getD []) (item.2.getD []))) := by
    apply lookup_map
    · exact fun _ => rfl
    · exact fun _ => rfl
    · intro p hp
      exact if_pos (lt_of_le_of_lt hp.1 hp.2)
  have hwalk : ∀ {B : Bands}, Sweepable B → Ordered ((lookup B y).getD []) := by
    intro B hB
    cases hy : lookup B y with
    | none => exact ⟨by simp, List.Pairwise.nil⟩
    | some xs =>
        obtain ⟨b, hb, -, rfl⟩ := (lookup_eq_some_iff hB.ordered).mp hy
        exact (hB.walkable b hb).2.2.2.1
  have hinner := lookup_scan (hwalk hL) (hwalk hR) x
  rw [Covers, hrow, lookup_scan hL.ordered hR.ordered, pixelAt, pixelAt, ← hinner]
  cases hpair : pair (lookup L y) (lookup R y) with
  | none =>
      obtain ⟨hl, hr⟩ := pair_eq_none.mp hpair
      have hnil : scan ([] : XSpans) ([] : XSpans) = [] := scan_nil rfl
      simp [hl, hr, hnil, lookup]
  | some item =>
      obtain rfl := eq_of_pair_eq_some hpair
      rw [← lookup_selectSpans (ordered_scan (hwalk hL) (hwalk hR)).1]
      simp

theorem selects_opOr (inside : Inside) : selects opOr inside = true := by
  cases inside <;> decide

theorem selects_opNand (inside : Inside) :
    selects opNand inside = true ↔ inside = .lhsBeforeRhs := by
  cases inside <;> decide

/-- The two operations of the shim. -/
theorem covers_or {L R : Bands} (hL : Sweepable L) (hR : Sweepable R) (x y : Int) :
    Covers (emittedBands opOr L R) x y ↔ Covers L x y ∨ Covers R x y := by
  rw [covers_emittedBands hL hR, covers_iff_pixelAt, covers_iff_pixelAt]
  rcases pixelAt L x y with _ | ⟨⟩ <;> rcases pixelAt R x y with _ | ⟨⟩ <;>
    simp [pair, selects_opOr]

theorem covers_nand {L R : Bands} (hL : Sweepable L) (hR : Sweepable R) (x y : Int) :
    Covers (emittedBands opNand L R) x y ↔ Covers L x y ∧ ¬ Covers R x y := by
  rw [covers_emittedBands hL hR, covers_iff_pixelAt, covers_iff_pixelAt]
  rcases pixelAt L x y with _ | ⟨⟩ <;> rcases pixelAt R x y with _ | ⟨⟩ <;>
    simp [pair, insideOf, selects_opNand]

end Coverage

end MeizuM5c.Region
