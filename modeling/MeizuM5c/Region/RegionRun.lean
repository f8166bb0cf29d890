import MeizuM5c.Region.NormalForm

/-!
Whole sequences of calls on a region. `orSelf` asks the bounding box whether
the region is empty, and the answer is wrong when a side of the box does not
fit a 32-bit difference. Up to there every call returns and leaves the normal
form of its set; at that point the region is lost.
-/

namespace MeizuM5c.Region

open Lib

/-- What a storage stands for: one rectangle without pixels, or normal bands. -/
inductive RegionInv (s : Storage) (S : Pixels) : Prop
  | empty (r : Rect) : s = [r] → S = ∅ → r.Valid → (r.left = r.right ∨ r.top = r.bottom) →
      RegionInv s S
  | bands (D : Bands) : NormalBands D → D ≠ [] → Stores s D →
      S = { p | Covers D p.1 p.2 } → RegionInv s S

section Rectangles

def rectBands (r : Rect) : Bands := [⟨r.top, r.bottom, [⟨r.left, r.right, ()⟩]⟩]

variable {r : Rect}

theorem covers_rectBands (x y : Int) : Covers (rectBands r) x y ↔ r.Has x y := by
  constructor
  · rintro ⟨xs, hxs, hx⟩
    obtain ⟨hy, rfl⟩ := lookup_singleton.mp hxs
    exact ⟨(lookup_singleton.mp hx).1, hy⟩
  · rintro ⟨hx, hy⟩
    exact ⟨_, lookup_singleton.mpr ⟨hy, rfl⟩, lookup_singleton.mpr ⟨hx, rfl⟩⟩

theorem rectBands_sweepable (h : r.Valid) : Sweepable (rectBands r) := by
  have hrow : Walkable [(⟨r.left, r.right, ()⟩ : Span Int Unit)] := by
    refine ⟨by simp, ⟨by simpa using h.width.1, List.pairwise_singleton _ _⟩, ?_⟩
    intro x hx
    rw [List.mem_singleton.mp hx]
    exact ⟨h.corner.1, h.right.2⟩
  refine ⟨⟨by simpa [rectBands] using h.height.1, List.pairwise_singleton _ _⟩, ?_, ?_,
    List.pairwise_singleton _ _⟩
  · intro b hb
    rw [List.mem_singleton.mp hb]
    exact ⟨h.corner.2, h.bottom.2⟩
  · intro b hb
    rw [List.mem_singleton.mp hb]
    exact ⟨trivial, trivial, hrow⟩

theorem rectBands_ranged (h : r.Valid) : Ranged (rectBands r) := by
  intro b hb
  rw [List.mem_singleton.mp hb]
  refine ⟨h.top, h.bottom, ?_⟩
  intro x hx
  rw [List.mem_singleton.mp hx]
  exact ⟨h.left, h.right, trivial⟩

theorem rectBands_normal (h : r.Valid) (hwidth : r.left < r.right) (hheight : r.top < r.bottom) :
    NormalBands (rectBands r) := by
  refine ⟨⟨by simpa [rectBands] using hheight, List.pairwise_singleton _ _,
    List.isChain_singleton _⟩, ?_, rectBands_ranged h⟩
  intro b hb
  rw [List.mem_singleton.mp hb]
  exact ⟨by simp, by simpa using hwidth, List.pairwise_singleton _ _, List.isChain_singleton _⟩

/-- A rectangle without width or without height has no pixel. -/
theorem not_has_of_degenerate (h : r.left = r.right ∨ r.top = r.bottom) (x y : Int) :
    ¬ r.Has x y := by
  rintro ⟨⟨hxl, hxr⟩, hyt, hyb⟩
  rcases h with heq | heq
  · omega
  · omega

/-- A region set to one rectangle. -/
theorem inv_rect (h : r.Valid) : RegionInv [r] r.pixels := by
  by_cases hempty : r.left = r.right ∨ r.top = r.bottom
  · refine .empty r rfl ?_ h hempty
    apply Set.eq_empty_of_forall_notMem
    rintro ⟨x, y⟩
    exact not_has_of_degenerate hempty x y
  · obtain ⟨hw, hh⟩ := not_or.mp hempty
    have hnormal := rectBands_normal h (lt_of_le_of_ne h.width.1 hw) (lt_of_le_of_ne h.height.1 hh)
    refine .bands (rectBands r) hnormal (by simp [rectBands]) ?_ ?_
    · exact ⟨r, boundingBox_singleton.mpr rfl, rfl⟩
    · ext ⟨x, y⟩
      exact (covers_rectBands x y).symm

end Rectangles

section Law

variable {s : Storage} {S : Pixels}

theorem getArray_singleton (r : Rect) : getArray [r] = [r] := rfl

theorem RegionInv.law (h : RegionInv s S) : RegionLaw s S := by
  cases h with
  | empty r hs hS hvalid hempty =>
      subst hs hS
      constructor
      · intro x y
        simp [getArray_singleton, not_has_of_degenerate hempty]
      · exact List.pairwise_singleton _ _
      · exact List.pairwise_singleton _ _
      · intro q hq q' hq' _
        rw [List.mem_singleton.mp hq, List.mem_singleton.mp hq']
      · exact List.pairwise_singleton _ _
      · exact List.pairwise_singleton _ _
      · exact .inr ⟨rfl, r, rfl, hempty⟩
      · exact ⟨r, rfl, boundingBox_singleton.mpr rfl⟩
  | bands D hnormal hD hstores hS =>
      rw [hS]
      exact hnormal.law hD hstores

theorem NormalBands.sweepable {D : Bands} (h : NormalBands D) : Sweepable D := by
  have hbelow : ∀ {α : Type} {L : List (Span Int α)}, (∀ s ∈ L, s.lo < s.hi) →
      (∀ s ∈ L, InRange s.hi) → Below L :=
    fun hlt hrange s hs => ⟨lt_of_lt_of_le (hlt s hs) (hrange s hs).2, (hrange s hs).2⟩
  refine ⟨h.coalesced.toOrdered,
    hbelow h.coalesced.nonempty (fun b hb => (h.ranged b hb).2.1), ?_, h.tops_lt⟩
  intro b hb
  obtain ⟨hne, hitem⟩ := h.items b hb
  exact ⟨trivial, trivial, hne, hitem.toOrdered,
    hbelow hitem.nonempty (fun x hx => ((h.ranged b hb).2.2 x hx).2.1)⟩

/-- The operator sees every region as a list of bands. -/
theorem RegionInv.asBands (h : RegionInv s S) :
    ∃ L, Sweepable L ∧ Ranged L ∧ L ≠ [] ∧ getArray s = rectsOf L ∧
      ∀ x y, (x, y) ∈ S ↔ Covers L x y := by
  cases h with
  | empty r hs hS hvalid hempty =>
      subst hs hS
      refine ⟨rectBands r, rectBands_sweepable hvalid, rectBands_ranged hvalid,
        by simp [rectBands], rfl, ?_⟩
      intro x y
      rw [covers_rectBands]
      constructor
      · intro hmem
        cases hmem
      · intro hhas
        exact absurd hhas (not_has_of_degenerate hempty x y)
  | bands D hnormal hD hstores hS =>
      subst hS
      exact ⟨D, hnormal.sweepable, hnormal.ranged, hD,
        hstores.getArray (rectsOf_ne_nil hnormal hD), fun x y => Iff.rfl⟩

end Law

section Operations

variable {s : Storage} {S : Pixels} {r : Rect}

private theorem getWidth_valid (h : r.Valid) : r.getWidth = r.right - r.left := by
  obtain ⟨hle, hmax⟩ := h.width
  unfold INT_MAX at hmax
  apply wrapInt_32_of_range <;> omega

private theorem getHeight_valid (h : r.Valid) : r.getHeight = r.bottom - r.top := by
  obtain ⟨hle, hmax⟩ := h.height
  unfold INT_MAX at hmax
  apply wrapInt_32_of_range <;> omega

theorem sizeRect_valid {w h : Int} (hw : 0 ≤ w ∧ w ≤ INT_MAX) (hh : 0 ≤ h ∧ h ≤ INT_MAX) :
    (⟨0, 0, w, h⟩ : Rect).Valid := by
  unfold INT_MAX at hw hh
  constructor <;> simp only [InRange, INT_MIN, INT_MAX] <;> omega

theorem isValid_of_valid (h : r.Valid) : r.isValid = true := by
  have hwidth := h.width.1
  have hheight := h.height.1
  rw [Rect.isValid, getWidth_valid h, getHeight_valid h, Bool.and_eq_true, decide_eq_true_eq,
    decide_eq_true_eq]
  omega

theorem isEmpty_of_degenerate (h : r.Valid) (hempty : r.left = r.right ∨ r.top = r.bottom) :
    r.isEmpty = true := by
  rw [Rect.isEmpty, getWidth_valid h, getHeight_valid h, Bool.or_eq_true, decide_eq_true_eq,
    decide_eq_true_eq]
  rcases hempty with heq | heq
  · left
    omega
  · right
    omega

/-- A boolean operation returns, and leaves the normal form of what the
emitted bands cover. -/
theorem booleanOperation_inv (h : RegionInv s S) (hr : r.Valid) {op : Nat} {S' : Pixels}
    (hS' : ∀ L, Sweepable L → (∀ x y, (x, y) ∈ S ↔ Covers L x y) →
      ∀ x y, (x, y) ∈ S' ↔ Covers (emittedBands op L (rectBands r)) x y) :
    ∃ t N, (∀ fuel ≥ N, booleanOperation fuel op s r = some t) ∧ RegionInv t S' := by
  obtain ⟨L, hL, hrL, hne, harray, hcovers⟩ := h.asBands
  have hR := rectBands_sweepable hr
  obtain ⟨N, hN⟩ := regionOperator_emits Rasterizer.add op hL hR hne {}
  have hemits := emittedBands_emits op hL hR hrL (rectBands_ranged hr)
  have hordered := emittedBands_ordered op hL hR
  obtain ⟨hnil, hcons⟩ := finish_stores hemits hordered
  refine ⟨((rectsOf (emittedBands op L (rectBands r))).foldl Rasterizer.add {}).finish, N, ?_, ?_⟩
  · intro fuel hfuel
    rw [booleanOperation, isValid_of_valid hr, harray]
    change Option.map _ (regionOperator Rasterizer.add op fuel (rectsOf L)
      (rectsOf (rectBands r)) {}) = _
    rw [hN fuel hfuel, foldl_emitBand]
    rfl
  · have hset : ∀ x y, (x, y) ∈ S' ↔
        Covers (normalise (emittedBands op L (rectBands r))) x y := by
      intro x y
      rw [covers_normalise hemits hordered]
      exact hS' L hL hcovers x y
    by_cases hempty : normalise (emittedBands op L (rectBands r)) = []
    · have hvalid : EMPTY_RECT.Valid := sizeRect_valid (by decide) (by decide)
      refine .empty EMPTY_RECT (hnil hempty) ?_ hvalid (.inl rfl)
      apply Set.eq_empty_of_forall_notMem
      rintro ⟨x, y⟩ hmem
      obtain ⟨xs, hxs, -⟩ := (hset x y).mp hmem
      rw [hempty] at hxs
      cases hxs
    · refine .bands _ (normalise_normal hemits hordered) hempty (hcons hempty) ?_
      ext ⟨x, y⟩
      exact hset x y

theorem subtractSelf_inv (h : RegionInv s S) (hr : r.Valid) :
    ∃ t N, (∀ fuel ≥ N, subtractSelf fuel r s = some t) ∧ RegionInv t (S \ r.pixels) := by
  apply booleanOperation_inv h hr
  intro L hL hcovers x y
  rw [covers_nand hL (rectBands_sweepable hr), covers_rectBands, ← hcovers]
  rfl

/-- No two pixels of the set are further apart than a 32-bit difference can
say. -/
def Narrow (S : Pixels) : Prop :=
  ∀ p ∈ S, ∀ q ∈ S, q.1 + 1 - p.1 ≤ INT_MAX ∧ q.2 + 1 - p.2 ≤ INT_MAX

theorem Narrow.mono {S' : Pixels} (h : Narrow S) (hsub : S' ⊆ S) : Narrow S' :=
  fun p hp q hq => h p (hsub hp) q (hsub hq)

theorem Rect.Valid.narrow (h : r.Valid) : Narrow r.pixels := by
  rintro p ⟨⟨hpl, hpr⟩, hpt, hpb⟩ q ⟨⟨hql, hqr⟩, hqt, hqb⟩
  have hw := h.width.2
  have hh := h.height.2
  omega

/-- The last entry is the bounding box. -/
theorem bounds_of_bands {D : Bands} (hs : Stores s D) :
    BoundingBox (getBounds s) (rectsOf D) := by
  obtain ⟨box, hlast, hbox⟩ := hs.last
  rw [getBounds, List.getLastD_eq_getLast?, hlast]
  exact hbox

/-- For normal bands, `isEmpty` is wrong exactly when two pixels are too far
apart. -/
theorem isEmpty_of_bands {D : Bands} (hnormal : NormalBands D) (hs : Stores s D) :
    isEmpty s = true ↔ ¬ Narrow { p | Covers D p.1 p.2 } := by
  have hbox := bounds_of_bands hs
  have hrange : ∀ q ∈ rectsOf D,
      InRange q.left ∧ InRange q.top ∧ InRange q.right ∧ InRange q.bottom := by
    intro q hq
    obtain ⟨b, hb, x, hx, rfl⟩ := mem_rectsOf.mp hq
    obtain ⟨hlo, hhi, hspans⟩ := hnormal.ranged b hb
    exact ⟨(hspans x hx).1, hlo, (hspans x hx).2.1, hhi⟩
  obtain ⟨ql, hql, hleft⟩ := hbox.left
  obtain ⟨qt, hqt, htop⟩ := hbox.top
  obtain ⟨qr, hqr, hright⟩ := hbox.right
  obtain ⟨qb, hqb, hbottom⟩ := hbox.bottom
  -- The pixels at the four sides of the box.
  have hmem : ∀ q ∈ rectsOf D, Covers D q.left q.top ∧ Covers D (q.right - 1) (q.bottom - 1) := by
    intro q hq
    obtain ⟨hw, hh⟩ := hnormal.nonempty q hq
    rw [hnormal.covers, hnormal.covers]
    exact ⟨⟨q, hq, ⟨le_rfl, hw⟩, le_rfl, hh⟩,
      ⟨q, hq, ⟨by omega, by omega⟩, by omega, by omega⟩⟩
  have hnarrow : Narrow { p | Covers D p.1 p.2 } ↔
      (getBounds s).right - (getBounds s).left ≤ INT_MAX ∧
        (getBounds s).bottom - (getBounds s).top ≤ INT_MAX := by
    constructor
    · intro h
      have hx := (h (ql.left, ql.top) (hmem ql hql).1
        (qr.right - 1, qr.bottom - 1) (hmem qr hqr).2).1
      have hy := (h (qt.left, qt.top) (hmem qt hqt).1
        (qb.right - 1, qb.bottom - 1) (hmem qb hqb).2).2
      simp only at hx hy
      omega
    · rintro ⟨hx, hy⟩ ⟨x, y⟩ hp ⟨x', y'⟩ hq
      obtain ⟨q, hq, ⟨hqx, hqx'⟩, hqy, hqy'⟩ := (hnormal.covers x y).mp hp
      obtain ⟨q', hq', ⟨hx1, hx2⟩, hy1, hy2⟩ := (hnormal.covers x' y').mp ‹_›
      have hc := hbox.contains q hq
      have hc' := hbox.contains q' hq'
      simp only
      omega
  obtain ⟨hl, -, -, -⟩ := hrange ql hql
  obtain ⟨-, ht, -, -⟩ := hrange qt hqt
  obtain ⟨-, -, hr, -⟩ := hrange qr hqr
  obtain ⟨-, -, -, hb⟩ := hrange qb hqb
  have hwide := (hnormal.nonempty ql hql).1
  have htall := (hnormal.nonempty qt hqt).2
  have hcl := hbox.contains ql hql
  have hct := hbox.contains qt hqt
  simp only [InRange, INT_MIN, INT_MAX] at hl ht hr hb
  rw [isEmpty, Rect.isEmpty, Bool.or_eq_true, decide_eq_true_eq, decide_eq_true_eq, hnarrow,
    Rect.getWidth, Rect.getHeight, wrapInt_32_le_zero_iff (by omega) (by omega),
    wrapInt_32_le_zero_iff (by omega) (by omega), not_and_or, not_le, not_le]
  rfl

theorem orSelf_inv (h : RegionInv s S) (hr : r.Valid) (hnarrow : Narrow S) :
    ∃ t N, (∀ fuel ≥ N, orSelf fuel r s = some t) ∧ RegionInv t (S ∪ r.pixels) := by
  cases h with
  | empty q hs hS hvalid hempty =>
      subst hs hS
      rw [Set.empty_union]
      refine ⟨[r], 0, ?_, inv_rect hr⟩
      intro fuel _
      rw [orSelf, if_pos (show isEmpty [q] = true from isEmpty_of_degenerate hvalid hempty), set]
  | bands D hnormal hD hs hS =>
      have hnotEmpty : ¬ isEmpty s = true := by
        rw [isEmpty_of_bands hnormal hs, not_not, ← hS]
        exact hnarrow
      have hop : ∃ t N, (∀ fuel ≥ N, booleanOperation fuel opOr s r = some t) ∧
          RegionInv t (S ∪ r.pixels) := by
        apply booleanOperation_inv (.bands D hnormal hD hs hS) hr
        intro L hL hcovers x y
        rw [covers_or hL (rectBands_sweepable hr), covers_rectBands, ← hcovers]
        rfl
      obtain ⟨t, N, hN, ht⟩ := hop
      refine ⟨t, N, ?_, ht⟩
      intro fuel hfuel
      rw [orSelf, if_neg hnotEmpty]
      exact hN fuel hfuel

/-- When two pixels are too far apart, `orSelf` forgets the region. -/
theorem orSelf_wide (h : RegionInv s S) (hwide : ¬ Narrow S) (fuel : Nat) :
    orSelf fuel r s = some [r] := by
  have hempty : isEmpty s = true := by
    cases h with
    | empty q hs hS hvalid hempty =>
        subst hS
        exact absurd (fun p hp => by cases hp) hwide
    | bands D hnormal hD hs hS =>
        rw [isEmpty_of_bands hnormal hs, ← hS]
        exact hwide
  rw [orSelf, if_pos hempty, set]

end Operations

section Runs

variable {ops : List RegionOp} {op : RegionOp}

theorem run_concat (fuel : Nat) (ops : List RegionOp) (op : RegionOp) :
    run fuel (ops ++ [op]) = (run fuel ops).bind (op.exec fuel) := by
  simp [run, List.foldlM_append]

theorem denote_concat (ops : List RegionOp) (op : RegionOp) :
    denote (ops ++ [op]) = op.denote (denote ops) := by
  simp [denote]

/-- Every call of the sequence leaves the normal form of its set. -/
def LawAlong (ops : List RegionOp) : Prop := ∀ n, LawAfter (ops.take n)

/-- Every `orSelf` of the sequence finds a set that is narrow enough. -/
def NarrowAlong (ops : List RegionOp) : Prop :=
  ∀ (n : Nat) (r : Rect), ops[n]? = some (.orSelf r) → Narrow (denote (ops.take n))

theorem lawAlong_concat (h : LawAlong (ops ++ [op])) :
    LawAlong ops ∧ LawAfter (ops ++ [op]) := by
  constructor
  · intro n
    rcases le_total n ops.length with hle | hle
    · have hn := h n
      rwa [List.take_append_of_le_length hle] at hn
    · have hn := h ops.length
      rw [List.take_append_of_le_length le_rfl, List.take_length] at hn
      rwa [List.take_of_length_le hle]
  · have hn := h (ops ++ [op]).length
    rwa [List.take_length] at hn

theorem narrowAlong_concat :
    NarrowAlong (ops ++ [op]) ↔
      NarrowAlong ops ∧ ∀ r, op = .orSelf r → Narrow (denote ops) := by
  constructor
  · intro h
    constructor
    · intro n r hn
      obtain ⟨hlt, -⟩ := List.getElem?_eq_some_iff.mp hn
      have hnarrow := h n r (by rw [List.getElem?_append_left hlt, hn])
      rwa [List.take_append_of_le_length hlt.le] at hnarrow
    · rintro r rfl
      have hnarrow := h ops.length r (by simp)
      rwa [List.take_append_of_le_length le_rfl, List.take_length] at hnarrow
  · rintro ⟨hops, hop⟩ n r hn
    rcases lt_trichotomy n ops.length with hlt | rfl | hgt
    · rw [List.getElem?_append_left hlt] at hn
      rw [List.take_append_of_le_length hlt.le]
      exact hops n r hn
    · rw [List.take_append_of_le_length le_rfl, List.take_length]
      exact hop r (by simpa using hn)
    · rw [List.getElem?_eq_none (by simp; omega)] at hn
      cases hn

theorem inv_clear : RegionInv Region.clear ∅ :=
  .empty EMPTY_RECT rfl rfl (sizeRect_valid (by decide) (by decide)) (.inl rfl)

/-- One more call keeps the invariant. -/
theorem exec_inv {s : Storage} {S : Pixels} (h : RegionInv s S) (hop : op.Valid)
    (hnarrow : ∀ r, op = .orSelf r → Narrow S) :
    ∃ t N, (∀ fuel ≥ N, op.exec fuel s = some t) ∧ RegionInv t (op.denote S) := by
  cases op with
  | create => exact ⟨_, 0, fun _ _ => rfl, inv_clear⟩
  | clear => exact ⟨_, 0, fun _ _ => rfl, inv_clear⟩
  | set w h => exact ⟨_, 0, fun _ _ => rfl, inv_rect (sizeRect_valid hop.1 hop.2)⟩
  | orSelf r => exact orSelf_inv h hop (hnarrow r rfl)
  | subtractSelf r => exact subtractSelf_inv h hop

theorem run_inv (hvalid : ∀ op ∈ ops, op.Valid) (hnarrow : NarrowAlong ops) :
    ∃ s N, (∀ fuel ≥ N, run fuel ops = some s) ∧ RegionInv s (denote ops) := by
  induction ops using List.reverseRecOn with
  | nil => exact ⟨Region.clear, 0, fun _ _ => rfl, inv_clear⟩
  | append_singleton ops op ih =>
      obtain ⟨hops, hop⟩ := narrowAlong_concat.mp hnarrow
      obtain ⟨s, N, hN, hs⟩ := ih (fun op h => hvalid op (by simp [h])) hops
      obtain ⟨t, M, hM, ht⟩ := exec_inv hs (hvalid op (by simp)) hop
      refine ⟨t, max N M, ?_, ?_⟩
      · intro fuel hfuel
        rw [run_concat, hN fuel (le_of_max_le_left hfuel)]
        exact hM fuel (le_of_max_le_right hfuel)
      · rw [denote_concat]
        exact ht

theorem NarrowAlong.take (h : NarrowAlong ops) (m : Nat) : NarrowAlong (ops.take m) := by
  intro n r hn
  rw [List.getElem?_take] at hn
  split at hn
  case isTrue hlt =>
    rw [List.take_take, min_eq_left hlt.le]
    exact h n r hn
  case isFalse => cases hn

/-- A set that is too wide is lost at the next `orSelf`: the rectangle alone
cannot hold the old pixels. -/
theorem not_lawAfter_wide {r : Rect} (hvalid : ∀ op ∈ ops, op.Valid) (hnarrow : NarrowAlong ops)
    (hr : r.Valid) (hwide : ¬ Narrow (denote ops)) : ¬ LawAfter (ops ++ [.orSelf r]) := by
  rintro ⟨t, M, hM, hlaw⟩
  obtain ⟨s, N, hN, hs⟩ := run_inv hvalid hnarrow
  have hlost : t = [r] := by
    have hrun := hM (max N M) (le_max_right _ _)
    rw [run_concat, hN _ (le_max_left _ _)] at hrun
    change orSelf _ r s = some t at hrun
    rw [orSelf_wide hs hwide] at hrun
    exact (Option.some.inj hrun).symm
  have hinside : ∀ p ∈ denote ops, r.Has p.1 p.2 := by
    intro p hp
    have hmem : (p.1, p.2) ∈ denote (ops ++ [.orSelf r]) := by
      rw [denote_concat]
      exact .inl hp
    obtain ⟨q, hq, hhas⟩ := (hlaw.covers p.1 p.2).mp hmem
    rw [hlost, getArray_singleton, List.mem_singleton] at hq
    rwa [hq] at hhas
  exact hwide (hr.narrow.mono hinside)

/-- The region denotes its set after every call exactly when no `orSelf`
meets a set that is wider or taller than a 32-bit difference can say. -/
theorem region_law_iff (ops : List RegionOp) (hvalid : ∀ op ∈ ops, op.Valid) :
    LawAlong ops ↔ NarrowAlong ops := by
  constructor
  · intro hlaw
    induction ops using List.reverseRecOn with
    | nil =>
        intro n r hn
        cases hn
    | append_singleton ops op ih =>
        have hvalid' : ∀ op ∈ ops, op.Valid := fun op h => hvalid op (by simp [h])
        obtain ⟨hops, hafter⟩ := lawAlong_concat hlaw
        have hnarrow := ih hvalid' hops
        refine narrowAlong_concat.mpr ⟨hnarrow, ?_⟩
        rintro r rfl
        by_contra hwide
        exact not_lawAfter_wide hvalid' hnarrow (hvalid (.orSelf r) (by simp)) hwide hafter
  · intro hnarrow n
    obtain ⟨s, N, hN, hs⟩ := run_inv (fun op h => hvalid op (List.mem_of_mem_take h))
      (hnarrow.take n)
    exact ⟨s, N, hN, hs.law⟩

/-- A hole in a screen, and a rectangle across its corner. -/
theorem region_law_iff_hole :
    LawAlong [.set 100 100, .subtractSelf ⟨10, 10, 20, 20⟩, .orSelf ⟨15, 15, 30, 30⟩] := by
  have hvalid : ∀ op ∈ [RegionOp.set 100 100, .subtractSelf ⟨10, 10, 20, 20⟩,
      .orSelf ⟨15, 15, 30, 30⟩], op.Valid := by
    intro op hop
    simp only [List.mem_cons, List.not_mem_nil, or_false] at hop
    rcases hop with rfl | rfl | rfl
    · exact ⟨by decide, by decide⟩
    · constructor <;> decide
    · constructor <;> decide
  apply (region_law_iff _ hvalid).mpr
  intro n r hn
  match n, hn with
  | 2, _ =>
      have hscreen : (⟨0, 0, 100, 100⟩ : Rect).Valid := sizeRect_valid (by decide) (by decide)
      apply hscreen.narrow.mono
      exact fun p hp => hp.1

/-- Two rectangles at the far ends of the integers. -/
def farApart : List RegionOp :=
  [.orSelf ⟨INT_MIN, 0, -1, 10⟩, .orSelf ⟨0, 0, INT_MAX, 10⟩]

/-- A third rectangle is all that is left of the region. -/
theorem region_loses_far_rects :
    (∀ op ∈ farApart ++ [.orSelf ⟨5, 5, 6, 6⟩], op.Valid) ∧
      ¬ LawAfter (farApart ++ [.orSelf ⟨5, 5, 6, 6⟩]) := by
  have hfirst : (⟨INT_MIN, 0, -1, 10⟩ : Rect).Valid := by
    constructor <;> decide
  have hsecond : (⟨0, 0, INT_MAX, 10⟩ : Rect).Valid := by
    constructor <;> decide
  have hthird : (⟨5, 5, 6, 6⟩ : Rect).Valid := by
    constructor <;> decide
  have hvalid : ∀ op ∈ farApart, op.Valid := by
    intro op hop
    simp only [farApart, List.mem_cons, List.not_mem_nil, or_false] at hop
    rcases hop with rfl | rfl
    · exact hfirst
    · exact hsecond
  constructor
  · intro op hop
    rcases List.mem_append.mp hop with hop | hop
    · exact hvalid op hop
    · rw [List.mem_singleton.mp hop]
      exact hthird
  · apply not_lawAfter_wide hvalid _ hthird
    · intro hnarrow
      have hleft : ((INT_MIN, 0) : Int × Int) ∈ denote farApart :=
        .inl (.inr ⟨by decide, by decide⟩)
      have hright : ((INT_MAX - 1, 0) : Int × Int) ∈ denote farApart :=
        .inr ⟨by decide, by decide⟩
      exact absurd (hnarrow _ hleft _ hright).1 (by decide)
    · intro n r hn
      match n, hn with
      | 0, _ =>
          intro p hp
          cases hp
      | 1, _ =>
          apply hfirst.narrow.mono
          rintro p (hp | hp)
          · cases hp
          · exact hp

end Runs

end MeizuM5c.Region
