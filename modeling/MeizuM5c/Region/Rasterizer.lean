import MeizuM5c.Lib.Coalesce
import MeizuM5c.Region.Sweep

/-!
`Region::rasterizer` builds the storage of a region from the rectangles that
the operator hands to it: rectangles that touch within a band are joined, and
a finished band extends the previous one if it continues it exactly. Pointers
into the storage are indices. Seen as bands, both are the same coalescing.
-/

namespace MeizuM5c.Region

open Lib

structure Rasterizer where
  bounds : Rect := ⟨INT_MAX, 0, INT_MIN, 0⟩
  storage : List Rect := []
  head : Nat := 0
  tail : Nat := 0
  span : List Rect := []
  cur : Nat := 0

/-- The loop that compares the span with the rectangles from `head` to
`tail`. -/
def sameSpans : List Rect → List Rect → Bool
  | p :: ps, q :: qs =>
      if p.left ≠ q.left ∨ p.right ≠ q.right then false else sameSpans ps qs
  | _, _ => true

/-- The rectangles from `head` to `tail`. -/
def Rasterizer.lastBand (r : Rasterizer) : List Rect := (r.storage.take r.tail).drop r.head

def Rasterizer.merges (r : Rasterizer) : Bool :=
  r.tail - r.head = r.span.length &&
    match r.span, r.lastBand with
    | p :: _, q :: _ => p.top = q.bottom && sameSpans r.span r.lastBand
    | _, _ => false

def Rasterizer.flushSpan (r : Rasterizer) : Rasterizer :=
  let front := r.span.headD EMPTY_RECT
  let back := r.span.getLastD EMPTY_RECT
  if r.merges then
    { r with
      storage := r.storage.take r.head ++
        r.lastBand.map (fun q => { q with bottom := front.bottom }) ++ r.storage.drop r.tail
      span := [] }
  else
    let storage := r.storage ++ r.span
    { r with
      bounds := { r.bounds with
        left := min front.left r.bounds.left
        right := max back.right r.bounds.right }
      storage
      tail := storage.length
      head := storage.length - r.span.length
      span := [] }

def Rasterizer.append (r : Rasterizer) (rect : Rect) : Rasterizer :=
  { r with span := r.span ++ [rect], cur := r.span.length }

/-- `Region::rasterizer::operator()`. -/
def Rasterizer.add (r : Rasterizer) (rect : Rect) : Rasterizer :=
  if r.span = [] then r.append rect
  else
    let cur := r.span.getD r.cur EMPTY_RECT
    if cur.top ≠ rect.top then r.flushSpan.append rect
    else if cur.right = rect.left then
      { r with span := r.span.set r.cur { cur with right := rect.right } }
    else r.append rect

def Rasterizer.flushRest (r : Rasterizer) : Rasterizer :=
  if r.span ≠ [] then r.flushSpan else r

/-- The bounding box completes the storage. -/
def Rasterizer.close (r : Rasterizer) : List Rect :=
  if r.storage ≠ [] then
    let bounds : Rect :=
      { r.bounds with
        top := (r.storage.headD EMPTY_RECT).top
        bottom := (r.storage.getLastD EMPTY_RECT).bottom }
    if r.storage.length = 1 then [bounds] else r.storage ++ [bounds]
  else [{ r.bounds with left := 0, right := 0 }]

/-- The destructor. -/
def Rasterizer.finish (r : Rasterizer) : List Rect := r.flushRest.close

section Bands

/-- `bounds` spans the bands that were flushed. -/
structure Bounds (bounds : Rect) (D : Bands) : Prop where
  empty : D = [] → bounds = ⟨INT_MAX, 0, INT_MIN, 0⟩
  left_le : ∀ b ∈ D, ∀ x ∈ b.item, bounds.left ≤ x.lo
  le_right : ∀ b ∈ D, ∀ x ∈ b.item, x.hi ≤ bounds.right
  left_mem : D ≠ [] → ∃ b ∈ D, ∃ x ∈ b.item, x.lo = bounds.left
  right_mem : D ≠ [] → ∃ b ∈ D, ∃ x ∈ b.item, x.hi = bounds.right

/-- The rasterizer holds the bands `D` and, unflushed, the spans `zs` of one
more band. -/
structure Holds (r : Rasterizer) (D : Bands) (top bottom : Int) (zs : XSpans) : Prop where
  storage : r.storage = rectsOf D
  tail : r.tail = (rectsOf D).length
  head : r.head = (rectsOf D.dropLast).length
  span : r.span = bandRects top bottom zs
  cur : zs ≠ [] → r.cur + 1 = zs.length
  bounds : Bounds r.bounds D

@[simp] theorem bandRects_append (top bottom : Int) (xs ys : XSpans) :
    bandRects top bottom (xs ++ ys) = bandRects top bottom xs ++ bandRects top bottom ys := by
  rw [bandRects, bandRects, bandRects, List.map_append]

@[simp] theorem rectsOf_append (B C : Bands) : rectsOf (B ++ C) = rectsOf B ++ rectsOf C := by
  rw [rectsOf, rectsOf, rectsOf, List.flatMap_append]

@[simp] theorem bandRects_length (top bottom : Int) (xs : XSpans) :
    (bandRects top bottom xs).length = xs.length := by
  rw [bandRects, List.length_map]

theorem bandRects_eq_nil {top bottom : Int} {xs : XSpans} :
    bandRects top bottom xs = [] ↔ xs = [] := by
  rw [bandRects, List.map_eq_nil_iff]

/-- The comparison of the two spans of rectangles is one of their spans. -/
theorem sameSpans_iff {t b t' b' : Int} {xs ys : XSpans} (h : xs.length = ys.length) :
    sameSpans (bandRects t b xs) (bandRects t' b' ys) = true ↔ xs = ys := by
  induction xs generalizing ys with
  | nil =>
      obtain rfl : ys = [] := List.eq_nil_of_length_eq_zero h.symm
      simp [sameSpans]
  | cons x xs ih =>
      cases ys with
      | nil => cases h
      | cons y ys =>
          have hlen : xs.length = ys.length := by simpa using h
          obtain ⟨lo, hi, ⟨⟩⟩ := x
          obtain ⟨lo', hi', ⟨⟩⟩ := y
          rw [bandRects_cons, bandRects_cons, sameSpans]
          by_cases hsame : lo = lo' ∧ hi = hi'
          · obtain ⟨rfl, rfl⟩ := hsame
            simp [ih hlen]
          · rw [if_pos (not_and_or.mp hsame)]
            simp only [Bool.false_eq_true, List.cons.injEq, Span.mk.injEq, and_true, false_iff]
            exact fun heq => hsame heq.1

theorem Holds.lastBand {r : Rasterizer} {D : Bands} {c : Span Int XSpans} {top bottom : Int}
    {zs : XSpans} (h : Holds r (D ++ [c]) top bottom zs) :
    r.storage.take r.head = rectsOf D ∧ r.lastBand = bandRects c.lo c.hi c.item ∧
      r.storage.drop r.tail = [] := by
  have hdrop : (D ++ [c]).dropLast = D := List.dropLast_concat
  have hstorage := h.storage
  have hhead := h.head
  have htail := h.tail
  rw [hdrop] at hhead
  rw [Rasterizer.lastBand, htail, hhead, hstorage, List.take_length, rectsOf_append]
  simp

/-- The test of `flushSpan` recognises a band that continues the last one. -/
theorem Holds.merges_iff {r : Rasterizer} {D : Bands} {c : Span Int XSpans} {top bottom : Int}
    {zs : XSpans} (h : Holds r (D ++ [c]) top bottom zs) (hzs : zs ≠ []) (hc : c.item ≠ []) :
    r.merges = true ↔ Joins c ⟨top, bottom, zs⟩ := by
  obtain ⟨-, hlast, -⟩ := h.lastBand
  obtain ⟨z, zs', hz⟩ := List.exists_cons_of_ne_nil hzs
  obtain ⟨y, ys', hy⟩ := List.exists_cons_of_ne_nil hc
  have hlength : r.tail - r.head = c.item.length := by
    rw [h.tail, h.head, List.dropLast_concat]
    simp
  have htest : r.merges = (decide (c.item.length = zs.length) &&
      (decide (top = c.hi) && sameSpans r.span r.lastBand)) := by
    rw [Rasterizer.merges, hlength, hlast, h.span, bandRects_length, hz, hy, bandRects_cons,
      bandRects_cons]
  rw [htest, Bool.and_eq_true, Bool.and_eq_true, decide_eq_true_eq, decide_eq_true_eq, hlast,
    h.span]
  constructor
  · rintro ⟨hlen, htop, hsame⟩
    exact ⟨htop.symm, ((sameSpans_iff hlen.symm).mp hsame).symm⟩
  · rintro ⟨htop, hitem⟩
    have hlen : c.item.length = zs.length := by rw [show c.item = zs from hitem]
    exact ⟨hlen, htop.symm, (sameSpans_iff hlen.symm).mpr (show c.item = zs from hitem).symm⟩

theorem Bounds.append {bounds : Rect} {D : Bands} (h : Bounds bounds D) (b : Span Int XSpans)
    (hb : b.item ≠ []) (hcoalesced : Coalesced b.item)
    (hrange : ∀ x ∈ b.item, x.lo ≤ INT_MAX ∧ INT_MIN ≤ x.hi) :
    Bounds { bounds with
      left := min (b.item.head hb).lo bounds.left
      right := max (b.item.getLast hb).hi bounds.right } (D ++ [b]) := by
  have hhead := List.head_mem hb
  have hlast := List.getLast_mem hb
  constructor
  · intro hnil
    simp at hnil
  · intro c hc x hx
    rcases List.mem_append.mp hc with hc | hc
    · exact (min_le_right _ _).trans (h.left_le c hc x hx)
    · rw [List.mem_singleton.mp hc] at hx
      exact (min_le_left _ _).trans (hcoalesced.head_lo_le hb x hx)
  · intro c hc x hx
    rcases List.mem_append.mp hc with hc | hc
    · exact (h.le_right c hc x hx).trans (le_max_right _ _)
    · rw [List.mem_singleton.mp hc] at hx
      exact (hcoalesced.le_getLast_hi hb x hx).trans (le_max_left _ _)
  · intro _
    rcases le_total (b.item.head hb).lo bounds.left with hle | hle
    · exact ⟨b, by simp, _, hhead, (min_eq_left hle).symm⟩
    · by_cases hD : D = []
      · have hmax : bounds.left = INT_MAX := by rw [h.empty hD]
        have heq := le_antisymm (hrange _ hhead).1 (hmax ▸ hle)
        exact ⟨b, by simp, _, hhead, by rw [hmax, ← heq, min_self]⟩
      · obtain ⟨c, hc, x, hx, heq⟩ := h.left_mem hD
        exact ⟨c, by simp [hc], x, hx, by rw [heq]; exact (min_eq_right hle).symm⟩
  · intro _
    rcases le_total bounds.right (b.item.getLast hb).hi with hle | hle
    · exact ⟨b, by simp, _, hlast, (max_eq_left hle).symm⟩
    · by_cases hD : D = []
      · have hmin : bounds.right = INT_MIN := by rw [h.empty hD]
        have heq := le_antisymm (hmin ▸ hle) (hrange _ hlast).2
        exact ⟨b, by simp, _, hlast, by rw [hmin, ← heq, max_self]⟩
      · obtain ⟨c, hc, x, hx, heq⟩ := h.right_mem hD
        exact ⟨c, by simp [hc], x, hx, by rw [heq]; exact (max_eq_right hle).symm⟩

/-- A band that is taller than before has the same sides. -/
theorem Bounds.extend {bounds : Rect} {D : Bands} {c : Span Int XSpans}
    (h : Bounds bounds (D ++ [c])) (hi : Int) : Bounds bounds (D ++ [⟨c.lo, hi, c.item⟩]) := by
  have hmem : ∀ b ∈ D ++ [⟨c.lo, hi, c.item⟩], ∃ b' ∈ D ++ [c], b'.item = b.item := by
    intro b hb
    rcases List.mem_append.mp hb with hb | hb
    · exact ⟨b, by simp [hb], rfl⟩
    · rw [List.mem_singleton.mp hb]
      exact ⟨c, by simp, rfl⟩
  have hmem' : ∀ b ∈ D ++ [c], ∃ b' ∈ D ++ [⟨c.lo, hi, c.item⟩], b'.item = b.item := by
    intro b hb
    rcases List.mem_append.mp hb with hb | hb
    · exact ⟨b, by simp [hb], rfl⟩
    · rw [List.mem_singleton.mp hb]
      exact ⟨⟨c.lo, hi, c.item⟩, by simp, rfl⟩
  constructor
  · intro hnil
    simp at hnil
  · intro b hb x hx
    obtain ⟨b', hb', hitem⟩ := hmem b hb
    exact h.left_le b' hb' x (hitem ▸ hx)
  · intro b hb x hx
    obtain ⟨b', hb', hitem⟩ := hmem b hb
    exact h.le_right b' hb' x (hitem ▸ hx)
  · intro _
    obtain ⟨b, hb, x, hx, heq⟩ := h.left_mem (by simp)
    obtain ⟨b', hb', hitem⟩ := hmem' b hb
    exact ⟨b', hb', x, hitem ▸ hx, heq⟩
  · intro _
    obtain ⟨b, hb, x, hx, heq⟩ := h.right_mem (by simp)
    obtain ⟨b', hb', hitem⟩ := hmem' b hb
    exact ⟨b', hb', x, hitem ▸ hx, heq⟩

section Flush

variable {r : Rasterizer} {D : Bands} {top bottom : Int} {zs : XSpans}

private theorem Holds.front (h : Holds r D top bottom zs) (hzs : zs ≠ []) :
    r.span.headD EMPTY_RECT = ⟨(zs.head hzs).lo, top, (zs.head hzs).hi, bottom⟩ := by
  obtain ⟨z, zs', rfl⟩ := List.exists_cons_of_ne_nil hzs
  rw [h.span]
  rfl

private theorem Holds.back (h : Holds r D top bottom zs) (hzs : zs ≠ []) :
    r.span.getLastD EMPTY_RECT = ⟨(zs.getLast hzs).lo, top, (zs.getLast hzs).hi, bottom⟩ := by
  obtain ⟨zs', z, rfl⟩ := (List.eq_nil_or_concat' zs).resolve_left hzs
  rw [h.span]
  simp

private theorem Holds.flush_append (h : Holds r D top bottom zs) (hzs : zs ≠ [])
    (hcoalesced : Coalesced zs) (hrange : ∀ x ∈ zs, x.lo ≤ INT_MAX ∧ INT_MIN ≤ x.hi)
    (hmerge : ¬ r.merges = true) (top' bottom' : Int) :
    Holds r.flushSpan (D ++ [⟨top, bottom, zs⟩]) top' bottom' [] := by
  have hstorage : r.storage ++ r.span = rectsOf (D ++ [⟨top, bottom, zs⟩]) := by
    rw [h.storage, h.span, rectsOf_append, rectsOf_cons, rectsOf_nil, List.append_nil]
  rw [Rasterizer.flushSpan, if_neg hmerge, h.front hzs, h.back hzs]
  constructor
  · exact hstorage
  · exact congrArg List.length hstorage
  · rw [List.dropLast_concat]
    simp only [List.length_append, h.storage]
    omega
  · rfl
  · intro hnil
    exact absurd rfl hnil
  · exact h.bounds.append ⟨top, bottom, zs⟩ hzs hcoalesced hrange

/-- Flushing coalesces the current band into the finished ones. -/
theorem Holds.flush (h : Holds r D top bottom zs) (hzs : zs ≠ []) (hcoalesced : Coalesced zs)
    (hD : ∀ b ∈ D, b.item ≠ []) (hrange : ∀ x ∈ zs, x.lo ≤ INT_MAX ∧ INT_MIN ≤ x.hi)
    (top' bottom' : Int) : Holds r.flushSpan (push D ⟨top, bottom, zs⟩) top' bottom' [] := by
  rcases List.eq_nil_or_concat' D with rfl | ⟨D, c, rfl⟩
  · apply h.flush_append hzs hcoalesced hrange
    have hlength : zs.length ≠ 0 := fun hnil => hzs (List.eq_nil_of_length_eq_zero hnil)
    rw [Rasterizer.merges, h.tail, h.head, h.span]
    simp [hlength.symm]
  · have hmerges := h.merges_iff hzs (hD c (by simp))
    by_cases hjoin : Joins c ⟨top, bottom, zs⟩
    · obtain ⟨htake, hlast, hdrop⟩ := h.lastBand
      rw [push_join hjoin, Rasterizer.flushSpan, if_pos (hmerges.mpr hjoin), h.front hzs]
      have hstorage : r.storage.take r.head ++
          r.lastBand.map (fun q => { q with bottom := bottom }) ++ r.storage.drop r.tail =
            rectsOf (D ++ [⟨c.lo, bottom, c.item⟩]) := by
        rw [htake, hlast, hdrop, rectsOf_append, List.append_nil]
        simp [bandRects]
      constructor
      · exact hstorage
      · rw [h.tail]
        simp
      · rw [h.head, List.dropLast_concat, List.dropLast_concat]
      · rfl
      · intro hnil
        exact absurd rfl hnil
      · exact h.bounds.extend bottom
    · rw [push_append hjoin]
      apply h.flush_append hzs hcoalesced hrange
      exact fun hmerge => hjoin (hmerges.mp hmerge)

end Flush

section Adding

variable {r : Rasterizer} {D : Bands} {top bottom : Int} {zs : XSpans}

/-- A further rectangle of the current band. -/
theorem Holds.add (h : Holds r D top bottom zs) (x : Span Int Unit) :
    Holds (r.add ⟨x.lo, top, x.hi, bottom⟩) D top bottom (push zs x) := by
  have hspan := h.span
  rcases List.eq_nil_or_concat' zs with rfl | ⟨zs, z, rfl⟩
  · rw [bandRects_nil] at hspan
    rw [Rasterizer.add, if_pos hspan]
    refine ⟨h.storage, h.tail, h.head, ?_, ?_, h.bounds⟩
    · simp [Rasterizer.append, hspan]
    · intro _
      simp [Rasterizer.append, hspan]
  · have hcur : r.cur = zs.length := by
      have hcur := h.cur (by simp)
      rw [List.length_append, List.length_singleton] at hcur
      omega
    have hne : r.span ≠ [] := by
      rw [hspan]
      simp
    have hget : r.span.getD r.cur EMPTY_RECT = ⟨z.lo, top, z.hi, bottom⟩ := by
      rw [hspan, hcur]
      simp
    rw [Rasterizer.add, if_neg hne, hget]
    by_cases hjoin : Joins z x
    · rw [push_join hjoin]
      simp only [ne_eq, not_true_eq_false, if_false, hjoin.1, if_true]
      refine ⟨h.storage, h.tail, h.head, ?_, ?_, h.bounds⟩
      · rw [hspan, hcur]
        simp
      · intro _
        rw [hcur]
        simp
    · have htouch : z.hi ≠ x.lo := fun heq => hjoin ⟨heq, rfl⟩
      rw [push_append hjoin]
      simp only [ne_eq, not_true_eq_false, if_false, htouch]
      refine ⟨h.storage, h.tail, h.head, ?_, ?_, h.bounds⟩
      · simp [Rasterizer.append, hspan]
      · intro _
        simp [Rasterizer.append, hspan]

/-- All rectangles of a band, after some of it. -/
theorem Holds.addBand (h : Holds r D top bottom zs) (xs : XSpans) :
    Holds ((bandRects top bottom xs).foldl Rasterizer.add r) D top bottom (xs.foldl push zs) := by
  induction xs generalizing r zs with
  | nil => exact h
  | cons x xs ih => exact ih (h.add x)

/-- The first rectangle of the next band. -/
theorem Holds.addNext (h : Holds r D top bottom zs) (hzs : zs ≠ []) (hcoalesced : Coalesced zs)
    (hD : ∀ b ∈ D, b.item ≠ []) (hrange : ∀ x ∈ zs, x.lo ≤ INT_MAX ∧ INT_MIN ≤ x.hi)
    {top' : Int} (htop : top ≠ top') (bottom' : Int) (x : Span Int Unit) :
    Holds (r.add ⟨x.lo, top', x.hi, bottom'⟩) (push D ⟨top, bottom, zs⟩) top' bottom' [x] := by
  have hflush := h.flush hzs hcoalesced hD hrange top' bottom'
  have hne : r.span ≠ [] := by
    rw [h.span]
    exact fun hnil => hzs (bandRects_eq_nil.mp hnil)
  have hget : (r.span.getD r.cur EMPTY_RECT).top = top := by
    obtain ⟨zs, z, rfl⟩ := (List.eq_nil_or_concat' zs).resolve_left hzs
    have hcur := h.cur hzs
    rw [List.length_append, List.length_singleton] at hcur
    rw [h.span, show r.cur = zs.length by omega]
    simp
  have hstep := hflush.add x
  rw [push_nil] at hstep
  have hadd : r.add ⟨x.lo, top', x.hi, bottom'⟩ =
      r.flushSpan.append ⟨x.lo, top', x.hi, bottom'⟩ := by
    rw [Rasterizer.add, if_neg hne, if_pos (by rw [hget]; exact htop)]
  rw [hadd]
  rwa [Rasterizer.add, if_pos (show r.flushSpan.span = [] from hflush.span)] at hstep

end Adding

end Bands

end MeizuM5c.Region
