import MeizuM5c.Region.Normal

/-!
What the normal form of the bands means for the stored rectangles: they are
disjoint, sorted, arranged in bands, and nothing that could be joined is left.
-/

namespace MeizuM5c.Region

open Lib

section Bands

variable {D : Bands} (h : NormalBands D)
include h

theorem NormalBands.spans_lt {b : Span Int XSpans} (hb : b ∈ D) :
    b.item.Pairwise (fun x y => x.hi < y.lo) := by
  have hitem := (h.items b hb).2
  apply (hitem.ordered.and hitem.pairwise_apart).imp
  intro x y hxy
  exact lt_of_le_of_ne hxy.1 (fun heq => hxy.2 ⟨heq, rfl⟩)

theorem NormalBands.tops_lt : D.Pairwise (fun b c => b.lo < c.lo) := by
  apply h.coalesced.ordered.imp_of_mem
  intro b c hb _ hbc
  exact lt_of_lt_of_le (h.coalesced.nonempty b hb) hbc

theorem NormalBands.nonempty : ∀ r ∈ rectsOf D, r.left < r.right ∧ r.top < r.bottom := by
  intro r hr
  obtain ⟨b, hb, x, hx, rfl⟩ := mem_rectsOf.mp hr
  exact ⟨(h.items b hb).2.nonempty x hx, h.coalesced.nonempty b hb⟩

/-- In the order of the list, a rectangle is to the right of another one of
the same band, or below it. -/
theorem NormalBands.follows : (rectsOf D).Pairwise fun r q =>
    (r.top = q.top ∧ r.bottom = q.bottom ∧ r.right < q.left) ∨ r.bottom ≤ q.top := by
  rw [rectsOf, List.pairwise_flatMap]
  constructor
  · intro b hb
    rw [bandRects, List.pairwise_map]
    apply (h.spans_lt hb).imp
    intro x y hxy
    exact .inl ⟨rfl, rfl, hxy⟩
  · apply h.coalesced.ordered.imp
    intro b c hbc r hr q hq
    obtain ⟨x, -, rfl⟩ := List.mem_map.mp hr
    obtain ⟨y, -, rfl⟩ := List.mem_map.mp hq
    exact .inr hbc

theorem NormalBands.disjoint :
    (rectsOf D).Pairwise fun r q => ∀ x y, ¬ (r.Has x y ∧ q.Has x y) := by
  apply h.follows.imp
  rintro r q (⟨-, -, hlt⟩ | hle) x y ⟨⟨hrx, hry⟩, hqx, hqy⟩
  · omega
  · omega

theorem NormalBands.sorted :
    (rectsOf D).Pairwise fun r q => r.top < q.top ∨ r.top = q.top ∧ r.left < q.left := by
  apply h.follows.imp_of_mem
  rintro r q hr _ (⟨htop, -, hlt⟩ | hle)
  · right
    have hr := (h.nonempty r hr).1
    omega
  · left
    have hr := (h.nonempty r hr).2
    omega

theorem NormalBands.horizontal :
    (rectsOf D).Pairwise fun r q => r.top = q.top → r.right ≠ q.left := by
  apply h.follows.imp_of_mem
  rintro r q hr _ (⟨-, -, hlt⟩ | hle) htop
  · omega
  · have hr := (h.nonempty r hr).2
    omega

/-- The band is determined by its top. -/
theorem NormalBands.band_unique {b c : Span Int XSpans} (hb : b ∈ D) (hc : c ∈ D)
    (hlo : b.lo = c.lo) : b = c := by
  have hall : ∀ b ∈ D, ∀ c ∈ D, b.lo = c.lo → b = c := by
    intro b hb c hc
    apply List.Pairwise.forall_of_forall_of_flip (R := fun b c => b.lo = c.lo → b = c) _ _ _ hb hc
    · exact fun _ _ _ => rfl
    · exact h.tops_lt.imp fun hlt heq => absurd heq hlt.ne
    · exact h.tops_lt.imp fun hlt heq => absurd heq hlt.ne'
  exact hall b hb c hc hlo

theorem NormalBands.bands :
    ∀ r ∈ rectsOf D, ∀ q ∈ rectsOf D, r.top = q.top → r.bottom = q.bottom := by
  intro r hr q hq htop
  obtain ⟨b, hb, x, hx, rfl⟩ := mem_rectsOf.mp hr
  obtain ⟨c, hc, y, hy, rfl⟩ := mem_rectsOf.mp hq
  rw [h.band_unique hb hc htop]

/-- The rectangles with the top of a band are those of the band. -/
theorem NormalBands.spansAt {b : Span Int XSpans} (hb : b ∈ D) :
    Region.spansAt (rectsOf D) b.lo = b.item.map fun x => (x.lo, x.hi) := by
  have hfilter : (rectsOf D).filter (fun r => r.top = b.lo) = bandRects b.lo b.hi b.item := by
    have htops := h.tops_lt
    clear h
    induction D with
    | nil => cases hb
    | cons c D ih =>
        obtain ⟨hfirst, hrest⟩ := List.pairwise_cons.mp htops
        rw [rectsOf_cons, List.filter_append]
        rcases List.mem_cons.mp hb with rfl | hb
        · have hband : (bandRects b.lo b.hi b.item).filter (fun r => r.top = b.lo) =
              bandRects b.lo b.hi b.item := by
            apply List.filter_eq_self.mpr
            intro r hr
            obtain ⟨x, -, rfl⟩ := List.mem_map.mp hr
            simp
          have hothers : (rectsOf D).filter (fun r => r.top = b.lo) = [] := by
            apply List.filter_eq_nil_iff.mpr
            intro r hr
            obtain ⟨d, hd, x, -, rfl⟩ := mem_rectsOf.mp hr
            simpa using (hfirst d hd).ne'
          rw [hband, hothers, List.append_nil]
        · have hother : (bandRects c.lo c.hi c.item).filter (fun r => r.top = b.lo) = [] := by
            apply List.filter_eq_nil_iff.mpr
            intro r hr
            obtain ⟨x, -, rfl⟩ := List.mem_map.mp hr
            simpa using (hfirst b hb).ne
          rw [hother, List.nil_append]
          exact ih hb hrest
  rw [Region.spansAt, hfilter, bandRects, List.map_map]
  rfl

omit h in
private theorem map_ends_injective {xs ys : XSpans}
    (heq : (xs.map fun x => (x.lo, x.hi)) = ys.map fun x => (x.lo, x.hi)) : xs = ys := by
  apply List.map_injective_iff.mpr _ heq
  rintro ⟨lo, hi, ⟨⟩⟩ ⟨lo', hi', ⟨⟩⟩ hends
  cases hends
  rfl

theorem NormalBands.vertical : (rectsOf D).Pairwise fun r q =>
    r.top < q.top → r.bottom = q.top →
      Region.spansAt (rectsOf D) r.top ≠ Region.spansAt (rectsOf D) q.top := by
  have hpair : D.Pairwise fun b c => ∀ r ∈ bandRects b.lo b.hi b.item,
      ∀ q ∈ bandRects c.lo c.hi c.item, r.top < q.top → r.bottom = q.top →
        Region.spansAt (rectsOf D) r.top ≠ Region.spansAt (rectsOf D) q.top := by
    apply h.coalesced.pairwise_apart.imp_of_mem
    intro b c hb hc hapart r hr q hq _ hmeet heq
    obtain ⟨x, -, rfl⟩ := List.mem_map.mp hr
    obtain ⟨y, -, rfl⟩ := List.mem_map.mp hq
    rw [h.spansAt hb, h.spansAt hc] at heq
    exact hapart ⟨hmeet, map_ends_injective heq⟩
  rw [show rectsOf D = D.flatMap fun b => bandRects b.lo b.hi b.item from rfl] at hpair ⊢
  rw [List.pairwise_flatMap]
  refine ⟨?_, hpair⟩
  intro b hb
  rw [bandRects, List.pairwise_map]
  apply List.pairwise_of_forall
  intro x y hlt
  exact absurd hlt (lt_irrefl _)

/-- The rectangles cover what the bands cover. -/
theorem NormalBands.covers (x y : Int) :
    Covers D x y ↔ ∃ r ∈ rectsOf D, r.Has x y := by
  rw [covers_iff_mem h.coalesced.toOrdered]
  constructor
  · rintro ⟨b, hb, hy, hx⟩
    obtain ⟨s, hs, hsx, -⟩ := (lookup_eq_some_iff (h.items b hb).2.toOrdered).mp hx
    exact ⟨_, mem_rectsOf.mpr ⟨b, hb, s, hs, rfl⟩, hsx, hy⟩
  · rintro ⟨r, hr, hx, hy⟩
    obtain ⟨b, hb, s, hs, rfl⟩ := mem_rectsOf.mp hr
    exact ⟨b, hb, hy, (lookup_eq_some_iff (h.items b hb).2.toOrdered).mpr ⟨s, hs, hx, rfl⟩⟩

end Bands

/-- `getArray` leaves the bounding box out. -/
theorem Stores.getArray {s : Storage} {D : Bands} (h : Stores s D) (hD : rectsOf D ≠ []) :
    Region.getArray s = rectsOf D := by
  obtain ⟨box, -, rfl⟩ := h
  by_cases hone : (rectsOf D).length = 1
  · rw [if_pos hone, Region.getArray, if_neg hD, isRect, hone]
    simp [← hone]
  · have hlength : (rectsOf D).length ≠ 0 := fun hnil => hD (List.eq_nil_of_length_eq_zero hnil)
    rw [if_neg hone, Region.getArray, if_neg (by simp), isRect]
    simp [hlength]

theorem Stores.last {s : Storage} {D : Bands} (h : Stores s D) :
    ∃ box, s.getLast? = some box ∧ BoundingBox box (rectsOf D) := by
  obtain ⟨box, hbox, rfl⟩ := h
  by_cases hone : (rectsOf D).length = 1
  · obtain ⟨r, hr⟩ := List.length_eq_one_iff.mp hone
    rw [if_pos hone, hr]
    exact ⟨r, rfl, boundingBox_singleton.mpr rfl⟩
  · rw [if_neg hone]
    exact ⟨box, by simp, hbox⟩

/-- A region that stores normal bands satisfies the law for their pixels. -/
theorem NormalBands.law {s : Storage} {D : Bands} (h : NormalBands D) (hD : D ≠ [])
    (hs : Stores s D) : RegionLaw s { p | Covers D p.1 p.2 } := by
  have hrects := rectsOf_ne_nil h hD
  have harray := hs.getArray hrects
  constructor
  · rw [harray]
    exact h.covers
  · rw [harray]
    exact h.disjoint
  · rw [harray]
    exact h.sorted
  · rw [harray]
    exact h.bands
  · rw [harray]
    exact h.horizontal
  · rw [harray]
    exact h.vertical
  · rw [harray]
    exact .inl h.nonempty
  · rw [harray]
    exact hs.last

end MeizuM5c.Region
