import MeizuM5c.Region.Emitted
import MeizuM5c.Region.Region

/-!
The rasterizer after a whole operation. What it stores are the coalesced
bands of what was emitted, followed by their bounding box. Coalesced bands
cover the same pixels.
-/

namespace MeizuM5c.Region

open Lib

/-- A band as the operator emits it. -/
structure EmitsBand (b : Span Int XSpans) : Prop where
  spans : ∀ x ∈ b.item, x.lo < x.hi
  ordered : b.item.Pairwise (fun x y => x.hi ≤ y.lo)
  height : b.item ≠ [] → b.lo < b.hi
  range : Each InRange (fun _ => True) b.item

/-- The bands that have spans, each with its spans joined. -/
def joinBands (B : Bands) : Bands :=
  (B.filter fun b => b.item ≠ []).map fun b => ⟨b.lo, b.hi, coalesce b.item⟩

theorem joinBands_cons_nil {b : Span Int XSpans} (h : b.item = []) (B : Bands) :
    joinBands (b :: B) = joinBands B := by
  rw [joinBands, List.filter_cons_of_neg (by simp [h]), joinBands]

theorem joinBands_cons {b : Span Int XSpans} (h : b.item ≠ []) (B : Bands) :
    joinBands (b :: B) = ⟨b.lo, b.hi, coalesce b.item⟩ :: joinBands B := by
  rw [joinBands, List.filter_cons_of_pos (by simp [h]), List.map_cons, joinBands]

section Run

/-- The finished bands with the current one flushed. -/
def total (D : Bands) (top bottom : Int) (zs : XSpans) : Bands :=
  if zs = [] then D else push D ⟨top, bottom, zs⟩

/-- What flushing relies on. -/
structure Pending (D : Bands) (zs : XSpans) : Prop where
  items : ∀ b ∈ D, b.item ≠ []
  coalesced : Coalesced zs
  range : Each InRange (fun _ => True) zs

variable {r : Rasterizer} {D : Bands} {top bottom : Int} {zs : XSpans}

theorem Pending.hrange (h : Pending D zs) : ∀ x ∈ zs, x.lo ≤ INT_MAX ∧ INT_MIN ≤ x.hi :=
  fun x hx => ⟨(h.range x hx).1.2, (h.range x hx).2.1.1⟩

theorem Pending.total_items (h : Pending D zs) : ∀ b ∈ total D top bottom zs, b.item ≠ [] := by
  unfold total
  split
  case isTrue => exact h.items
  case isFalse hzs =>
    have heach : Each (fun _ => True) (fun xs => xs ≠ []) D :=
      fun b hb => ⟨trivial, trivial, h.items b hb⟩
    exact fun b hb => (heach.push (b := ⟨top, bottom, zs⟩) ⟨trivial, trivial, hzs⟩ b hb).2.2

theorem coalesce_ne_nil {xs : XSpans} (h : xs ≠ []) : coalesce xs ≠ [] :=
  fun hnil => h (foldl_push_eq_nil.mp hnil).2

/-- A whole band, after the rasterizer has finished with the one before. -/
theorem Holds.band (h : Holds r D top bottom zs) (hpending : Pending D zs)
    {b : Span Int XSpans} (hb : b.item ≠ []) (htop : zs ≠ [] → top ≠ b.lo) :
    Holds ((bandRects b.lo b.hi b.item).foldl Rasterizer.add r) (total D top bottom zs)
      b.lo b.hi (coalesce b.item) := by
  by_cases hzs : zs = []
  · subst hzs
    rw [total, if_pos rfl]
    have hidle : Holds r D b.lo b.hi [] :=
      ⟨h.storage, h.tail, h.head, h.span, h.cur, h.bounds⟩
    exact hidle.addBand b.item
  · obtain ⟨x, xs, hx⟩ := List.exists_cons_of_ne_nil hb
    have hnext := h.addNext hzs hpending.coalesced hpending.items hpending.hrange (htop hzs) b.hi x
    rw [total, if_neg hzs, hx]
    exact hnext.addBand xs

/-- Every band that follows is joined and pushed. -/
theorem Holds.run (h : Holds r D top bottom zs) (hpending : Pending D zs) {B : Bands}
    (hB : ∀ b ∈ B, EmitsBand b) (hordered : B.Pairwise (fun b c => b.hi ≤ c.lo))
    (htop : zs ≠ [] → ∀ b ∈ B, b.item ≠ [] → top ≠ b.lo) :
    ∃ D' top' bottom' zs', Holds ((rectsOf B).foldl Rasterizer.add r) D' top' bottom' zs' ∧
      Pending D' zs' ∧ total D' top' bottom' zs' = (joinBands B).foldl push (total D top bottom zs) := by
  induction B generalizing r D top bottom zs with
  | nil => exact ⟨D, top, bottom, zs, h, hpending, rfl⟩
  | cons b B ih =>
      have hB' : ∀ c ∈ B, EmitsBand c := fun c hc => hB c (by simp [hc])
      obtain ⟨hfirst, hrest⟩ := List.pairwise_cons.mp hordered
      by_cases hb : b.item = []
      · rw [rectsOf_cons, hb, bandRects_nil, List.nil_append, joinBands_cons_nil hb]
        exact ih h hpending hB' hrest (fun hzs c hc => htop hzs c (by simp [hc]))
      · have hemits := hB b (by simp)
        have hband := h.band hpending hb (fun hzs => htop hzs b (by simp) hb)
        have hpending' : Pending (total D top bottom zs) (coalesce b.item) :=
          ⟨hpending.total_items, coalesced_coalesce hemits.spans hemits.ordered,
            hemits.range.coalesce⟩
        obtain ⟨D', top', bottom', zs', hrun, hp', htotal⟩ := ih hband hpending' hB' hrest
          (fun _ c hc _ => (lt_of_lt_of_le (hemits.height hb) (hfirst c hc)).ne)
        refine ⟨D', top', bottom', zs', ?_, hp', ?_⟩
        · rw [rectsOf_cons, List.foldl_append]
          exact hrun
        · rw [htotal, joinBands_cons hb, List.foldl_cons, total, if_neg (coalesce_ne_nil hb)]

end Run

/-- All coordinates of the bands are 32-bit integers. -/
def Ranged (B : Bands) : Prop := Each InRange (fun xs => Each InRange (fun _ => True) xs) B

section Emission

variable {opMask : Nat} {L R : Bands}

private theorem ordered_getD {o : Option XSpans}
    (h : ∀ xs, o = some xs → Walkable xs ∧ Each InRange (fun _ => True) xs) :
    Ordered (o.getD []) ∧ Each InRange (fun _ => True) (o.getD []) := by
  apply getD_nil_of (P := fun xs => Ordered xs ∧ Each InRange (fun _ => True) xs)
  · exact ⟨⟨by simp, List.Pairwise.nil⟩, fun x hx => by cases hx⟩
  · exact fun xs hxs => ⟨(h xs hxs).1.2.1, (h xs hxs).2⟩

private theorem selectSpans_range {ps : List (Span Int (Option Unit × Option Unit))}
    {Q : Option Unit × Option Unit → Prop} (h : Each InRange Q ps) :
    Each InRange (fun _ => True) (selectSpans opMask ps) := by
  intro s hs
  obtain ⟨p, hp, hsome⟩ := List.mem_filterMap.mp hs
  split at hsome
  · cases hsome
    exact ⟨(h p hp).1, (h p hp).2.1, trivial⟩
  · cases hsome

private theorem each_piece (hL : Sweepable L) (hR : Sweepable R) (hrL : Ranged L)
    (hrR : Ranged R) :
    Each InRange (fun o => o ≠ (none, none) ∧
      (∀ xs, o.1 = some xs → Walkable xs ∧ Each InRange (fun _ => True) xs) ∧
      ∀ ys, o.2 = some ys → Walkable ys ∧ Each InRange (fun _ => True) ys) (scan L R) := by
  apply each_scan hL.ordered hR.ordered
  · exact fun b hb => ⟨(hrL b hb).1, (hrL b hb).2.1, (hL.walkable b hb).2.2, (hrL b hb).2.2⟩
  · exact fun b hb => ⟨(hrR b hb).1, (hrR b hb).2.1, (hR.walkable b hb).2.2, (hrR b hb).2.2⟩

theorem emittedBands_emits (opMask : Nat) (hL : Sweepable L) (hR : Sweepable R) (hrL : Ranged L)
    (hrR : Ranged R) : ∀ b ∈ emittedBands opMask L R, EmitsBand b ∧ InRange b.lo ∧ InRange b.hi := by
  intro b hb
  obtain ⟨p, hp, rfl⟩ := List.mem_map.mp hb
  obtain ⟨hlo, hhi, -, hleft, hright⟩ := each_piece hL hR hrL hrR p hp
  obtain ⟨hoL, hiL⟩ := ordered_getD hleft
  obtain ⟨hoR, hiR⟩ := ordered_getD hright
  have hordered := (ordered_scan hoL hoR).1
  refine ⟨?_, hlo, hhi⟩
  by_cases hband : p.lo < p.hi
  · rw [emittedBand, if_pos hband]
    exact ⟨selectSpans_nonempty, (selectSpans_ordered hordered).2, fun _ => hband,
      selectSpans_range (each_scan hoL hoR hiL hiR)⟩
  · rw [emittedBand, if_neg hband]
    exact ⟨by simp, List.Pairwise.nil, fun hnil => absurd rfl hnil, fun x hx => by cases hx⟩

theorem emittedBands_ordered (opMask : Nat) (hL : Sweepable L) (hR : Sweepable R) :
    Ordered (emittedBands opMask L R) := by
  obtain ⟨hle, hpairwise⟩ := (ordered_scan hL.ordered hR.ordered).1
  constructor
  · intro b hb
    obtain ⟨p, hp, rfl⟩ := List.mem_map.mp hb
    exact hle p hp
  · rw [emittedBands, List.pairwise_map]
    exact hpairwise

end Emission

section NormalForm

/-- Bands that cannot be joined any further, of spans that cannot. -/
structure NormalBands (D : Bands) : Prop where
  coalesced : Coalesced D
  items : ∀ b ∈ D, b.item ≠ [] ∧ Coalesced b.item
  ranged : Ranged D

def normalise (B : Bands) : Bands := coalesce (joinBands B)

variable {B : Bands} (hB : ∀ b ∈ B, EmitsBand b ∧ InRange b.lo ∧ InRange b.hi)
  (hordered : Ordered B)

include hB in
private theorem joinBands_spec :
    ∀ c ∈ joinBands B, ∃ b ∈ B, b.item ≠ [] ∧ c = ⟨b.lo, b.hi, coalesce b.item⟩ ∧ c.lo < c.hi := by
  intro c hc
  obtain ⟨b, hb, rfl⟩ := List.mem_map.mp hc
  obtain ⟨hmem, hitem⟩ := List.mem_filter.mp hb
  have hitem : b.item ≠ [] := by simpa using hitem
  exact ⟨b, hmem, hitem, rfl, (hB b hmem).1.height hitem⟩

include hordered in
private theorem joinBands_pairwise : (joinBands B).Pairwise (fun b c => b.hi ≤ c.lo) := by
  rw [joinBands, List.pairwise_map]
  exact hordered.2.filter _

include hB hordered in
theorem normalise_normal : NormalBands (normalise B) := by
  have hspec := joinBands_spec hB
  have hlt : ∀ c ∈ joinBands B, c.lo < c.hi := by
    intro c hc
    obtain ⟨-, -, -, -, hlt⟩ := hspec c hc
    exact hlt
  have heach : Each InRange (fun xs => (xs ≠ [] ∧ Coalesced xs) ∧ Each InRange (fun _ => True) xs)
      (normalise B) := by
    apply Each.coalesce
    intro c hc
    obtain ⟨b, hb, hitem, rfl, -⟩ := hspec c hc
    obtain ⟨hemits, hlo, hhi⟩ := hB b hb
    exact ⟨hlo, hhi, ⟨coalesce_ne_nil hitem, coalesced_coalesce hemits.spans hemits.ordered⟩,
      hemits.range.coalesce⟩
  exact ⟨coalesced_coalesce hlt (joinBands_pairwise hordered),
    fun b hb => (heach b hb).2.2.1,
    fun b hb => ⟨(heach b hb).1, (heach b hb).2.1, (heach b hb).2.2.2⟩⟩

theorem covers_iff_mem {B : Bands} (h : Ordered B) {x y : Int} :
    Covers B x y ↔ ∃ b ∈ B, b.Has y ∧ lookup b.item x = some () := by
  constructor
  · rintro ⟨xs, hxs, hx⟩
    obtain ⟨b, hb, hy, rfl⟩ := (lookup_eq_some_iff h).mp hxs
    exact ⟨b, hb, hy, hx⟩
  · rintro ⟨b, hb, hy, hx⟩
    exact ⟨b.item, (lookup_eq_some_iff h).mpr ⟨b, hb, hy, rfl⟩, hx⟩

include hB hordered in
/-- Joining does not change the pixels. -/
theorem covers_normalise (x y : Int) : Covers (normalise B) x y ↔ Covers B x y := by
  have hspec := joinBands_spec hB
  have hlt : ∀ c ∈ joinBands B, c.lo < c.hi := by
    intro c hc
    obtain ⟨-, -, -, -, hlt⟩ := hspec c hc
    exact hlt
  have hpairwise := joinBands_pairwise hordered
  have hjoined : Ordered (joinBands B) := ⟨fun c hc => (hlt c hc).le, hpairwise⟩
  have hitem : ∀ b ∈ B, lookup (coalesce b.item) x = lookup b.item x :=
    fun b hb => lookup_coalesce (hB b hb).1.spans (hB b hb).1.ordered x
  have hstep : Covers (normalise B) x y ↔ Covers (joinBands B) x y := by
    rw [Covers, normalise, lookup_coalesce hlt hpairwise]
    rfl
  rw [hstep, covers_iff_mem hjoined, covers_iff_mem hordered]
  constructor
  · rintro ⟨c, hc, hy, hx⟩
    obtain ⟨b, hb, -, rfl, -⟩ := hspec c hc
    exact ⟨b, hb, hy, by rw [← hitem b hb]; exact hx⟩
  · rintro ⟨b, hb, hy, hx⟩
    have hne : b.item ≠ [] := by
      intro hnil
      rw [hnil] at hx
      cases hx
    refine ⟨⟨b.lo, b.hi, coalesce b.item⟩, ?_, hy, by rw [hitem b hb]; exact hx⟩
    exact List.mem_map.mpr ⟨b, List.mem_filter.mpr ⟨hb, by simpa using hne⟩, rfl⟩

end NormalForm

section Finish

theorem boundingBox_singleton {box r : Rect} : BoundingBox box [r] ↔ box = r := by
  constructor
  · intro h
    have hleft : r.left = box.left := by simpa using h.left
    have htop : r.top = box.top := by simpa using h.top
    have hright : r.right = box.right := by simpa using h.right
    have hbottom : r.bottom = box.bottom := by simpa using h.bottom
    cases box
    cases r
    simp_all
  · rintro rfl
    exact ⟨by simp, by simp, by simp, by simp, by simp⟩

theorem mem_rectsOf {D : Bands} {r : Rect} :
    r ∈ rectsOf D ↔ ∃ b ∈ D, ∃ x ∈ b.item, r = ⟨x.lo, b.lo, x.hi, b.hi⟩ := by
  simp only [rectsOf, bandRects, List.mem_flatMap, List.mem_map, eq_comm]

variable {D : Bands}

theorem rectsOf_ne_nil (h : NormalBands D) (hD : D ≠ []) : rectsOf D ≠ [] := by
  obtain ⟨b, D, rfl⟩ := List.exists_cons_of_ne_nil hD
  rw [rectsOf_cons]
  intro hnil
  exact (h.items b (by simp)).1 (bandRects_eq_nil.mp (List.append_eq_nil_iff.mp hnil).1)

theorem NormalBands.boundingBox (h : NormalBands D) (hD : D ≠ []) {bounds : Rect}
    (hbounds : Bounds bounds D) :
    BoundingBox { bounds with
      top := ((rectsOf D).headD EMPTY_RECT).top
      bottom := ((rectsOf D).getLastD EMPTY_RECT).bottom } (rectsOf D) := by
  have htop : ((rectsOf D).headD EMPTY_RECT).top = (D.head hD).lo := by
    obtain ⟨b, D, rfl⟩ := List.exists_cons_of_ne_nil hD
    obtain ⟨x, xs, hx⟩ := List.exists_cons_of_ne_nil (h.items b (by simp)).1
    rw [rectsOf_cons, hx]
    rfl
  have hbottom : ((rectsOf D).getLastD EMPTY_RECT).bottom = (D.getLast hD).hi := by
    obtain ⟨D, b, rfl⟩ := (List.eq_nil_or_concat' D).resolve_left hD
    obtain ⟨xs, x, hx⟩ := (List.eq_nil_or_concat' b.item).resolve_left (h.items b (by simp)).1
    rw [rectsOf_append, rectsOf_cons, hx]
    simp
  rw [htop, hbottom]
  have hrect : ∀ b ∈ D, ∃ r ∈ rectsOf D, r.top = b.lo ∧ r.bottom = b.hi := by
    intro b hb
    obtain ⟨x, xs, hx⟩ := List.exists_cons_of_ne_nil (h.items b hb).1
    exact ⟨_, mem_rectsOf.mpr ⟨b, hb, x, by simp [hx], rfl⟩, rfl, rfl⟩
  constructor
  · intro r hr
    obtain ⟨b, hb, x, hx, rfl⟩ := mem_rectsOf.mp hr
    exact ⟨hbounds.left_le b hb x hx, h.coalesced.head_lo_le hD b hb,
      hbounds.le_right b hb x hx, h.coalesced.le_getLast_hi hD b hb⟩
  · obtain ⟨b, hb, x, hx, heq⟩ := hbounds.left_mem hD
    exact ⟨_, mem_rectsOf.mpr ⟨b, hb, x, hx, rfl⟩, heq⟩
  · obtain ⟨r, hr, htop', -⟩ := hrect _ (List.head_mem hD)
    exact ⟨r, hr, htop'⟩
  · obtain ⟨b, hb, x, hx, heq⟩ := hbounds.right_mem hD
    exact ⟨_, mem_rectsOf.mpr ⟨b, hb, x, hx, rfl⟩, heq⟩
  · obtain ⟨r, hr, -, hbottom'⟩ := hrect _ (List.getLast_mem hD)
    exact ⟨r, hr, hbottom'⟩

/-- The storage of a region: its rectangles and, unless there is only one,
their bounding box. -/
def Stores (storage : List Rect) (D : Bands) : Prop :=
  ∃ box, BoundingBox box (rectsOf D) ∧
    storage = if (rectsOf D).length = 1 then rectsOf D else rectsOf D ++ [box]

theorem close_empty {r : Rasterizer} {top bottom : Int} (h : Holds r [] top bottom []) :
    r.close = [EMPTY_RECT] := by
  have hbounds := h.bounds.empty rfl
  have hstorage : r.storage = [] := h.storage
  rw [Rasterizer.close, if_neg (not_not.mpr hstorage), hbounds]
  rfl

theorem close_stores {r : Rasterizer} {top bottom : Int} (h : Holds r D top bottom [])
    (hnormal : NormalBands D) (hD : D ≠ []) : Stores r.close D := by
  have hbox := hnormal.boundingBox hD h.bounds
  refine ⟨_, hbox, ?_⟩
  rw [Rasterizer.close, h.storage, if_pos (rectsOf_ne_nil hnormal hD)]
  by_cases hone : (rectsOf D).length = 1
  · obtain ⟨r, hr⟩ := List.length_eq_one_iff.mp hone
    simp only [hone, if_true]
    rw [hr] at hbox ⊢
    rw [boundingBox_singleton.mp hbox]
  · simp only [hone, if_false]

/-- The rasterizer stores the coalesced bands of everything it was given. -/
theorem finish_stores {B : Bands} (hB : ∀ b ∈ B, EmitsBand b ∧ InRange b.lo ∧ InRange b.hi)
    (hordered : Ordered B) :
    (normalise B = [] → ((rectsOf B).foldl Rasterizer.add {}).finish = [EMPTY_RECT]) ∧
      (normalise B ≠ [] →
        Stores ((rectsOf B).foldl Rasterizer.add {}).finish (normalise B)) := by
  have hstart : Holds {} [] 0 0 [] :=
    ⟨rfl, rfl, rfl, rfl, fun hnil => absurd rfl hnil,
      fun _ => rfl, by simp, by simp, fun hnil => absurd rfl hnil, fun hnil => absurd rfl hnil⟩
  have hpending : Pending [] ([] : XSpans) := ⟨by simp, Coalesced.nil, fun x hx => by cases hx⟩
  obtain ⟨D, top, bottom, zs, hrun, hp, htotal⟩ := hstart.run hpending
    (fun b hb => (hB b hb).1) hordered.2 (fun hnil => absurd rfl hnil)
  have htotal : total D top bottom zs = normalise B := htotal
  -- The destructor flushes what is left.
  have hflushed : Holds ((rectsOf B).foldl Rasterizer.add {}).flushRest (normalise B)
      top bottom [] := by
    rw [← htotal, total, Rasterizer.flushRest]
    by_cases hzs : zs = []
    · subst hzs
      have hspan : ((rectsOf B).foldl Rasterizer.add {}).span = [] := hrun.span
      rw [if_pos rfl, if_neg (not_not.mpr hspan)]
      exact hrun
    · have hspan : ((rectsOf B).foldl Rasterizer.add {}).span ≠ [] := by
        rw [hrun.span]
        exact fun hnil => hzs (bandRects_eq_nil.mp hnil)
      rw [if_neg hzs, if_pos hspan]
      exact hrun.flush hzs hp.coalesced hp.items hp.hrange top bottom
  constructor
  · intro hnil
    rw [hnil] at hflushed
    exact close_empty hflushed
  · intro hne
    exact close_stores hflushed (normalise_normal hB hordered) hne

end Finish

end MeizuM5c.Region
