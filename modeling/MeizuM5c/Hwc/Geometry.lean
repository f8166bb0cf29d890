import MeizuM5c.Hwc.Promotion

/-!
The geometry of a plane. `layer_fits_overlay` takes `int` differences of the
coordinates before it looks at their signs, and `fhwc_set` stores offsets and
sizes as `uint16_t`. The size and the place on the panel are bounded by the panel,
the offsets in the buffer by nothing.
-/

namespace MeizuM5c.Hwc

open Lib

/-- The tests of `layer_fits_overlay` behind its subtractions. -/
def overlayTests (hwc : Device) (halFmt : Option Int) (l : Layer) (sw sh dw dh : Int) : Int :=
  if sw ≤ 0 ∨ sh ≤ 0 ∨ sw ≠ dw ∨ sh ≠ dh then 0
  else if l.sourceCropi.left < 0 ∨ l.sourceCropi.top < 0 then 0
  else if l.displayFrame.left < 0 ∨ l.displayFrame.top < 0 ∨
      wrapInt 32 hwc.width < l.displayFrame.right ∨
      wrapInt 32 hwc.height < l.displayFrame.bottom then 0
  else if hwc.geQuery = false then 0
  else
    match halFmt with
    | none => 0
    | some halFmt => mapHalFormat halFmt

/-- `layer_fits_overlay`, without a result when one of its subtractions overflows. -/
def layerFitsOverlayChecked (hwc : Device) (halFmt : Option Int) (l : Layer) : Option Int :=
  if l.flags &&& HWC_SKIP_LAYER ≠ 0 then some 0
  else if l.handle = none then some 0
  else if l.transform ≠ 0 then some 0
  else if l.blending ≠ HWC_BLENDING_NONE ∧ l.blending ≠ HWC_BLENDING_PREMULT ∧
      l.blending ≠ HWC_BLENDING_COVERAGE then some 0
  else do
    let sw ← checkedInt 32 (l.sourceCropi.right - l.sourceCropi.left)
    let sh ← checkedInt 32 (l.sourceCropi.bottom - l.sourceCropi.top)
    let dw ← checkedInt 32 (l.displayFrame.right - l.displayFrame.left)
    let dh ← checkedInt 32 (l.displayFrame.bottom - l.displayFrame.top)
    return overlayTests hwc halFmt l sw sh dw dh

section Law

/-- The fields of a plane are the integers of the layer. -/
structure Stored (l : Layer) (p : Plane) : Prop where
  sx : (p.sx : Int) = l.sourceCropi.left
  sy : (p.sy : Int) = l.sourceCropi.top
  sw : (p.sw : Int) = l.sourceCropi.right - l.sourceCropi.left
  sh : (p.sh : Int) = l.sourceCropi.bottom - l.sourceCropi.top
  tx : (p.tx : Int) = l.displayFrame.left
  ty : (p.ty : Int) = l.displayFrame.top

/-- No subtraction overflows, and what any frame stores of the layer is not truncated. -/
structure GeometryLaw (hwc : Device) (l : Layer) : Prop where
  computed : ∀ halFmt, layerFitsOverlayChecked hwc halFmt l ≠ none
  stored : ∀ ge io layers i p, layers[i]? = some { l with compositionType := .overlay } →
    (i, p) ∈ (fhwcSet hwc ge io layers).planes → Stored l p

/-- The tests in front of the subtractions. -/
structure Examined (l : Layer) : Prop where
  shown : l.flags &&& HWC_SKIP_LAYER = 0
  handle : l.handle ≠ none
  upright : l.transform = 0
  blending : l.blending = HWC_BLENDING_NONE ∨ l.blending = HWC_BLENDING_PREMULT ∨
    l.blending = HWC_BLENDING_COVERAGE

def FitsInt (x : Int) : Prop := -2147483648 ≤ x ∧ x ≤ 2147483647

structure DifferencesFit (l : Layer) : Prop where
  sw : FitsInt (l.sourceCropi.right - l.sourceCropi.left)
  sh : FitsInt (l.sourceCropi.bottom - l.sourceCropi.top)
  dw : FitsInt (l.displayFrame.right - l.displayFrame.left)
  dh : FitsInt (l.displayFrame.bottom - l.displayFrame.top)

/-- A layer that is neither scaled nor clipped, where the format can be asked for. -/
structure Placed (hwc : Device) (l : Layer) : Prop where
  wide : 0 < l.sourceCropi.right - l.sourceCropi.left
  high : 0 < l.sourceCropi.bottom - l.sourceCropi.top
  sameWidth : l.sourceCropi.right - l.sourceCropi.left =
    l.displayFrame.right - l.displayFrame.left
  sameHeight : l.sourceCropi.bottom - l.sourceCropi.top =
    l.displayFrame.bottom - l.displayFrame.top
  cropLeft : 0 ≤ l.sourceCropi.left
  cropTop : 0 ≤ l.sourceCropi.top
  left : 0 ≤ l.displayFrame.left
  top : 0 ≤ l.displayFrame.top
  right : l.displayFrame.right ≤ hwc.width
  bottom : l.displayFrame.bottom ≤ hwc.height
  asked : hwc.geQuery = true

end Law

section Checked

variable {hwc : Device} {halFmt : Option Int} {l : Layer}

theorem guards_of_examined {α : Type} (h : Examined l) (gles tests : α) :
    (if l.flags &&& HWC_SKIP_LAYER ≠ 0 then gles
      else if l.handle = none then gles
      else if l.transform ≠ 0 then gles
      else if l.blending ≠ HWC_BLENDING_NONE ∧ l.blending ≠ HWC_BLENDING_PREMULT ∧
        l.blending ≠ HWC_BLENDING_COVERAGE then gles
      else tests) = tests := by
  have hblending : ¬ (l.blending ≠ HWC_BLENDING_NONE ∧ l.blending ≠ HWC_BLENDING_PREMULT ∧
      l.blending ≠ HWC_BLENDING_COVERAGE) := by
    have hsome := h.blending
    tauto
  rw [if_neg (not_not.mpr h.shown), if_neg h.handle, if_neg (not_not.mpr h.upright),
    if_neg hblending]

theorem guards_of_not_examined {α : Type} (h : ¬ Examined l) (gles tests : α) :
    (if l.flags &&& HWC_SKIP_LAYER ≠ 0 then gles
      else if l.handle = none then gles
      else if l.transform ≠ 0 then gles
      else if l.blending ≠ HWC_BLENDING_NONE ∧ l.blending ≠ HWC_BLENDING_PREMULT ∧
        l.blending ≠ HWC_BLENDING_COVERAGE then gles
      else tests) = gles := by
  split_ifs with hflags hhandle htransform hblending
  · rfl
  · rfl
  · rfl
  · rfl
  · refine absurd ⟨not_not.mp hflags, hhandle, not_not.mp htransform, ?_⟩ h
    tauto

theorem layerFitsOverlay_of_examined (h : Examined l) :
    layerFitsOverlay hwc halFmt l = overlayTests hwc halFmt l
      (wrapInt 32 (l.sourceCropi.right - l.sourceCropi.left))
      (wrapInt 32 (l.sourceCropi.bottom - l.sourceCropi.top))
      (wrapInt 32 (l.displayFrame.right - l.displayFrame.left))
      (wrapInt 32 (l.displayFrame.bottom - l.displayFrame.top)) :=
  guards_of_examined h 0 _

theorem examined_of_fits (hfits : layerFitsOverlay hwc halFmt l ≠ 0) : Examined l := by
  by_contra h
  exact hfits (guards_of_not_examined h 0 _)

/-- The wrapped differences are the differences if they fit. -/
theorem layerFitsOverlay_of_fit (h : Examined l) (hfit : DifferencesFit l) :
    layerFitsOverlay hwc halFmt l = overlayTests hwc halFmt l
      (l.sourceCropi.right - l.sourceCropi.left) (l.sourceCropi.bottom - l.sourceCropi.top)
      (l.displayFrame.right - l.displayFrame.left)
      (l.displayFrame.bottom - l.displayFrame.top) := by
  rw [layerFitsOverlay_of_examined h, (wrapInt_32_eq_iff _).mpr hfit.sw,
    (wrapInt_32_eq_iff _).mpr hfit.sh, (wrapInt_32_eq_iff _).mpr hfit.dw,
    (wrapInt_32_eq_iff _).mpr hfit.dh]

theorem checkedInt_bind_eq_some_iff {x v : Int} {f : Int → Option Int} :
    checkedInt 32 x >>= f = some v ↔ FitsInt x ∧ f x = some v := by
  rw [Option.bind_eq_bind, Option.bind_eq_some_iff]
  constructor
  · rintro ⟨y, hy, hf⟩
    obtain ⟨hwrap, rfl⟩ := checkedInt_eq_some_iff.mp hy
    exact ⟨(wrapInt_32_eq_iff _).mp hwrap, hf⟩
  · rintro ⟨hfits, hf⟩
    exact ⟨x, checkedInt_eq_some_iff.mpr ⟨(wrapInt_32_eq_iff _).mpr hfits, rfl⟩, hf⟩

/-- Only the layers that pass the first tests reach the subtractions. -/
theorem layerFitsOverlayChecked_eq_some_iff {v : Int} :
    layerFitsOverlayChecked hwc halFmt l = some v ↔
      (Examined l → DifferencesFit l) ∧ layerFitsOverlay hwc halFmt l = v := by
  by_cases h : Examined l
  · have hchecked : layerFitsOverlayChecked hwc halFmt l = do
        let sw ← checkedInt 32 (l.sourceCropi.right - l.sourceCropi.left)
        let sh ← checkedInt 32 (l.sourceCropi.bottom - l.sourceCropi.top)
        let dw ← checkedInt 32 (l.displayFrame.right - l.displayFrame.left)
        let dh ← checkedInt 32 (l.displayFrame.bottom - l.displayFrame.top)
        return overlayTests hwc halFmt l sw sh dw dh := guards_of_examined h (some 0) _
    rw [hchecked]
    simp only [checkedInt_bind_eq_some_iff]
    constructor
    · rintro ⟨hsw, hsh, hdw, hdh, hrun⟩
      have hfit : DifferencesFit l := ⟨hsw, hsh, hdw, hdh⟩
      refine ⟨fun _ => hfit, ?_⟩
      rw [layerFitsOverlay_of_fit h hfit]
      exact Option.some.inj hrun
    · rintro ⟨hfit, hv⟩
      have hfit := hfit h
      rw [layerFitsOverlay_of_fit h hfit] at hv
      exact ⟨hfit.sw, hfit.sh, hfit.dw, hfit.dh, congrArg some hv⟩
  · have hchecked : layerFitsOverlayChecked hwc halFmt l = some 0 :=
      guards_of_not_examined h (some 0) _
    have hplain : layerFitsOverlay hwc halFmt l = 0 := guards_of_not_examined h 0 _
    rw [hchecked, hplain, Option.some.injEq]
    exact (and_iff_right (fun hexamined => absurd hexamined h)).symm

theorem layerFitsOverlayChecked_ne_none_iff :
    layerFitsOverlayChecked hwc halFmt l ≠ none ↔ (Examined l → DifferencesFit l) := by
  rw [Option.ne_none_iff_exists']
  simp only [layerFitsOverlayChecked_eq_some_iff, exists_and_left, exists_eq', and_true]

/-- Where no subtraction overflows, a layer fits if it is placed and has a format that the
panel can show. -/
theorem layerFitsOverlay_ne_zero_iff (hwidth : hwc.width ≤ 65535) (hheight : hwc.height ≤ 65535)
    (hexamined : Examined l) (hfit : DifferencesFit l) :
    layerFitsOverlay hwc halFmt l ≠ 0 ↔
      Placed hwc l ∧ ∃ format, halFmt = some format ∧ mapHalFormat format ≠ 0 := by
  rw [layerFitsOverlay_of_fit hexamined hfit]
  unfold overlayTests
  rw [wrapInt_32_of_range (by omega) (by omega), wrapInt_32_of_range (by omega) (by omega)]
  split_ifs with hsize hcrop hframe hquery
  · simp only [ne_eq, not_true_eq_false, false_iff]
    rintro ⟨hplaced, -⟩
    have hwide := hplaced.wide
    have hhigh := hplaced.high
    have hsameWidth := hplaced.sameWidth
    have hsameHeight := hplaced.sameHeight
    omega
  · simp only [ne_eq, not_true_eq_false, false_iff]
    rintro ⟨hplaced, -⟩
    have hcropLeft := hplaced.cropLeft
    have hcropTop := hplaced.cropTop
    omega
  · simp only [ne_eq, not_true_eq_false, false_iff]
    rintro ⟨hplaced, -⟩
    have hleft := hplaced.left
    have htop := hplaced.top
    have hright := hplaced.right
    have hbottom := hplaced.bottom
    omega
  · simp only [ne_eq, not_true_eq_false, false_iff]
    rintro ⟨hplaced, -⟩
    rw [hplaced.asked] at hquery
    cases hquery
  · have hplaced : Placed hwc l := by
      push Not at hsize hcrop hframe
      obtain ⟨hwide, hhigh, hsameWidth, hsameHeight⟩ := hsize
      obtain ⟨hleft, htop, hright, hbottom⟩ := hframe
      exact ⟨hwide, hhigh, hsameWidth, hsameHeight, hcrop.1, hcrop.2, hleft, htop, hright,
        hbottom, Bool.not_eq_false _ ▸ hquery⟩
    cases halFmt with
    | none => simp
    | some format => simp [hplaced]

end Checked

section Planes

variable {hwc : Device} {l : Layer}

theorem u16_eq_iff (x : Int) : (u16 x : Int) = x ↔ 0 ≤ x ∧ x ≤ 65535 := by
  unfold u16
  omega

/-- The panel bounds all that is stored of a placed layer but its crop offset. -/
theorem stored_layerPlane_iff (hwidth : hwc.width ≤ 65535) (hheight : hwc.height ≤ 65535)
    (hplaced : Placed hwc l) (fmt : Int) (handle : Handle) :
    Stored l (layerPlane fmt handle l) ↔
      l.sourceCropi.left ≤ 65535 ∧ l.sourceCropi.top ≤ 65535 := by
  obtain ⟨hwide, hhigh, hsameWidth, hsameHeight, hcropLeft, hcropTop, hleft, htop, hright,
    hbottom, -⟩ := hplaced
  constructor
  · intro hstored
    exact ⟨((u16_eq_iff _).mp hstored.sx).2, ((u16_eq_iff _).mp hstored.sy).2⟩
  · rintro ⟨hx, hy⟩
    constructor
    · exact (u16_eq_iff _).mpr ⟨hcropLeft, hx⟩
    · exact (u16_eq_iff _).mpr ⟨hcropTop, hy⟩
    · exact (u16_eq_iff _).mpr (by omega)
    · exact (u16_eq_iff _).mpr (by omega)
    · exact (u16_eq_iff _).mpr (by omega)
    · exact (u16_eq_iff _).mpr (by omega)

/-- A plane of the loop shows an overlay that fits, even where the loop has no room for
all of them. -/
theorem mem_promote {ge : Nat → Option Int} {i n j : Nat} {p : Plane} {layers : List Layer}
    (h : (j, p) ∈ (promote hwc ge i n layers).planes) :
    ∃ l handle, (l, j) ∈ layers.zipIdx i ∧ layerFitsOverlay hwc (ge j) l ≠ 0 ∧
      p = layerPlane (layerFitsOverlay hwc (ge j) l) handle l := by
  induction layers generalizing i n with
  | nil => exact absurd h List.not_mem_nil
  | cons l rest ih =>
      rw [List.zipIdx_cons]
      unfold promote at h
      split_ifs at h with hfull hoverlay
      · exact absurd h List.not_mem_nil
      · obtain ⟨l', handle, hmem, hplane⟩ := ih h
        exact ⟨l', handle, List.mem_cons_of_mem _ hmem, hplane⟩
      · dsimp only at h
        split at h
        case h_1 handle hhandle hfits =>
          rcases List.mem_cons.mp h with heq | h
          · obtain ⟨rfl, rfl⟩ := Prod.mk.inj heq
            exact ⟨l, handle, List.mem_cons_self, of_decide_eq_false hfits, rfl⟩
          · obtain ⟨l', handle', hmem, hplane⟩ := ih h
            exact ⟨l', handle', List.mem_cons_of_mem _ hmem, hplane⟩
        case h_2 =>
          obtain ⟨l', handle', hmem, hplane⟩ := ih h
          exact ⟨l', handle', List.mem_cons_of_mem _ hmem, hplane⟩

/-- The plane of an overlay is made of what fits. -/
theorem plane_of_overlay {ge : Nat → Option Int} {io : SubmitIo} {layers : List Layer} {i : Nat}
    {p : Plane} (hl : layers[i]? = some l) (hoverlay : isOverlay l = true)
    (hp : (i, p) ∈ (fhwcSet hwc ge io layers).planes) :
    layerFitsOverlay hwc (ge i) l ≠ 0 ∧
      ∃ handle, p = layerPlane (layerFitsOverlay hwc (ge i) l) handle l := by
  rw [fhwcSet_planes] at hp
  by_cases hnone : layers.any isFramebuffer = true ∧ fbtTarget hwc layers = none
  · rw [if_pos hnone] at hp
    exact absurd hp List.not_mem_nil
  · rw [if_neg hnone] at hp
    rcases List.mem_append.mp hp with hfirst | hpromoted
    · -- the first plane belongs to a target, which is no overlay
      split_ifs at hfirst with hgles
      · obtain ⟨k, hfind, hrest⟩ := Option.bind_eq_some_iff.mp (Option.mem_toList.mp hfirst)
        obtain ⟨t, ht, htarget⟩ := findFbt_isTarget hfind
        obtain ⟨t', ht', hrest⟩ := Option.bind_eq_some_iff.mp hrest
        obtain ⟨handle, -, heq⟩ := Option.bind_eq_some_iff.mp hrest
        obtain ⟨rfl, -⟩ := Prod.mk.inj (Option.some.inj heq)
        rw [hl] at ht
        cases ht
        have htype : l.compositionType = .overlay := by simpa [isOverlay] using hoverlay
        simp [isTarget, isReal, htype] at htarget
      · exact absurd hfirst List.not_mem_nil
    · obtain ⟨l', handle, hmem, hfits, hplane⟩ := mem_promote hpromoted
      have hl' : layers[i]? = some l' := List.mk_mem_zipIdx_iff_getElem?.mp hmem
      rw [hl] at hl'
      cases hl'
      exact ⟨hfits, handle, hplane⟩

theorem plane_alone (ge : Nat → Option Int) (io : SubmitIo) (hoverlay : isOverlay l = true)
    (hfits : layerFitsOverlay hwc (ge 0) l ≠ 0) :
    ∃ handle, (0, layerPlane (layerFitsOverlay hwc (ge 0) l) handle l) ∈
      (fhwcSet hwc ge io [l]).planes := by
  obtain ⟨handle, hhandle⟩ := handle_of_fits hfits
  have htype : l.compositionType = .overlay := by simpa [isOverlay] using hoverlay
  refine ⟨handle, ?_⟩
  rw [fhwcSet_planes]
  simp [promote, isFramebuffer, htype, hhandle, hfits]

end Planes

section Main

variable (hwc : Device) (l : Layer)

/-- The geometry of a layer is kept exactly when the subtractions that are reached do not
overflow, and its crop starts within `uint16_t` if it is placed. -/
theorem geometryLaw_iff (hwidth : hwc.width ≤ 65535) (hheight : hwc.height ≤ 65535) :
    GeometryLaw hwc l ↔ (Examined l → DifferencesFit l ∧
      (Placed hwc l → l.sourceCropi.left ≤ 65535 ∧ l.sourceCropi.top ≤ 65535)) := by
  constructor
  · intro hlaw hexamined
    have hfit := layerFitsOverlayChecked_ne_none_iff.mp (hlaw.computed none) hexamined
    refine ⟨hfit, ?_⟩
    intro hplaced
    -- a frame of this layer alone shows it
    have hfits : layerFitsOverlay hwc (some 1) { l with compositionType := .overlay } ≠ 0 :=
      (layerFitsOverlay_ne_zero_iff hwidth hheight hexamined hfit).mpr
        ⟨hplaced, 1, rfl, by decide⟩
    obtain ⟨handle, hplane⟩ := plane_alone (fun _ => some 1) goodIo rfl hfits
    have hstored := hlaw.stored (fun _ => some 1) goodIo _ 0 _ rfl hplane
    exact (stored_layerPlane_iff hwidth hheight hplaced _ _).mp hstored
  · intro h
    constructor
    · intro halFmt
      exact layerFitsOverlayChecked_ne_none_iff.mpr (fun hexamined => (h hexamined).1)
    · intro ge io layers i p hl hp
      obtain ⟨hfits, handle, rfl⟩ := plane_of_overlay hl rfl hp
      have hsame : layerFitsOverlay hwc (ge i) l ≠ 0 := hfits
      have hexamined := examined_of_fits hsame
      obtain ⟨hfit, hoffset⟩ := h hexamined
      have hplaced : Placed hwc l :=
        ((layerFitsOverlay_ne_zero_iff hwidth hheight hexamined hfit).mp hsame).1
      exact (stored_layerPlane_iff hwidth hheight hplaced _ _).mpr (hoffset hplaced)

/-- A full-screen layer keeps its geometry. -/
theorem geometryLaw_screen : GeometryLaw panel (screenLayer .framebuffer) := by
  apply (geometryLaw_iff panel (screenLayer .framebuffer) (by decide) (by decide)).mpr
  intro _
  refine ⟨⟨?_, ?_, ?_, ?_⟩, fun _ => ?_⟩
  · simp [FitsInt, screenLayer]
  · simp [FitsInt, screenLayer]
  · simp [FitsInt, screenLayer]
  · simp [FitsInt, screenLayer]
  · simp [screenLayer]

/-- A full-screen layer with these columns of its buffer. -/
def columns (left right : Int) : Layer :=
  { screenLayer .overlay with sourceCropi := ⟨left, 0, right, 1280⟩ }

/-- A crop from -1 to the largest `int` overflows the first subtraction, and one that
starts at column 65536 is accepted and shown from column 0. -/
theorem geometryLaw_fails :
    layerFitsOverlayChecked panel (some 1) (columns (-1) 2147483647) = none ∧
      ¬ GeometryLaw panel (columns (-1) 2147483647) ∧
      (fhwcSet panel (fun _ => some 1) goodIo [columns 65536 66256]).planes.map
        (fun e => e.2.sx) = [0] ∧
      ¬ GeometryLaw panel (columns 65536 66256) := by
  refine ⟨by decide, ?_, by decide, ?_⟩
  · intro hlaw
    exact hlaw.computed (some 1) (by decide)
  · intro hlaw
    have hfits : layerFitsOverlay panel (some 1) (columns 65536 66256) ≠ 0 := by decide
    obtain ⟨handle, hplane⟩ := plane_alone (fun _ => some 1) goodIo rfl hfits
    have hstored := (hlaw.stored (fun _ => some 1) goodIo _ 0 _ rfl hplane).sx
    exact absurd ((u16_eq_iff 65536).mp hstored).2 (by decide)

end Main

end MeizuM5c.Hwc
