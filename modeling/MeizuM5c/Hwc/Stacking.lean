import MeizuM5c.Hwc.Prepare
import MeizuM5c.Hwc.Submit
import MeizuM5c.Lib.Stack

/-!
`fhwc_set` shows what `fhwc_prepare` planned: the planes are the GLES result,
if there is one, and then every overlay in list order, and stacked they give
the same picture as all the layers of the client.
-/

namespace MeizuM5c.Hwc

open Lib

section Lists

theorem mem_indicesFrom_zero {kind : Layer → Bool} {layers : List Layer} {i : Nat} :
    i ∈ indicesFrom 0 kind layers ↔ ∃ l, layers[i]? = some l ∧ kind l = true := by
  simp only [indicesFrom, List.mem_map, List.mem_filter, Prod.exists]
  constructor
  · rintro ⟨l, j, ⟨hmem, hkind⟩, rfl⟩
    exact ⟨l, by simpa using List.mk_mem_zipIdx_iff_getElem?.mp hmem, hkind⟩
  · rintro ⟨l, hl, hkind⟩
    exact ⟨l, i, ⟨List.mk_mem_zipIdx_iff_getElem?.mpr hl, hkind⟩, rfl⟩

private theorem foldl_fbt (layers : List Layer) (i : Nat) (fbt : Option Nat) :
    (layers.zipIdx i).foldl (fun fbt e => if isReal e.1 then fbt else some e.2) fbt =
      ((indicesFrom i isTarget layers).getLast?).or fbt := by
  induction layers generalizing i fbt with
  | nil => cases fbt <;> rfl
  | cons l above ih =>
      rw [List.zipIdx_cons, List.foldl_cons, ih, indicesFrom_cons]
      by_cases hreal : isReal l = true
      · simp [isTarget, hreal]
      · cases hlast : (indicesFrom (i + 1) isTarget above).getLast? with
        | none => simp [isTarget, hreal, List.getLast?_cons, hlast]
        | some j => simp [isTarget, hreal, List.getLast?_cons, hlast]

theorem findFbt_eq (layers : List Layer) :
    findFbt layers = (indicesFrom 0 isTarget layers).getLast? := by
  rw [findFbt, foldl_fbt, Option.or_none]

theorem findFbt_isTarget {layers : List Layer} {i : Nat} (h : findFbt layers = some i) :
    ∃ l, layers[i]? = some l ∧ isTarget l = true := by
  rw [findFbt_eq] at h
  exact mem_indicesFrom_zero.mp (List.mem_of_getLast? h)

end Lists

/-- Only a layer with a buffer fits. -/
theorem handle_of_fits {hwc : Device} {halFmt : Option Int} {l : Layer}
    (h : layerFitsOverlay hwc halFmt l ≠ 0) : ∃ handle, l.handle = some handle := by
  cases hhandle : l.handle with
  | some handle => exact ⟨handle, rfl⟩
  | none =>
      refine absurd ?_ h
      unfold layerFitsOverlay
      simp only [hhandle]
      split <;> simp

/-- The induction rule of the loop over the promoted layers, where there is
room for all of them: it stops, passes over a layer, makes a plane of an
overlay, or drops one that no longer fits. -/
theorem promote_induct {hwc : Device} {ge : Nat → Option Int}
    {motive : Nat → List Layer → Promoted → Prop}
    (stop : ∀ i layers, layers.countP isOverlay = 0 → motive i layers ⟨[], layers, []⟩)
    (pass : ∀ i l rest r, ¬ isOverlay l = true → motive (i + 1) rest r →
      motive i (l :: rest) { r with layers := l :: r.layers })
    (plane : ∀ i l rest r handle, isOverlay l = true → l.handle = some handle →
      motive (i + 1) rest r → motive i (l :: rest)
        { r with planes := (i, layerPlane (layerFitsOverlay hwc (ge i) l) handle l) :: r.planes
                 layers := l :: r.layers })
    (drop : ∀ i l rest r, isOverlay l = true → layerFitsOverlay hwc (ge i) l = 0 →
      motive (i + 1) rest r → motive i (l :: rest)
        { r with layers := { l with acquireFenceFd := none } :: r.layers
                 closed := l.acquireFenceFd.toList ++ r.closed })
    (i n : Nat) (layers : List Layer) (hroom : n + layers.countP isOverlay ≤ 4) :
    motive i layers (promote hwc ge i n layers) := by
  induction layers generalizing i n with
  | nil => exact stop i [] rfl
  | cons l rest ih =>
      unfold promote
      by_cases hoverlay : isOverlay l = true
      · have htype : l.compositionType = .overlay := by simpa [isOverlay] using hoverlay
        rw [List.countP_cons_of_pos hoverlay] at hroom
        rw [if_neg (by omega), if_neg (by simp [htype])]
        by_cases hfits : layerFitsOverlay hwc (ge i) l = 0
        · simp only [hfits, decide_true]
          split
          case h_1 hfalse => cases hfalse
          case h_2 => exact drop i l rest _ hoverlay hfits (ih (i + 1) n (by omega))
        · obtain ⟨handle, hhandle⟩ := handle_of_fits hfits
          simp only [hhandle, hfits, decide_false]
          exact plane i l rest _ handle hoverlay hhandle (ih (i + 1) (n + 1) (by omega))
      · have htype : l.compositionType ≠ .overlay := by simpa [isOverlay] using hoverlay
        by_cases hfull : 4 ≤ n
        · -- no room left, and no overlay either
          rw [if_pos hfull]
          apply stop
          omega
        · rw [List.countP_cons_of_neg hoverlay] at hroom
          rw [if_neg hfull, if_pos htype]
          exact pass i l rest _ hoverlay (ih (i + 1) n hroom)

/-- When every overlay fits and there is room, the loop makes one plane of
each of them, in list order. -/
theorem promote_of_fits (hwc : Device) (ge : Nat → Option Int) (i n : Nat)
    (layers : List Layer) (hroom : n + layers.countP isOverlay ≤ 4)
    (hfits : ∀ l j, (l, j) ∈ layers.zipIdx i → isOverlay l = true →
      layerFitsOverlay hwc (ge j) l ≠ 0) :
    let r := promote hwc ge i n layers
    r.planes.map Prod.fst = indicesFrom i isOverlay layers ∧
      ∀ e ∈ r.planes, ∃ l handle, (l, e.1) ∈ layers.zipIdx i ∧ l.handle = some handle ∧
        e.2 = layerPlane (layerFitsOverlay hwc (ge e.1) l) handle l := by
  revert hfits
  apply promote_induct (motive := fun i layers r =>
    (∀ l j, (l, j) ∈ layers.zipIdx i → isOverlay l = true →
      layerFitsOverlay hwc (ge j) l ≠ 0) →
    r.planes.map Prod.fst = indicesFrom i isOverlay layers ∧
      ∀ e ∈ r.planes, ∃ l handle, (l, e.1) ∈ layers.zipIdx i ∧ l.handle = some handle ∧
        e.2 = layerPlane (layerFitsOverlay hwc (ge e.1) l) handle l) _ _ _ _ i n layers hroom
  · intro i layers hnone _
    refine ⟨?_, by simp⟩
    symm
    simp only [indicesFrom, List.map_nil, List.map_eq_nil_iff, List.filter_eq_nil_iff]
    intro e he
    exact List.countP_eq_zero.mp hnone e.1 (List.fst_mem_of_mem_zipIdx he)
  · intro i l rest r hno ih hfits
    rw [List.zipIdx_cons] at hfits
    obtain ⟨hidx, hplanes⟩ := ih (fun l' j hmem => hfits l' j (List.mem_cons_of_mem _ hmem))
    refine ⟨?_, ?_⟩
    · rw [indicesFrom_cons, if_neg hno]
      exact hidx
    · intro e he
      obtain ⟨l', handle', hmem, h⟩ := hplanes e he
      rw [List.zipIdx_cons]
      exact ⟨l', handle', List.mem_cons_of_mem _ hmem, h⟩
  · intro i l rest r handle hoverlay hhandle ih hfits
    rw [List.zipIdx_cons] at hfits
    obtain ⟨hidx, hplanes⟩ := ih (fun l' j hmem => hfits l' j (List.mem_cons_of_mem _ hmem))
    refine ⟨?_, ?_⟩
    · rw [List.map_cons, hidx, indicesFrom_cons, if_pos hoverlay]
      rfl
    · intro e he
      rw [List.zipIdx_cons]
      rcases List.mem_cons.mp he with rfl | he
      · exact ⟨l, handle, List.mem_cons_self, hhandle, rfl⟩
      · obtain ⟨l', handle', hmem, h⟩ := hplanes e he
        exact ⟨l', handle', List.mem_cons_of_mem _ hmem, h⟩
  · intro i l rest r hoverlay hnot _ hfits
    rw [List.zipIdx_cons] at hfits
    exact absurd hnot (hfits l i List.mem_cons_self hoverlay)

section Target

variable {layers : List Layer}

theorem length_indicesFrom (i : Nat) (kind : Layer → Bool) (layers : List Layer) :
    (indicesFrom i kind layers).length = layers.countP kind := by
  induction layers generalizing i with
  | nil => rfl
  | cons l above ih =>
      rw [indicesFrom_cons, List.length_append, ih, List.countP_cons]
      split <;> simp [Nat.add_comm]

/-- With at most one target entry, the loop of `fhwc_set` finds it. -/
theorem findFbt_of_one (hone : layers.countP isTarget ≤ 1) {i : Nat} {l : Layer}
    (hl : layers[i]? = some l) (htarget : isTarget l = true) :
    findFbt layers = some i ∧ indicesFrom 0 isTarget layers = [i] := by
  have hmem : i ∈ indicesFrom 0 isTarget layers := mem_indicesFrom_zero.mpr ⟨l, hl, htarget⟩
  have hlen := length_indicesFrom 0 isTarget layers
  rw [findFbt_eq]
  match hidx : indicesFrom 0 isTarget layers with
  | [] =>
      rw [hidx] at hmem
      cases hmem
  | [j] =>
      rw [hidx, List.mem_singleton] at hmem
      rw [hmem]
      exact ⟨rfl, rfl⟩
  | j :: k :: rest =>
      rw [hidx, List.length_cons, List.length_cons] at hlen
      omega

end Target

/-- The planes of the loop over a whole list, each with its layer. -/
theorem promote_overlays (hwc : Device) (ge : Nat → Option Int) (n : Nat) (d : List Layer)
    (hroom : n + d.countP isOverlay ≤ 4)
    (hfits : ∀ i l, d[i]? = some l → isOverlay l = true → layerFitsOverlay hwc (ge i) l ≠ 0) :
    (promote hwc ge 0 n d).planes.map Prod.fst = indicesFrom 0 isOverlay d ∧
      ∀ e ∈ (promote hwc ge 0 n d).planes, ∃ l handle, d[e.1]? = some l ∧
        l.handle = some handle ∧
        e.2 = if isTarget l then fbtPlane hwc handle l.acquireFenceFd
          else layerPlane (layerFitsOverlay hwc (ge e.1) l) handle l := by
  obtain ⟨hidx, hplanes⟩ := promote_of_fits hwc ge 0 n d hroom
    (fun l j hmem => hfits j l (List.mk_mem_zipIdx_iff_getElem?.mp hmem))
  refine ⟨hidx, ?_⟩
  intro e he
  obtain ⟨l, handle, hmem, hhandle, heq⟩ := hplanes e he
  have hl : d[e.1]? = some l := List.mk_mem_zipIdx_iff_getElem?.mp hmem
  have hin : e.1 ∈ indicesFrom 0 isOverlay d := by
    rw [← hidx]
    exact List.mem_map_of_mem he
  obtain ⟨l', hl', hoverlay⟩ := mem_indicesFrom_zero.mp hin
  rw [hl] at hl'
  cases hl'
  have htype : l.compositionType = .overlay := by simpa [isOverlay] using hoverlay
  have htarget : isTarget l = false := by simp [isTarget, isReal, htype]
  refine ⟨l, handle, hl, hhandle, ?_⟩
  rw [htarget]
  exact heq

/-- The picture of a plane: the target stands for the layers left to GLES. -/
def planeImage {α : Type} (op : α → α → α) (image : Nat → α) (layers : List Layer)
    (i : Nat) : Option α :=
  if (layers[i]?).any isTarget then
    stack op ((indicesFrom 0 isFramebuffer layers).map (fun j => some (image j)))
  else some (image i)

/-- The planes that `fhwc_set` hands on for a prepared list. -/
theorem set_planes_of_prepared (hwc : Device) (ge : Nat → Option Int) (io : SubmitIo)
    (d : List Layer)
    (hroom : d.countP isOverlay + (if d.any isFramebuffer then 1 else 0) ≤ 4)
    (hfits : ∀ i l, d[i]? = some l → isOverlay l = true → layerFitsOverlay hwc (ge i) l ≠ 0)
    (hone : d.countP isTarget ≤ 1)
    (hfbt : d.any isFramebuffer = true → ∃ l ∈ d, isTarget l = true ∧ l.handle ≠ none) :
    (fhwcSet hwc ge io d).planes.map Prod.fst =
        (if d.any isFramebuffer then indicesFrom 0 isTarget d else []) ++
          indicesFrom 0 isOverlay d ∧
      ∀ e ∈ (fhwcSet hwc ge io d).planes, ∃ l handle, d[e.1]? = some l ∧
        l.handle = some handle ∧
        e.2 = if isTarget l then fbtPlane hwc handle l.acquireFenceFd
          else layerPlane (layerFitsOverlay hwc (ge e.1) l) handle l := by
  have hgles : (d.any (fun l => decide (l.compositionType = .framebuffer))) =
      d.any isFramebuffer := rfl
  unfold fhwcSet
  simp only [hgles]
  cases hany : d.any isFramebuffer with
  | false =>
      obtain ⟨hidx, hplanes⟩ := promote_overlays hwc ge 0 d (by omega) hfits
      simp only [Bool.false_eq_true, false_and, if_false, List.length_nil, List.nil_append]
      generalize promote hwc ge 0 0 d = r at hidx hplanes
      split
      · rename_i hnil
        rw [hnil] at hidx
        exact ⟨hidx, by simp⟩
      · exact ⟨hidx, hplanes⟩
  | true =>
      rw [hany] at hroom
      rw [if_pos rfl] at hroom
      obtain ⟨hidx, hplanes⟩ := promote_overlays hwc ge 1 d (by omega) hfits
      obtain ⟨t, ht, htarget, hhandle⟩ := hfbt hany
      obtain ⟨k, hk⟩ := List.mem_iff_getElem?.mp ht
      obtain ⟨handle, hhandle⟩ := Option.ne_none_iff_exists'.mp hhandle
      obtain ⟨hfind, htargets⟩ := findFbt_of_one hone hk htarget
      have hplane : fbtTarget hwc d = some (k, fbtPlane hwc handle t.acquireFenceFd) := by
        simp [fbtTarget, hfind, hk, hhandle]
      simp only [hplane, reduceCtorEq, and_false, if_false, if_true, Option.toList_some,
        List.length_singleton, List.singleton_append, htargets]
      generalize promote hwc ge 0 1 d = r at hidx hplanes
      refine ⟨by rw [List.map_cons, hidx], ?_⟩
      intro e he
      rcases List.mem_cons.mp he with rfl | he
      · exact ⟨t, handle, hk, hhandle, by rw [if_pos htarget]⟩
      · exact hplanes e he

/-- Stacked, the planes show what the client's layers show. -/
theorem stack_planes {α : Type} {op : α → α → α}
    (hassoc : ∀ a b c, op (op a b) c = op a (op b c)) (image : Nat → α) (d : List Layer)
    (hone : d.countP isTarget ≤ 1)
    (hfbt : d.any isFramebuffer = true → ∃ l ∈ d, isTarget l = true ∧ l.handle ≠ none)
    (hreal : indicesFrom 0 isReal d =
      indicesFrom 0 isFramebuffer d ++ indicesFrom 0 isOverlay d) :
    stack op (((if d.any isFramebuffer then indicesFrom 0 isTarget d else []) ++
        indicesFrom 0 isOverlay d).map (planeImage op image d)) =
      stack op ((indicesFrom 0 isReal d).map (fun i => some (image i))) := by
  have hoverlays : (indicesFrom 0 isOverlay d).map (planeImage op image d) =
      (indicesFrom 0 isOverlay d).map (fun i => some (image i)) := by
    refine List.map_congr_left ?_
    intro i hi
    obtain ⟨l, hl, hoverlay⟩ := mem_indicesFrom_zero.mp hi
    have htype : l.compositionType = .overlay := by simpa [isOverlay] using hoverlay
    simp [planeImage, hl, isTarget, isReal, htype]
  rw [hreal, List.map_append, List.map_append, hoverlays]
  cases hany : d.any isFramebuffer with
  | false =>
      have hnil : indicesFrom 0 isFramebuffer d = [] := by
        rw [List.eq_nil_iff_forall_not_mem]
        intro i hi
        obtain ⟨l, hl, hfb⟩ := mem_indicesFrom_zero.mp hi
        have htrue : d.any isFramebuffer = true :=
          List.any_eq_true.mpr ⟨l, List.mem_of_getElem? hl, hfb⟩
        rw [hany] at htrue
        cases htrue
      rw [hnil]
      rfl
  | true =>
      obtain ⟨t, ht, htarget, _⟩ := hfbt hany
      obtain ⟨k, hk⟩ := List.mem_iff_getElem?.mp ht
      rw [if_pos rfl, (findFbt_of_one hone hk htarget).2, List.map_singleton,
        stack_append hassoc, stack_append hassoc, stack_singleton]
      simp [planeImage, hk, htarget]

/-- For every layer list with at most one target, whatever the properties and
the query library say, if the two passes get the same answers. -/
theorem set_shows_prepared (hwc : Device) (ge ge' : Nat → Option Int)
    (overlays maxplanes : Int) (io : SubmitIo) (layers d : List Layer)
    (hprepare : d = fhwcPrepare hwc ge overlays maxplanes layers)
    (hsame : ∀ i l, layers[i]? = some l →
      layerFitsOverlay hwc (ge i) l = layerFitsOverlay hwc (ge' i) l)
    (hone : layers.countP isTarget ≤ 1)
    (hfbt : d.any isFramebuffer = true → ∃ l ∈ d, isTarget l = true ∧ l.handle ≠ none) :
    (fhwcSet hwc ge' io d).planes.map Prod.fst =
        (if d.any isFramebuffer then indicesFrom 0 isTarget d else []) ++
          indicesFrom 0 isOverlay d ∧
      (∀ e ∈ (fhwcSet hwc ge' io d).planes, ∃ l handle, d[e.1]? = some l ∧
        l.handle = some handle ∧
        e.2 = if isTarget l then fbtPlane hwc handle l.acquireFenceFd
          else layerPlane (layerFitsOverlay hwc (ge' e.1) l) handle l) ∧
      ∀ (α : Type) (op : α → α → α), (∀ a b c, op (op a b) c = op a (op b c)) →
        ∀ image : Nat → α,
          stack op ((fhwcSet hwc ge' io d).planes.map (fun e => planeImage op image d e.1)) =
            stack op ((indicesFrom 0 isReal d).map (fun i => some (image i))) := by
  have hroom := prepare_planes_le hwc ge overlays maxplanes layers
  have hfits : ∀ i l, d[i]? = some l → isOverlay l = true →
      layerFitsOverlay hwc (ge' i) l ≠ 0 := by
    intro i l hl hoverlay
    rw [hprepare] at hl
    obtain ⟨l₀, hl₀, _, _, hfits⟩ := prepare_getElem? hwc ge overlays maxplanes layers hl
    rw [hfits, ← hsame i l₀ hl₀, ← hfits]
    exact prepare_overlay_fits hwc ge overlays maxplanes layers hl hoverlay
  have hone' : d.countP isTarget ≤ 1 := by
    rw [hprepare, prepare_countP_target]
    exact hone
  rw [← hprepare] at hroom
  obtain ⟨hidx, hplanes⟩ := set_planes_of_prepared hwc ge' io d hroom hfits hone' hfbt
  refine ⟨hidx, hplanes, ?_⟩
  intro α op hassoc image
  obtain ⟨budget, hassign, _⟩ := fhwcPrepare_spec hwc ge overlays maxplanes layers
  have hreal : indicesFrom 0 isReal d =
      indicesFrom 0 isFramebuffer d ++ indicesFrom 0 isOverlay d := by
    rw [hprepare, hassign]
    exact indicesFrom_real_eq_append _ _ 0 0 layers
  rw [← stack_planes hassoc image d hone' hfbt hreal, ← hidx, List.map_map]
  rfl

/-- The panel of the device, with the query library. -/
def panel : Device where
  width := 720
  height := 1280
  geQuery := true

/-- A full-screen layer of the client. -/
def screenLayer (type : CompositionType) : Layer where
  compositionType := type
  handle := some ⟨1, 10⟩
  blending := HWC_BLENDING_PREMULT
  sourceCropi := ⟨0, 0, 720, 1280⟩
  displayFrame := ⟨0, 0, 720, 1280⟩

/-- Every call succeeds and every descriptor is valid. -/
def goodIo : SubmitIo where
  ionFd := fun _ => some 20
  stride := fun _ => some 720
  calloc := true
  prepareInputBuffer := fun k => some (true, k)
  getPresentFence := some (true, 0)
  setInputBuffer := true
  triggerSession := true

/-- Five layers of which the lowest is rotated: the GLES result of two of them
and three overlays. -/
theorem set_shows_prepared_five :
    let layers := { screenLayer .framebuffer with transform := 4 } ::
      List.replicate 4 (screenLayer .framebuffer) ++ [screenLayer .framebufferTarget]
    let ge : Nat → Option Int := fun _ => some 1
    let d := fhwcPrepare panel ge 1 4 layers
    (fhwcSet panel ge goodIo d).planes.map Prod.fst = [5, 2, 3, 4] ∧
      stack (· ++ ·) ((fhwcSet panel ge goodIo d).planes.map
          (fun e => planeImage (· ++ ·) (fun i => [i]) d e.1)) = some [0, 1, 2, 3, 4] := by
  intro layers ge d
  have hlaw := set_shows_prepared panel ge ge 1 4 goodIo layers d rfl (fun _ _ _ => rfl)
    (by decide) (fun _ => ⟨screenLayer .framebufferTarget, by decide, rfl, by decide⟩)
  refine ⟨hlaw.1.trans (by decide), ?_⟩
  rw [hlaw.2.2 (List Nat) (· ++ ·) List.append_assoc (fun i => [i])]
  decide

end MeizuM5c.Hwc
