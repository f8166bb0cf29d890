import Mathlib.Data.List.TakeWhile
import MeizuM5c.Hwc.Stacking

/-!
Which layers `fhwc_prepare` promotes. The overlays are a run of layers at the
top of the list, and its length is stated without the two counting passes: by
the real layers from the top, as long as they are eligible. The cap on the
planes bounds that length, but not the plane of the GLES result that comes
with it.
-/

namespace MeizuM5c.Hwc

section Specification

variable (hwc : Device) (ge : Nat → Option Int) (overlays maxplanes : Int) (layers : List Layer)

/-- The real layers with their indices, the topmost first. -/
def realFromTop : List (Layer × Nat) :=
  (layers.zipIdx.filter (fun e => isReal e.1)).reverse

/-- With overlays off, no layer is eligible. -/
def eligible (e : Layer × Nat) : Bool :=
  overlays != 0 && layerFitsOverlay hwc (ge e.2) e.1 != 0

/-- The longest run of eligible layers from the top. -/
def eligibleRun : Nat := ((realFromTop layers).takeWhile (eligible hwc ge overlays)).length

/-- How many layers may be promoted: all of them if they are at most four, or
three beside the GLES result. -/
def promotable : Nat :=
  if (realFromTop layers).all (eligible hwc ge overlays) = true ∧
      1 ≤ countReal layers ∧ countReal layers ≤ 4 then countReal layers
  else min 3 (eligibleRun hwc ge overlays layers)

/-- How many layers are promoted. -/
def promotedCount : Nat := min (max 0 maxplanes).toNat (promotable hwc ge overlays layers)

/-- What `fhwc_prepare` is to make of a layer list. -/
structure PromotionLaw (after : List Layer) : Prop where
  length : after.length = layers.length
  targets : ∀ (i : Nat) (l : Layer), layers[i]? = some l → isTarget l = true → after[i]? = some l
  others : ∀ (i : Nat) (l : Layer), layers[i]? = some l → isReal l = true →
    after[i]? = some { l with compositionType := .overlay } ∨
      after[i]? = some { l with compositionType := .framebuffer }
  suffix : (after.filter isReal).map Layer.compositionType =
    List.replicate (countReal layers - promotedCount hwc ge overlays maxplanes layers)
        .framebuffer ++
      List.replicate (promotedCount hwc ge overlays maxplanes layers) .overlay
  fits : ∀ (i : Nat) (l : Layer), after[i]? = some l → isOverlay l = true →
    layerFitsOverlay hwc (ge i) l ≠ 0
  planes : after.countP isOverlay + (if after.any isFramebuffer then 1 else 0) ≤ 4

end Specification

section Run

variable (hwc : Device) (ge : Nat → Option Int)

/-- The loop from the top counts the real layers in front of the first one
that does not fit. -/
theorem topRun_eq (layers : List (Layer × Nat)) :
    topRun hwc ge layers = ((layers.filter (fun e => isReal e.1)).takeWhile
      (fun e => layerFitsOverlay hwc (ge e.2) e.1 != 0)).length := by
  induction layers with
  | nil => rfl
  | cons e below ih =>
      obtain ⟨l, i⟩ := e
      unfold topRun
      by_cases hreal : isReal l = true
      · simp only [hreal, if_true, List.filter_cons]
        by_cases hfits : layerFitsOverlay hwc (ge i) l = 0
        · rw [if_pos hfits, List.takeWhile_cons_of_neg (by simpa using hfits), List.length_nil]
        · rw [if_neg hfits, List.takeWhile_cons_of_pos (by simpa using hfits), List.length_cons, ih]
      · simp only [if_neg hreal, List.filter_cons, ih]

variable (overlays : Int) (layers : List Layer)

theorem eligibleRun_eq : eligibleRun hwc ge overlays layers =
    if overlays ≠ 0 then topRun hwc ge layers.zipIdx.reverse else 0 := by
  unfold eligibleRun realFromTop eligible
  by_cases hon : overlays = 0
  · rw [if_neg (not_not.mpr hon), List.length_eq_zero_iff, List.takeWhile_eq_nil_iff]
    intro _
    simp [hon]
  · have htest (e : Layer × Nat) : (overlays != 0 && layerFitsOverlay hwc (ge e.2) e.1 != 0) =
        (layerFitsOverlay hwc (ge e.2) e.1 != 0) := by simp [hon]
    simp only [if_pos hon, topRun_eq, List.filter_reverse, htest]

theorem length_realFromTop : (realFromTop layers).length = countReal layers := by
  rw [realFromTop, List.length_reverse, ← List.countP_eq_length_filter, countReal]
  conv_rhs => rw [← List.zipIdx_map_fst 0 layers, List.countP_map]
  rfl

/-- All layers are eligible exactly when the run reaches the bottom. -/
theorem all_eligible_iff : (realFromTop layers).all (eligible hwc ge overlays) = true ↔
    eligibleRun hwc ge overlays layers = countReal layers := by
  rw [eligibleRun, ← length_realFromTop layers, List.all_eq_true]
  constructor
  · intro hall
    rw [List.takeWhile_eq_self_iff.mpr hall]
  · intro hlength
    rw [← List.takeWhile_eq_self_iff]
    exact (List.takeWhile_prefix _).eq_of_length hlength

theorem eligibleRun_le : eligibleRun hwc ge overlays layers ≤ countReal layers := by
  rw [← length_realFromTop layers]
  exact (List.takeWhile_prefix _).length_le

theorem planeBudget_eq (maxplanes : Int) :
    planeBudget (if overlays ≠ 0 then topRun hwc ge layers.zipIdx.reverse else 0)
        (countReal layers) maxplanes = promotedCount hwc ge overlays maxplanes layers := by
  have hrun := eligibleRun_le hwc ge overlays layers
  simp only [← eligibleRun_eq, planeBudget, promotedCount, promotable, all_eligible_iff]
  generalize eligibleRun hwc ge overlays layers = run at hrun ⊢
  generalize countReal layers = real at hrun ⊢
  split_ifs <;> omega

end Run

section Types

variable (firstOvl budget : Nat)

theorem length_assign (n : Nat) (layers : List Layer) :
    (assign firstOvl budget n layers).length = layers.length := by
  induction layers generalizing n with
  | nil => rfl
  | cons l above ih =>
      unfold assign
      by_cases hreal : isReal l = true
      · rw [if_pos hreal, List.length_cons, List.length_cons, ih]
      · rw [if_neg hreal, List.length_cons, List.length_cons, ih]

theorem assign_types (n : Nat) (layers : List Layer) :
    ((assign firstOvl budget n layers).filter isReal).map Layer.compositionType =
      (List.range' n (countReal layers)).map (fun rank =>
        if firstOvl ≤ rank ∧ 0 < budget then .overlay else .framebuffer) := by
  induction layers generalizing n with
  | nil => rfl
  | cons l above ih =>
      unfold assign
      by_cases hreal : isReal l = true
      · have hpromoted (type : CompositionType) (htype : type ≠ .framebufferTarget) :
            isReal { l with compositionType := type } = true := by
          simpa [isReal] using htype
        have hcount : countReal (l :: above) = countReal above + 1 := List.countP_cons_of_pos hreal
        rw [if_pos hreal, List.filter_cons_of_pos (hpromoted _ (by split_ifs <;> decide)),
          List.map_cons, ih (n + 1), hcount, List.range'_succ, List.map_cons]
      · have hcount : countReal (l :: above) = countReal above := List.countP_cons_of_neg hreal
        rw [if_neg hreal, List.filter_cons_of_neg hreal, ih n, hcount]

theorem map_range'_split {α : Type} (x y : α) {first count : Nat} (h : first ≤ count) :
    (List.range' 0 count).map (fun rank => if first ≤ rank then x else y) =
      List.replicate first y ++ List.replicate (count - first) x := by
  have hsplit : List.range' 0 count = List.range' 0 first ++ List.range' first (count - first) := by
    have happend := @List.range'_append_1 0 first (count - first)
    rw [Nat.zero_add, Nat.add_sub_cancel' h] at happend
    exact happend.symm
  rw [hsplit, List.map_append]
  congr 1
  · rw [List.map_congr_left (g := fun _ => y), List.map_const', List.length_range']
    intro rank hrank
    exact if_neg (by have := List.mem_range'_1.mp hrank; omega)
  · rw [List.map_congr_left (g := fun _ => x), List.map_const', List.length_range']
    intro rank hrank
    exact if_pos (List.mem_range'_1.mp hrank).1

end Types

section Prepare

variable (hwc : Device) (ge : Nat → Option Int) (overlays maxplanes : Int) (layers : List Layer)

theorem promotedCount_le :
    promotedCount hwc ge overlays maxplanes layers ≤ countReal layers := by
  have hrun := eligibleRun_le hwc ge overlays layers
  unfold promotedCount promotable
  split_ifs <;> omega

theorem fhwcPrepare_eq : fhwcPrepare hwc ge overlays maxplanes layers =
    assign (countReal layers - promotedCount hwc ge overlays maxplanes layers)
      (promotedCount hwc ge overlays maxplanes layers) 0 layers := by
  rw [← planeBudget_eq]
  rfl

/-- The real layers are GLES layers, and above them the overlays. -/
theorem prepare_types :
    ((fhwcPrepare hwc ge overlays maxplanes layers).filter isReal).map Layer.compositionType =
      List.replicate (countReal layers - promotedCount hwc ge overlays maxplanes layers)
          .framebuffer ++
        List.replicate (promotedCount hwc ge overlays maxplanes layers) .overlay := by
  have hle := promotedCount_le hwc ge overlays maxplanes layers
  rw [fhwcPrepare_eq, assign_types]
  generalize promotedCount hwc ge overlays maxplanes layers = count at hle ⊢
  cases count with
  | zero => simp
  | succ count =>
      have hsplit := map_range'_split CompositionType.overlay CompositionType.framebuffer
        (Nat.sub_le (countReal layers) (count + 1))
      rw [Nat.sub_sub_self hle] at hsplit
      simpa using hsplit

/-- For every layer list, every answer of the format query and all values of
the two properties. -/
theorem prepare_promotes : PromotionLaw hwc ge overlays maxplanes layers
    (fhwcPrepare hwc ge overlays maxplanes layers) where
  length := by
    rw [fhwcPrepare_eq, length_assign]
  targets := by
    intro i l hl htarget
    have hreal : ¬isReal l = true := by simpa [isTarget] using htarget
    rw [fhwcPrepare_eq, assign_getElem?, hl, Option.map_some, if_neg hreal]
  others := by
    intro i l hl hreal
    rw [fhwcPrepare_eq, assign_getElem?, hl, Option.map_some, if_pos hreal]
    split_ifs
    · exact .inl rfl
    · exact .inr rfl
  suffix := prepare_types hwc ge overlays maxplanes layers
  fits := fun i l hl hoverlay => prepare_overlay_fits hwc ge overlays maxplanes layers hl hoverlay
  planes := prepare_planes_le hwc ge overlays maxplanes layers

end Prepare

section PlaneCap

variable (hwc : Device) (ge : Nat → Option Int) (overlays maxplanes : Int) (layers : List Layer)

theorem countP_isOverlay_prepare :
    (fhwcPrepare hwc ge overlays maxplanes layers).countP isOverlay =
      promotedCount hwc ge overlays maxplanes layers := by
  have hle := promotedCount_le hwc ge overlays maxplanes layers
  rw [fhwcPrepare_eq, countP_overlay_assign]
  split_ifs <;> omega

/-- Something is left to GLES unless all real layers are promoted. -/
theorem any_isFramebuffer_prepare :
    (fhwcPrepare hwc ge overlays maxplanes layers).any isFramebuffer =
      decide (promotedCount hwc ge overlays maxplanes layers < countReal layers) := by
  have htypes := prepare_types hwc ge overlays maxplanes layers
  generalize fhwcPrepare hwc ge overlays maxplanes layers = after at htypes ⊢
  generalize promotedCount hwc ge overlays maxplanes layers = count at htypes ⊢
  have hany : after.any isFramebuffer =
      ((after.filter isReal).map Layer.compositionType).any (· == .framebuffer) := by
    rw [List.any_map, List.any_filter]
    congr 1
    funext l
    cases htype : l.compositionType <;> simp [isFramebuffer, isReal, htype]
  have hoverlay : (CompositionType.overlay == CompositionType.framebuffer) = false := rfl
  rw [hany, htypes, List.any_append, List.any_replicate, List.any_replicate, hoverlay]
  by_cases hcount : count < countReal layers
  · have hleft : countReal layers - count ≠ 0 := by omega
    simp [hleft, hcount]
  · have hnone : countReal layers - count = 0 := by omega
    simp [hnone, hcount]

theorem indicesFrom_assign_target (firstOvl budget n i : Nat) :
    indicesFrom i isTarget (assign firstOvl budget n layers) = indicesFrom i isTarget layers := by
  induction layers generalizing n i with
  | nil => rfl
  | cons l above ih =>
      unfold assign
      by_cases hreal : isReal l = true
      · rw [if_pos hreal, indicesFrom_cons, indicesFrom_cons, ih, isTarget, isTarget, hreal]
        simp only [isReal]
        split_ifs <;> simp_all
      · rw [if_neg hreal, indicesFrom_cons, indicesFrom_cons, ih]

/-- The target entries are where they were. -/
theorem fbtTarget_prepare :
    fbtTarget hwc (fhwcPrepare hwc ge overlays maxplanes layers) = fbtTarget hwc layers := by
  have hfind : findFbt (fhwcPrepare hwc ge overlays maxplanes layers) = findFbt layers := by
    rw [fhwcPrepare_eq, findFbt_eq, findFbt_eq, indicesFrom_assign_target]
  unfold fbtTarget
  rw [hfind]
  cases hfound : findFbt layers with
  | none => rfl
  | some i =>
      obtain ⟨l, hl, htarget⟩ := findFbt_isTarget hfound
      have hsame := (prepare_promotes hwc ge overlays maxplanes layers).targets i l hl htarget
      simp only [Option.bind_eq_bind, Option.bind_some, hsame, hl]

/-- The loop over the promoted layers makes at most one plane for each. -/
theorem length_promote_le (i n : Nat) :
    (promote hwc ge i n layers).planes.length ≤ layers.countP isOverlay := by
  induction layers generalizing i n with
  | nil => exact Nat.le_refl 0
  | cons l rest ih =>
      unfold promote
      by_cases hfull : 4 ≤ n
      · rw [if_pos hfull]
        exact Nat.zero_le _
      · rw [if_neg hfull]
        by_cases hoverlay : l.compositionType ≠ .overlay
        · rw [if_pos hoverlay, List.countP_cons_of_neg (by simpa [isOverlay] using hoverlay)]
          exact ih (i + 1) n
        · rw [if_neg hoverlay, List.countP_cons_of_pos (by simpa [isOverlay] using hoverlay)]
          simp only
          split
          · exact Nat.succ_le_succ (ih (i + 1) (n + 1))
          · exact (ih (i + 1) n).trans (Nat.le_succ _)

theorem fhwcSet_planes (io : SubmitIo) (d : List Layer) :
    (fhwcSet hwc ge io d).planes =
      if d.any isFramebuffer = true ∧ fbtTarget hwc d = none then []
      else
        let first := if d.any isFramebuffer then (fbtTarget hwc d).toList else []
        first ++ (promote hwc ge 0 first.length d).planes := by
  have hgles : d.any (fun l => decide (l.compositionType = .framebuffer)) =
      d.any isFramebuffer := rfl
  unfold fhwcSet
  simp only [hgles]
  split_ifs with hnone hnil
  all_goals simp_all

/-- What `fhwc_set` is given by `fhwc_prepare` comes to at most one plane for
each overlay and one for the target, and to as many if nothing has changed. -/
theorem length_set_planes_le (ge' : Nat → Option Int) (io : SubmitIo) :
    (fhwcSet hwc ge' io (fhwcPrepare hwc ge overlays maxplanes layers)).planes.length ≤
      if promotedCount hwc ge overlays maxplanes layers < countReal layers then
        if fbtTarget hwc layers = none then 0
        else promotedCount hwc ge overlays maxplanes layers + 1
      else promotedCount hwc ge overlays maxplanes layers := by
  have hpromote := length_promote_le hwc ge' (fhwcPrepare hwc ge overlays maxplanes layers) 0
  rw [countP_isOverlay_prepare] at hpromote
  rw [fhwcSet_planes, any_isFramebuffer_prepare, fbtTarget_prepare]
  by_cases hgles : promotedCount hwc ge overlays maxplanes layers < countReal layers
  · rw [if_pos hgles, decide_eq_true hgles]
    cases htarget : fbtTarget hwc layers with
    | none => simp
    | some target =>
        have hlast := hpromote 1
        simp
        omega
  · rw [if_neg hgles, decide_eq_false hgles]
    simpa using hpromote 0

theorem length_set_planes (io : SubmitIo) :
    (fhwcSet hwc ge io (fhwcPrepare hwc ge overlays maxplanes layers)).planes.length =
      if promotedCount hwc ge overlays maxplanes layers < countReal layers then
        if fbtTarget hwc layers = none then 0
        else promotedCount hwc ge overlays maxplanes layers + 1
      else promotedCount hwc ge overlays maxplanes layers := by
  have hplanes := prepare_planes_le hwc ge overlays maxplanes layers
  have hpromote (n : Nat) (hroom : n + promotedCount hwc ge overlays maxplanes layers ≤ 4) :
      (promote hwc ge 0 n (fhwcPrepare hwc ge overlays maxplanes layers)).planes.length =
        promotedCount hwc ge overlays maxplanes layers := by
    rw [← countP_isOverlay_prepare] at hroom ⊢
    have hindices := (promote_overlays hwc ge n _ hroom fun i l hl hoverlay =>
      prepare_overlay_fits hwc ge overlays maxplanes layers hl hoverlay).1
    rw [← List.length_map (f := Prod.fst), hindices, length_indicesFrom]
  rw [countP_isOverlay_prepare, any_isFramebuffer_prepare] at hplanes
  rw [fhwcSet_planes, any_isFramebuffer_prepare, fbtTarget_prepare]
  by_cases hgles : promotedCount hwc ge overlays maxplanes layers < countReal layers
  · rw [decide_eq_true hgles, if_pos rfl] at hplanes
    rw [if_pos hgles, decide_eq_true hgles]
    cases htarget : fbtTarget hwc layers with
    | none => simp
    | some target =>
        have hlast := hpromote 1 (by omega)
        simp [hlast]
  · rw [decide_eq_false hgles] at hplanes
    rw [if_neg hgles, decide_eq_false hgles]
    simpa using hpromote 0 (by simpa using hplanes)

/-- The target has no buffer, or the cap is not below the number of real
layers, or fewer layers from the top are eligible than the cap allows, or the
cap is at least four. -/
def PlaneCapKept : Prop :=
  fbtTarget hwc layers = none ∨ (countReal layers : Int) ≤ maxplanes ∨
    (eligibleRun hwc ge overlays layers : Int) < maxplanes ∨ 4 ≤ maxplanes

theorem promotedCount_le_cap (hcap : 1 ≤ maxplanes) :
    (promotedCount hwc ge overlays maxplanes layers : Int) ≤ maxplanes := by
  unfold promotedCount
  omega

/-- A target beside the overlays stays within the cap exactly when some bound
other than the cap has kept a layer from being promoted. -/
theorem promotedCount_room_iff (hcap : 1 ≤ maxplanes) :
    (promotedCount hwc ge overlays maxplanes layers < countReal layers →
      (promotedCount hwc ge overlays maxplanes layers : Int) < maxplanes) ↔
      (countReal layers : Int) ≤ maxplanes ∨
        (eligibleRun hwc ge overlays layers : Int) < maxplanes ∨ 4 ≤ maxplanes := by
  have hrun := eligibleRun_le hwc ge overlays layers
  unfold promotedCount promotable
  simp only [all_eligible_iff]
  generalize eligibleRun hwc ge overlays layers = run at hrun ⊢
  generalize countReal layers = real at hrun ⊢
  split_ifs
  · omega
  · omega

/-- The cap is kept, whatever the query answers during `fhwc_set`, exactly in
these cases. Otherwise all planes that it allows go to overlays, and the
target comes on top. -/
theorem plane_cap_iff (hcap : 1 ≤ maxplanes) :
    (∀ ge' io, ((fhwcSet hwc ge' io
        (fhwcPrepare hwc ge overlays maxplanes layers)).planes.length : Int) ≤ maxplanes) ↔
      PlaneCapKept hwc ge overlays maxplanes layers := by
  have hroom := promotedCount_room_iff hwc ge overlays maxplanes layers hcap
  have hle := promotedCount_le_cap hwc ge overlays maxplanes layers hcap
  unfold PlaneCapKept
  rw [← hroom]
  constructor
  · intro hkept
    by_cases htarget : fbtTarget hwc layers = none
    · exact Or.inl htarget
    · right
      intro hgles
      have hplanes := hkept ge goodIo
      rw [length_set_planes, if_pos hgles, if_neg htarget] at hplanes
      omega
  · intro hcases ge' io
    have hplanes := length_set_planes_le hwc ge overlays maxplanes layers ge' io
    by_cases hgles : promotedCount hwc ge overlays maxplanes layers < countReal layers
    · rw [if_pos hgles] at hplanes
      rcases hcases with htarget | hroom
      · rw [if_pos htarget] at hplanes
        omega
      · have hlt := hroom hgles
        split_ifs at hplanes
        · omega
        · omega
    · rw [if_neg hgles] at hplanes
      omega

/-- Two full-screen layers of the client and the target. -/
def twoLayers : List Layer :=
  List.replicate 2 (screenLayer .framebuffer) ++ [screenLayer .framebufferTarget]

/-- A cap of two planes is kept for a layer that fits above one that does not. -/
theorem plane_cap_of_two :
    let layers := { screenLayer .framebuffer with transform := 4 } ::
      [screenLayer .framebuffer, screenLayer .framebufferTarget]
    (fhwcPrepare panel (fun _ => some 1) 1 2 layers).map Layer.compositionType =
        [.framebuffer, .overlay, .framebufferTarget] ∧
      ∀ ge' io, ((fhwcSet panel ge' io
        (fhwcPrepare panel (fun _ => some 1) 1 2 layers)).planes.length : Int) ≤ 2 := by
  intro layers
  refine ⟨by decide, ?_⟩
  apply (plane_cap_iff panel (fun _ => some 1) 1 2 layers (by decide)).mpr
  exact .inr (.inr (.inl (by decide)))

/-- With a cap of one, an overlay and the target are handed over. -/
theorem plane_cap_exceeded :
    (fhwcSet panel (fun _ => some 1) goodIo
        (fhwcPrepare panel (fun _ => some 1) 1 1 twoLayers)).planes.map Prod.fst = [2, 1] ∧
      ¬((fhwcSet panel (fun _ => some 1) goodIo
        (fhwcPrepare panel (fun _ => some 1) 1 1 twoLayers)).planes.length : Int) ≤ 1 := by
  decide

end PlaneCap

end MeizuM5c.Hwc
