import MeizuM5c.Hwc.Layer

/-!
What `fhwc_prepare` leaves: the real layers are GLES layers followed by
overlays, every overlay fits, and with the plane of the GLES result the
overlays are at most four.
-/

namespace MeizuM5c.Hwc

def isOverlay (l : Layer) : Bool := l.compositionType == .overlay

def isFramebuffer (l : Layer) : Bool := l.compositionType == .framebuffer

def isTarget (l : Layer) : Bool := !isReal l

/-- The indices of the layers of a kind, counted from `i`. -/
def indicesFrom (i : Nat) (kind : Layer → Bool) (layers : List Layer) : List Nat :=
  ((layers.zipIdx i).filter (fun e => kind e.1)).map Prod.snd

section Assign

variable (firstOvl budget : Nat)

/-- Only the composition types of real layers change, by their rank. -/
theorem assign_getElem? (n : Nat) (layers : List Layer) (i : Nat) :
    (assign firstOvl budget n layers)[i]? = (layers[i]?).map (fun l =>
      if isReal l then
        { l with compositionType :=
            if firstOvl ≤ n + countReal (layers.take i) ∧ 0 < budget then .overlay
            else .framebuffer }
      else l) := by
  induction layers generalizing n i with
  | nil => simp [assign]
  | cons l above ih =>
      unfold assign
      cases i with
      | zero => split <;> simp_all [countReal]
      | succ i =>
          by_cases hreal : isReal l = true
          · have hrank : n + countReal ((l :: above).take (i + 1)) =
                n + 1 + countReal (above.take i) := by
              rw [List.take_succ_cons, countReal, List.countP_cons_of_pos hreal, countReal]
              omega
            simp only [hreal, if_true, List.getElem?_cons_succ, ih, hrank]
          · have hrank : countReal ((l :: above).take (i + 1)) = countReal (above.take i) := by
              rw [List.take_succ_cons, countReal, List.countP_cons_of_neg hreal, countReal]
            simp only [hreal, Bool.false_eq_true, if_false, List.getElem?_cons_succ, ih, hrank]

theorem indicesFrom_cons (i : Nat) (kind : Layer → Bool) (l : Layer)
    (above : List Layer) :
    indicesFrom i kind (l :: above) =
      (if kind l then [i] else []) ++ indicesFrom (i + 1) kind above := by
  simp only [indicesFrom, List.zipIdx_cons, List.filter_cons]
  split <;> simp

/-- Once the first overlay is reached, no layer is left to GLES. -/
theorem indicesFrom_framebuffer_eq_nil (n i : Nat) (layers : List Layer)
    (hn : firstOvl ≤ n ∧ 0 < budget) :
    indicesFrom i isFramebuffer (assign firstOvl budget n layers) = [] := by
  induction layers generalizing n i with
  | nil => rfl
  | cons l above ih =>
      unfold assign
      split
      · rw [indicesFrom_cons, ih (n + 1) (i + 1) ⟨by omega, hn.2⟩]
        simp [isFramebuffer]
      · rename_i hreal
        rw [indicesFrom_cons, ih n (i + 1) hn]
        simp only [isReal, bne_iff_ne, ne_eq, not_not] at hreal
        simp [isFramebuffer, hreal]

/-- The layers left to GLES lie below all overlays. -/
theorem indicesFrom_real_eq_append (n i : Nat) (layers : List Layer) :
    indicesFrom i isReal (assign firstOvl budget n layers) =
      indicesFrom i isFramebuffer (assign firstOvl budget n layers) ++
        indicesFrom i isOverlay (assign firstOvl budget n layers) := by
  induction layers generalizing n i with
  | nil => rfl
  | cons l above ih =>
      unfold assign
      by_cases hreal : isReal l = true
      · rw [if_pos hreal]
        simp only [indicesFrom_cons, ih (n + 1) (i + 1)]
        by_cases hn : firstOvl ≤ n ∧ 0 < budget
        · rw [indicesFrom_framebuffer_eq_nil firstOvl budget (n + 1) (i + 1) above
            ⟨by omega, hn.2⟩]
          simp [isReal, isFramebuffer, isOverlay, hn]
        · simp [isReal, isFramebuffer, isOverlay, hn]
      · rw [if_neg hreal]
        simp only [indicesFrom_cons, ih n (i + 1)]
        have htarget : l.compositionType = .framebufferTarget := by
          simpa [isReal] using hreal
        simp [isReal, isFramebuffer, isOverlay, htarget]

theorem countP_overlay_assign (n : Nat) (layers : List Layer) :
    (assign firstOvl budget n layers).countP isOverlay =
      if 0 < budget then countReal layers - (firstOvl - n) else 0 := by
  induction layers generalizing n with
  | nil => simp [assign, countReal]
  | cons l above ih =>
      unfold assign
      by_cases hreal : isReal l = true
      · rw [if_pos hreal, List.countP_cons, ih (n + 1)]
        simp only [countReal, List.countP_cons_of_pos hreal]
        have hle : countReal above ≤ above.length := List.countP_le_length
        by_cases hb : 0 < budget
        · by_cases hn : firstOvl ≤ n
          · simp only [isOverlay, hn, hb]
            simp
            omega
          · simp only [isOverlay, hn, hb]
            simp
            omega
        · simp [isOverlay, hb]
      · rw [if_neg hreal, List.countP_cons, ih n]
        have htarget : l.compositionType = .framebufferTarget := by
          simpa [isReal] using hreal
        simp [isOverlay, htarget, countReal, hreal]

theorem exists_framebuffer_assign (n : Nat) (layers : List Layer)
    (h : (assign firstOvl budget n layers).any isFramebuffer = true) :
    n < firstOvl ∨ budget = 0 := by
  induction layers generalizing n with
  | nil => simp [assign] at h
  | cons l above ih =>
      unfold assign at h
      by_cases hreal : isReal l = true
      · rw [if_pos hreal, List.any_cons, Bool.or_eq_true] at h
        rcases h with hhead | hrest
        · by_contra hno
          push Not at hno
          have hov : firstOvl ≤ n ∧ 0 < budget := ⟨hno.1, Nat.pos_of_ne_zero hno.2⟩
          simp [isFramebuffer, hov] at hhead
        · rcases ih (n + 1) hrest with hlt | hzero
          · exact Or.inl (by omega)
          · exact Or.inr hzero
      · rw [if_neg hreal, List.any_cons, Bool.or_eq_true] at h
        rcases h with hhead | hrest
        · have htarget : l.compositionType = .framebufferTarget := by
            simpa [isReal] using hreal
          simp [isFramebuffer, htarget] at hhead
        · exact ih n hrest

theorem assign_countP_target (n : Nat) (layers : List Layer) :
    (assign firstOvl budget n layers).countP isTarget = layers.countP isTarget := by
  induction layers generalizing n with
  | nil => rfl
  | cons l above ih =>
      unfold assign
      by_cases hreal : isReal l = true
      · rw [if_pos hreal, List.countP_cons, List.countP_cons, ih]
        simp only [isTarget, hreal]
        simp only [isReal]
        split <;> simp
      · rw [if_neg hreal, List.countP_cons, List.countP_cons, ih]

end Assign

section TopRun

variable (hwc : Device) (ge : Nat → Option Int)

def countRealIdx (layers : List (Layer × Nat)) : Nat := layers.countP (fun e => isReal e.1)

theorem topRun_le (layers : List (Layer × Nat)) :
    topRun hwc ge layers ≤ countRealIdx layers := by
  induction layers with
  | nil => simp [topRun]
  | cons e below ih =>
      obtain ⟨l, i⟩ := e
      unfold topRun
      by_cases hreal : isReal l = true
      · simp only [hreal, if_true, countRealIdx, List.countP_cons_of_pos]
        split
        · omega
        · exact Nat.succ_le_succ ih
      · simp only [countRealIdx, List.countP_cons, hreal] at ih ⊢
        simpa using ih

/-- A run that is longer than what lies above a real layer includes it. -/
theorem fits_of_lt_topRun (above : List (Layer × Nat)) (l : Layer) (i : Nat)
    (below : List (Layer × Nat)) (hreal : isReal l = true)
    (h : countRealIdx above < topRun hwc ge (above ++ (l, i) :: below)) :
    layerFitsOverlay hwc (ge i) l ≠ 0 := by
  induction above with
  | nil =>
      intro hfits
      simp [topRun, hreal, hfits] at h
  | cons e above ih =>
      obtain ⟨l', i'⟩ := e
      by_cases hreal' : isReal l' = true
      · simp only [List.cons_append, topRun, hreal', if_true, countRealIdx,
          List.countP_cons_of_pos] at h
        split at h
        · omega
        · exact ih (by unfold countRealIdx; omega)
      · simp only [List.cons_append, topRun, countRealIdx] at h
        simp only [hreal', List.countP_cons] at h
        exact ih (by simpa [countRealIdx] using h)

end TopRun

section Prepare

variable (hwc : Device) (ge : Nat → Option Int) (overlays maxplanes : Int)
  (layers : List Layer)

theorem planeBudget_spec (run nlayers : Nat) (maxplanes : Int) :
    planeBudget run nlayers maxplanes ≤ run ∧ planeBudget run nlayers maxplanes ≤ 4 ∧
      (planeBudget run nlayers maxplanes < nlayers → planeBudget run nlayers maxplanes ≤ 3) := by
  unfold planeBudget
  simp only
  split_ifs <;> omega

theorem countRealIdx_zipIdx (i : Nat) :
    countRealIdx (layers.zipIdx i).reverse = countReal layers := by
  unfold countRealIdx countReal
  rw [List.countP_reverse]
  conv_rhs => rw [← List.zipIdx_map_fst i layers, List.countP_map]
  rfl

/-- `fhwc_prepare` assigns overlays to the top `budget` real layers. -/
theorem fhwcPrepare_spec : ∃ budget,
    fhwcPrepare hwc ge overlays maxplanes layers =
      assign (countReal layers - budget) budget 0 layers ∧
    budget ≤ countReal layers ∧ budget ≤ 4 ∧ (budget < countReal layers → budget ≤ 3) ∧
    (0 < budget → budget ≤ topRun hwc ge layers.zipIdx.reverse) := by
  have hrun : (if overlays ≠ 0 then topRun hwc ge layers.zipIdx.reverse else 0) ≤
      topRun hwc ge layers.zipIdx.reverse := by
    split <;> omega
  have htop := topRun_le hwc ge layers.zipIdx.reverse
  rw [countRealIdx_zipIdx] at htop
  obtain ⟨hle, hfour, hthree⟩ :=
    planeBudget_spec (if overlays ≠ 0 then topRun hwc ge layers.zipIdx.reverse else 0)
      (countReal layers) maxplanes
  exact ⟨_, rfl, (hle.trans hrun).trans htop, hfour, hthree, fun _ => hle.trans hrun⟩

/-- With the plane of the GLES result, the overlays are at most four. -/
theorem prepare_planes_le :
    (fhwcPrepare hwc ge overlays maxplanes layers).countP isOverlay +
      (if (fhwcPrepare hwc ge overlays maxplanes layers).any isFramebuffer then 1 else 0) ≤ 4 := by
  obtain ⟨budget, hprepare, hle, hfour, hthree, _⟩ :=
    fhwcPrepare_spec hwc ge overlays maxplanes layers
  rw [hprepare, countP_overlay_assign]
  split_ifs with hpos hgles hgles
  · rcases exists_framebuffer_assign _ _ _ _ hgles with h | h <;> omega
  · omega
  · omega
  · omega

/-- Every overlay fits. -/
theorem prepare_overlay_fits {i : Nat} {l : Layer}
    (hl : (fhwcPrepare hwc ge overlays maxplanes layers)[i]? = some l)
    (hoverlay : isOverlay l = true) : layerFitsOverlay hwc (ge i) l ≠ 0 := by
  obtain ⟨budget, hprepare, hle, _, _, htop⟩ :=
    fhwcPrepare_spec hwc ge overlays maxplanes layers
  rw [hprepare, assign_getElem?] at hl
  obtain ⟨l₀, hl₀, hl⟩ := Option.map_eq_some_iff.mp hl
  by_cases hreal : isReal l₀ = true
  · rw [if_pos hreal] at hl
    split at hl
    · rename_i hrank
      -- nothing of this layer but its composition type has changed
      have hsame : layerFitsOverlay hwc (ge i) l = layerFitsOverlay hwc (ge i) l₀ := by
        rw [← hl]
        rfl
      rw [hsame]
      obtain ⟨hi, hget⟩ := List.getElem?_eq_some_iff.mp hl₀
      have hsplit : layers = layers.take i ++ l₀ :: layers.drop (i + 1) := by
        rw [← hget, List.getElem_cons_drop, List.take_append_drop]
      have hzip : layers.zipIdx.reverse =
          ((layers.drop (i + 1)).zipIdx (i + 1)).reverse ++
            (l₀, i) :: (layers.take i).zipIdx.reverse := by
        have hlen : (layers.take i).length = i := by
          rw [List.length_take]
          omega
        conv_lhs => rw [hsplit, List.zipIdx_append, List.zipIdx_cons, List.reverse_append,
          List.reverse_cons, List.append_assoc]
        simp [hlen]
      have hcount : countReal layers =
          countReal (layers.take i) + 1 + countReal (layers.drop (i + 1)) := by
        conv_lhs => rw [hsplit]
        simp only [countReal, List.countP_append, List.countP_cons_of_pos hreal]
        omega
      refine fits_of_lt_topRun hwc ge ((layers.drop (i + 1)).zipIdx (i + 1)).reverse l₀ i
        (layers.take i).zipIdx.reverse hreal ?_
      rw [← hzip, countRealIdx_zipIdx]
      have hbudget := htop hrank.2
      omega
    · rw [← hl] at hoverlay
      simp [isOverlay] at hoverlay
  · rw [if_neg hreal] at hl
    rw [← hl] at hoverlay
    have htarget : l₀.compositionType = .framebufferTarget := by
      simpa [isReal] using hreal
    simp [isOverlay, htarget] at hoverlay

/-- A prepared layer is the client's layer but for its composition type. -/
theorem prepare_getElem? {i : Nat} {l : Layer}
    (hl : (fhwcPrepare hwc ge overlays maxplanes layers)[i]? = some l) :
    ∃ l₀, layers[i]? = some l₀ ∧ l.acquireFenceFd = l₀.acquireFenceFd ∧
      l.releaseFenceFd = l₀.releaseFenceFd ∧
      ∀ halFmt, layerFitsOverlay hwc halFmt l = layerFitsOverlay hwc halFmt l₀ := by
  obtain ⟨budget, hprepare, _⟩ := fhwcPrepare_spec hwc ge overlays maxplanes layers
  rw [hprepare, assign_getElem?] at hl
  obtain ⟨l₀, hl₀, hl⟩ := Option.map_eq_some_iff.mp hl
  refine ⟨l₀, hl₀, ?_⟩
  by_cases hreal : isReal l₀ = true
  · rw [if_pos hreal] at hl
    rw [← hl]
    exact ⟨rfl, rfl, fun _ => rfl⟩
  · rw [if_neg hreal] at hl
    rw [← hl]
    exact ⟨rfl, rfl, fun _ => rfl⟩

theorem prepare_countP_target :
    (fhwcPrepare hwc ge overlays maxplanes layers).countP isTarget = layers.countP isTarget := by
  obtain ⟨budget, hprepare, _⟩ := fhwcPrepare_spec hwc ge overlays maxplanes layers
  rw [hprepare, assign_countP_target]

end Prepare

end MeizuM5c.Hwc
