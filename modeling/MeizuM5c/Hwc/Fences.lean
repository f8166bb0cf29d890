import MeizuM5c.Hwc.Stacking

/-!
Who owns which fence. `fhwc_set` owes a close to the acquire fence of the
target and of every overlay, and every descriptor that it gets from the kernel
is closed or handed out in one output field. It keeps that on every path but
one: when there is no usable target it returns before the overlays' fences
are looked at.
-/

namespace MeizuM5c.Hwc

open Lib

/-- The fences of the list go by their names: layer `i` carries its own
acquire fence or none, and no output field holds a fence of this frame yet. -/
def Named (layers : List Layer) : Prop :=
  ∀ (i : Nat) (l : Layer), layers[i]? = some l →
    (l.acquireFenceFd = none ∨ l.acquireFenceFd = some (.acquire i)) ∧
      (l.releaseFenceFd = none ∨ ∃ n, l.releaseFenceFd = some (.earlier n))

/-- The fence in an output field: `none` is the retire fence of the display,
`some i` the release fence of layer `i`. -/
def Frame.stored (r : Frame) : Option Nat → Option Fence
  | none => r.retireFenceFd
  | some i => (r.layers[i]?).bind (·.releaseFenceFd)

/-- Every acquire fence of the target and of an overlay is closed once and
cleared; every fence from the kernel is closed once or stored once. -/
def FenceLaw (d : List Layer) (r : Frame) : Prop :=
  (∀ (i : Nat) (l : Layer), d[i]? = some l → (isTarget l = true ∨ isOverlay l = true) →
    l.acquireFenceFd ≠ none →
      r.closed.count (.acquire i) = 1 ∧ ∃ l', r.layers[i]? = some l' ∧ l'.acquireFenceFd = none) ∧
  ∀ f ∈ r.received,
    (r.closed.count f = 1 ∧ ∀ slot, r.stored slot ≠ some f) ∨
      (r.closed.count f = 0 ∧ ∃! slot, r.stored slot = some f)

/-- Something was left to GLES, no target has a buffer, and an overlay came
with an acquire fence. -/
def LeakingFrame (d : List Layer) : Prop :=
  d.any isFramebuffer = true ∧ (∀ l ∈ d, isTarget l = true → l.handle = none) ∧
    ∃ l ∈ d, isOverlay l = true ∧ l.acquireFenceFd ≠ none

section Owned

/-- The acquire fences of the layers of a kind. -/
def fences (kind : Layer → Bool) (layers : List Layer) : List Fence :=
  (layers.filter kind).filterMap (·.acquireFenceFd)

theorem fences_cons (kind : Layer → Bool) (l : Layer) (rest : List Layer) :
    fences kind (l :: rest) =
      (if kind l then l.acquireFenceFd.toList else []) ++ fences kind rest := by
  unfold fences
  rw [List.filter_cons]
  split
  · cases hfence : l.acquireFenceFd <;> simp [hfence]
  · rfl

/-- Under their names, the fence of a layer of the kind occurs once. -/
theorem count_fences (kind : Layer → Bool) (layers : List Layer) (first : Nat)
    (hnamed : ∀ (i : Nat) (l : Layer), layers[i]? = some l →
      l.acquireFenceFd = none ∨ l.acquireFenceFd = some (.acquire (first + i))) (i : Nat) :
    (fences kind layers).count (.acquire i) =
      if first ≤ i ∧ ∃ l, layers[i - first]? = some l ∧ kind l = true ∧ l.acquireFenceFd ≠ none
      then 1 else 0 := by
  classical
  induction layers generalizing first with
  | nil => simp [fences]
  | cons l rest ih =>
      have hrest := ih (first + 1) (by
        intro j l' hl'
        have h := hnamed (j + 1) l' (by simpa using hl')
        rwa [Nat.add_assoc, Nat.add_comm 1 j])
      have hl := hnamed 0 l rfl
      rw [fences_cons, List.count_append, hrest]
      by_cases hfirst : i = first
      · subst hfirst
        simp only [Nat.sub_self, le_refl, true_and, List.getElem?_cons_zero, Option.some.injEq,
          exists_eq_left', Nat.not_succ_le_self, false_and, if_false, Nat.add_zero]
        rcases hl with hnone | hsome
        · simp [hnone]
        · by_cases hkind : kind l = true <;> simp [hsome, hkind]
      · have hhead : (if kind l then l.acquireFenceFd.toList else []).count (.acquire i) = 0 := by
          rcases hl with hnone | hsome
          · simp [hnone]
          · have hne : first ≠ i := fun h => hfirst h.symm
            by_cases hkind : kind l = true <;> simp [hsome, hkind, hne]
        have hiff : (first + 1 ≤ i ∧ ∃ l, rest[i - (first + 1)]? = some l ∧ kind l = true ∧
            l.acquireFenceFd ≠ none) ↔
            (first ≤ i ∧ ∃ l', (l :: rest)[i - first]? = some l' ∧ kind l' = true ∧
              l'.acquireFenceFd ≠ none) := by
          constructor
          · rintro ⟨hle, l', hl', h⟩
            refine ⟨by omega, l', ?_, h⟩
            rw [show i - first = i - (first + 1) + 1 by omega, List.getElem?_cons_succ]
            exact hl'
          · rintro ⟨hle, l', hl', h⟩
            refine ⟨by omega, l', ?_, h⟩
            rw [show i - first = i - (first + 1) + 1 by omega, List.getElem?_cons_succ] at hl'
            exact hl'
        rw [hhead, Nat.zero_add]
        simp only [hiff]

theorem count_fences_of_named {kind : Layer → Bool} {layers : List Layer}
    (hnamed : Named layers) {i : Nat} {l : Layer} (hl : layers[i]? = some l)
    (hfence : l.acquireFenceFd ≠ none) :
    (fences kind layers).count (.acquire i) = if kind l then 1 else 0 := by
  rw [count_fences kind layers 0 (by simpa using fun i l h => (hnamed i l h).1) i]
  simp [hl, hfence]

end Owned

section Promote

variable (hwc : Device) (ge : Nat → Option Int)

/-- What the loop leaves of layer `i`: an overlay's fence is closed or in one
of the planes, and the output field is untouched. -/
def Promoted.Settles (planes : List Nat) (i : Nat) (l l' : Layer) : Prop :=
  l'.releaseFenceFd = l.releaseFenceFd ∧
    (isOverlay l = true → l'.acquireFenceFd = none ∨ i ∈ planes)

/-- What the loop over the promoted layers does when there is room for all of
them: every overlay's fence is closed or goes into a plane. -/
structure PromoteSpec (i : Nat) (layers : List Layer) (r : Promoted) : Prop where
  length_eq : r.layers.length = layers.length
  indices : (r.planes.map Prod.fst).Sublist (indicesFrom i isOverlay layers)
  closes : ∀ f, r.closed.count f + (r.planes.filterMap (·.2.acquire)).count f =
    (fences isOverlay layers).count f
  settles : ∀ (j : Nat) (l : Layer), layers[j]? = some l → ∃ l', r.layers[j]? = some l' ∧
    Promoted.Settles (r.planes.map Prod.fst) (i + j) l l'

section Cons

variable {i : Nat} {l : Layer} {rest : List Layer} {r : Promoted}

private theorem settles_cons {planes planes' : List Nat} {l' : Layer} {rest' : List Layer}
    (hhead : Promoted.Settles planes i l l') (hsub : planes' ⊆ planes)
    (hrest : ∀ (j : Nat) (l₀ : Layer), rest[j]? = some l₀ → ∃ l₁, rest'[j]? = some l₁ ∧
      Promoted.Settles planes' (i + 1 + j) l₀ l₁) (j : Nat) (l₀ : Layer)
    (hl₀ : (l :: rest)[j]? = some l₀) :
    ∃ l₁, (l' :: rest')[j]? = some l₁ ∧ Promoted.Settles planes (i + j) l₀ l₁ := by
  cases j with
  | zero =>
      cases hl₀
      exact ⟨l', rfl, hhead⟩
  | succ j =>
      obtain ⟨l₁, hl₁, hrelease, hdone⟩ := hrest j l₀ hl₀
      refine ⟨l₁, hl₁, hrelease, fun h => (hdone h).imp id ?_⟩
      intro hmem
      rw [Nat.add_right_comm, Nat.add_assoc] at hmem
      exact hsub hmem

/-- The loop passes over a layer that is no overlay. -/
theorem PromoteSpec.pass (h : PromoteSpec (i + 1) rest r) (hno : ¬ isOverlay l = true) :
    PromoteSpec i (l :: rest) { r with layers := l :: r.layers } where
  length_eq := congrArg (· + 1) h.length_eq
  indices := by
    rw [indicesFrom_cons, if_neg hno]
    exact h.indices
  closes := by
    intro f
    rw [fences_cons, if_neg hno, List.nil_append]
    exact h.closes f
  settles := settles_cons ⟨rfl, fun hoverlay => absurd hoverlay hno⟩ (List.Subset.refl _) h.settles

/-- An overlay that still fits becomes a plane, and its fence goes along. -/
theorem PromoteSpec.plane (h : PromoteSpec (i + 1) rest r) (hoverlay : isOverlay l = true)
    {p : Plane} (hp : p.acquire = l.acquireFenceFd) :
    PromoteSpec i (l :: rest)
      { r with planes := (i, p) :: r.planes, layers := l :: r.layers } where
  length_eq := congrArg (· + 1) h.length_eq
  indices := by
    rw [List.map_cons, indicesFrom_cons, if_pos hoverlay]
    exact h.indices.cons_cons i
  closes := by
    intro f
    rw [fences_cons, if_pos hoverlay, List.count_append, ← h.closes f]
    cases hfence : l.acquireFenceFd with
    | none => simp [hp, hfence]
    | some g =>
        simp only [hp, hfence, List.filterMap_cons, Option.toList_some, List.count_cons,
          List.count_nil]
        omega
  settles := settles_cons ⟨rfl, fun _ => Or.inr List.mem_cons_self⟩ (List.subset_cons_self _ _)
    h.settles

/-- An overlay that changed since `prepare` is dropped, and its fence closed. -/
theorem PromoteSpec.drop (h : PromoteSpec (i + 1) rest r) (hoverlay : isOverlay l = true) :
    PromoteSpec i (l :: rest)
      { r with layers := { l with acquireFenceFd := none } :: r.layers
               closed := l.acquireFenceFd.toList ++ r.closed } where
  length_eq := congrArg (· + 1) h.length_eq
  indices := by
    rw [indicesFrom_cons, if_pos hoverlay]
    exact h.indices.cons i
  closes := by
    intro f
    rw [fences_cons, if_pos hoverlay, List.count_append, List.count_append, ← h.closes f]
    exact Nat.add_assoc _ _ _
  settles := settles_cons ⟨rfl, fun _ => Or.inl rfl⟩ (List.Subset.refl _) h.settles

/-- Nothing to do where no overlay is left. -/
theorem PromoteSpec.stop {layers : List Layer} (hnone : layers.countP isOverlay = 0) :
    PromoteSpec i layers ⟨[], layers, []⟩ where
  length_eq := rfl
  indices := List.nil_sublist _
  closes := by
    intro f
    rw [fences, List.filter_eq_nil_iff.mpr (List.countP_eq_zero.mp hnone)]
    rfl
  settles := by
    intro j l₀ hl₀
    refine ⟨l₀, hl₀, rfl, ?_⟩
    intro hoverlay
    exact absurd hoverlay (List.countP_eq_zero.mp hnone l₀ (List.mem_of_getElem? hl₀))

end Cons

theorem promote_spec (i n : Nat) (layers : List Layer)
    (hroom : n + layers.countP isOverlay ≤ 4) :
    PromoteSpec i layers (promote hwc ge i n layers) := by
  refine promote_induct ?_ ?_ ?_ ?_ i n layers hroom
  · intro i layers hnone
    exact .stop hnone
  · intro i l rest r hno h
    exact h.pass hno
  · intro i l rest r handle hoverlay _ h
    exact h.plane hoverlay rfl
  · intro i l rest r hoverlay _ h
    exact h.drop hoverlay

end Promote

section Submit

variable (hwc : Device) (io : SubmitIo)

theorem preparePlanes_getElem? (k : Nat) (planes : List Plane) (j : Nat) :
    (preparePlanes hwc io k planes)[j]? = (planes[j]?).map (preparePlane hwc io (k + j)) := by
  induction planes generalizing k j with
  | nil => rfl
  | cons p rest ih =>
      cases j with
      | zero => rfl
      | succ j =>
          simp only [preparePlanes, List.getElem?_cons_succ, ih]
          rw [Nat.add_right_comm, Nat.add_assoc]

@[simp] theorem preparePlanes_length (k : Nat) (planes : List Plane) :
    (preparePlanes hwc io k planes).length = planes.length := by
  induction planes generalizing k with
  | nil => rfl
  | cons p rest ih => simp [preparePlanes, ih]

/-- The planes of the kernel's answers: plane `k` has its own fence or none. -/
def ReleasesNamed (planes : List Plane) : Prop :=
  ∀ (k : Nat) (p : Plane), planes[k]? = some p →
    p.releaseFd = none ∨ p.releaseFd = some (.prepare k)

theorem releasesNamed_prepare (planes : List Plane) :
    ReleasesNamed ((preparePlanes hwc io 0 (planes.map (fun p =>
      { p with acquire := none, releaseFd := none }))).map Prod.fst) := by
  intro k p hp
  rw [List.getElem?_map, preparePlanes_getElem?, Nat.zero_add, List.getElem?_map] at hp
  obtain ⟨pc, hpc, rfl⟩ := Option.map_eq_some_iff.mp hp
  obtain ⟨p₁, hp₁, rfl⟩ := Option.map_eq_some_iff.mp hpc
  obtain ⟨p₀, _, rfl⟩ := Option.map_eq_some_iff.mp hp₁
  unfold preparePlane
  split
  · exact Or.inl rfl
  · split
    · exact Or.inl rfl
    · simp only
      split
      · exact Or.inr rfl
      · exact Or.inl rfl

/-- The planes hold what the kernel has handed out, and nothing else. -/
theorem preparePlanes_releases (k : Nat) (planes : List Plane)
    (hnone : ∀ p ∈ planes, p.releaseFd = none) :
    preparedFds hwc io k planes =
      ((preparePlanes hwc io k planes).map Prod.fst).filterMap (·.releaseFd) := by
  induction planes generalizing k with
  | nil => rfl
  | cons p rest ih =>
      obtain ⟨hp, hrest⟩ := List.forall_mem_cons.mp hnone
      have hhead : (preparePlane hwc io k p).1.releaseFd = preparedFd hwc io k p := by
        unfold preparePlane preparedFd
        split_ifs with hion
        · exact hp
        · cases hanswer : io.prepareInputBuffer k with
          | none => exact hp
          | some answer =>
              obtain ⟨valid, index⟩ := answer
              cases valid with
              | true => rfl
              | false => rfl
      simp only [preparedFds, preparePlanes, List.map_cons, List.filterMap_cons, hhead]
      rw [ih (k + 1) hrest]
      cases preparedFd hwc io k p with
      | none => rfl
      | some f => rfl

theorem mem_releases_iff {planes : List Plane} (hnamed : ReleasesNamed planes) (f : Fence) :
    f ∈ planes.filterMap (·.releaseFd) ↔
      ∃ k p, f = .prepare k ∧ planes[k]? = some p ∧ p.releaseFd = some f := by
  rw [List.mem_filterMap]
  constructor
  · rintro ⟨p, hp, hf⟩
    obtain ⟨k, hk⟩ := List.mem_iff_getElem?.mp hp
    rcases hnamed k p hk with hnone | hsome
    · rw [hnone] at hf
      cases hf
    · rw [hsome] at hf
      cases hf
      exact ⟨k, p, rfl, hk, hsome⟩
  · rintro ⟨k, p, _, hk, hf⟩
    exact ⟨p, List.mem_of_getElem? hk, hf⟩

theorem nodup_releases {planes : List Plane} (hnamed : ReleasesNamed planes) :
    (planes.filterMap (·.releaseFd)).Nodup := by
  induction planes using List.reverseRecOn with
  | nil => exact List.nodup_nil
  | append_singleton planes p ih =>
      have hnamed' : ReleasesNamed planes := by
        intro k q hq
        refine hnamed k q ?_
        rw [List.getElem?_append_left (List.getElem?_eq_some_iff.mp hq).1]
        exact hq
      rw [List.filterMap_append, List.nodup_append']
      refine ⟨ih hnamed', ?_, ?_⟩
      · cases hp : p.releaseFd <;> simp [hp]
      · intro f hf hlast
        obtain ⟨k, q, rfl, hk, _⟩ := (mem_releases_iff hnamed' f).mp hf
        have hlt := (List.getElem?_eq_some_iff.mp hk).1
        have hend := hnamed planes.length p (by simp)
        rcases hend with hnone | hsome
        · simp [hnone] at hlast
        · simp [hsome] at hlast
          omega

theorem presentFd_cases : presentFd io = none ∨ presentFd io = some .present := by
  unfold presentFd
  split
  · exact Or.inr rfl
  · exact Or.inl rfl

/-- A fence that the kernel hands out. -/
def Fence.FromKernel (f : Fence) : Prop := f = .present ∨ ∃ k, f = .prepare k

theorem Fence.FromKernel.ne_acquire {f : Fence} (h : f.FromKernel) (i : Nat) : f ≠ .acquire i := by
  rintro rfl
  rcases h with h | ⟨k, h⟩ <;> cases h

theorem Fence.FromKernel.ne_earlier {f : Fence} (h : f.FromKernel) (n : Nat) : f ≠ .earlier n := by
  rintro rfl
  rcases h with h | ⟨k, h⟩ <;> cases h

theorem received_fromKernel {planes : List Plane} (hnamed : ReleasesNamed planes)
    {present : Option Fence} (hpresent : present = none ∨ present = some .present) {f : Fence}
    (hf : f ∈ planes.filterMap (·.releaseFd) ++ present.toList) : f.FromKernel := by
  rcases List.mem_append.mp hf with hf | hf
  · obtain ⟨k, q, rfl, _⟩ := (mem_releases_iff hnamed f).mp hf
    exact Or.inr ⟨k, rfl⟩
  · rcases hpresent with h | h
    · simp [h] at hf
    · left
      simpa [h] using hf

theorem nodup_received {planes : List Plane} (hnamed : ReleasesNamed planes)
    {present : Option Fence} (hpresent : present = none ∨ present = some .present) :
    (planes.filterMap (·.releaseFd) ++ present.toList).Nodup := by
  rw [List.nodup_append']
  refine ⟨nodup_releases hnamed, ?_, ?_⟩
  · rcases hpresent with h | h <;> simp [h]
  · intro f hf hp
    obtain ⟨k, q, rfl, _⟩ := (mem_releases_iff hnamed f).mp hf
    rcases hpresent with h | h <;> simp [h] at hp

/-- What a submission does to the fences: it closes the acquire fences of its
planes, and either stores every fence of the kernel or closes it. -/
theorem submitPlanes_spec (planes : List Plane) :
    let s := submitPlanes hwc io planes
    ∃ dropped, s.planes.length = planes.length ∧
      s.closed = planes.filterMap (·.acquire) ++ dropped ∧
      (∀ f ∈ s.received, f.FromKernel) ∧
      ((ReleasesNamed s.planes ∧ dropped = [] ∧
          s.received = s.planes.filterMap (·.releaseFd) ++ s.retireFence.toList ∧
          (s.retireFence = none ∨ s.retireFence = some .present)) ∨
        ((∀ p ∈ s.planes, p.releaseFd = none) ∧ s.retireFence = none ∧
          dropped.Perm s.received ∧ s.received.Nodup)) := by
  unfold submitPlanes
  simp only
  have hnamed := releasesNamed_prepare hwc io planes
  have hlength : ((preparePlanes hwc io 0 (planes.map (fun p =>
      { p with acquire := none, releaseFd := none }))).map Prod.fst).length = planes.length := by
    simp
  rw [preparePlanes_releases hwc io 0 (planes.map (fun p =>
    { p with acquire := none, releaseFd := none })) (by simp)]
  generalize preparePlanes hwc io 0 (planes.map (fun p =>
      { p with acquire := none, releaseFd := none })) = prepared at hnamed hlength
  have hpresent := presentFd_cases io
  generalize presentFd io = present at hpresent
  split
  · refine ⟨[], by simp, by simp, by simp, Or.inr ⟨?_, rfl, List.Perm.refl _, List.nodup_nil⟩⟩
    intro p hp
    obtain ⟨q, _, rfl⟩ := List.mem_map.mp hp
    rfl
  · split
    · exact ⟨[], hlength, by simp, fun f hf => received_fromKernel hnamed hpresent hf,
        Or.inl ⟨hnamed, rfl, rfl, hpresent⟩⟩
    · refine ⟨_, ?_, List.append_assoc _ _ _, fun f hf => received_fromKernel hnamed hpresent hf,
        Or.inr ⟨?_, rfl, List.perm_append_comm, nodup_received hnamed hpresent⟩⟩
      · rw [List.length_map]
        exact hlength
      · intro p hp
        obtain ⟨q, _, rfl⟩ := List.mem_map.mp hp
        rfl

theorem engineSubmit_length (planes : List Plane) :
    (engineSubmit hwc io planes).planes.length = planes.length := by
  unfold engineSubmit
  split
  · rfl
  · obtain ⟨_, hlength, _⟩ := submitPlanes_spec hwc io planes
    exact hlength

end Submit

section WriteBack

theorem writeBack_of_not_mem (layers : List Layer) (done : List (Nat × Plane)) {i : Nat}
    (hi : i ∉ done.map Prod.fst) : (writeBack layers done)[i]? = layers[i]? := by
  induction done generalizing layers with
  | nil => rfl
  | cons e done ih =>
      rw [List.map_cons, List.mem_cons, not_or] at hi
      unfold writeBack
      rw [List.foldl_cons]
      refine (ih _ hi.2).trans ?_
      rw [List.getElem?_modify_ne]
      exact fun h => hi.1 h.symm

theorem writeBack_of_mem (layers : List Layer) (done : List (Nat × Plane))
    (hnodup : (done.map Prod.fst).Nodup) {i : Nat} {p : Plane} (hmem : (i, p) ∈ done) :
    (writeBack layers done)[i]? = (layers[i]?).map (fun l =>
      { l with acquireFenceFd := none, releaseFenceFd := p.releaseFd }) := by
  induction done generalizing layers with
  | nil => cases hmem
  | cons e done ih =>
      rw [List.map_cons, List.nodup_cons] at hnodup
      unfold writeBack
      rw [List.foldl_cons]
      rcases List.mem_cons.mp hmem with rfl | hmem
      · refine (writeBack_of_not_mem _ done hnodup.1).trans ?_
        rw [List.getElem?_modify_eq]
        rfl
      · have hne : e.1 ≠ i := by
          intro h
          rw [h] at hnodup
          exact hnodup.1 (List.mem_map_of_mem hmem)
        refine (ih _ hnodup.2 hmem).trans ?_
        rw [List.getElem?_modify_ne]
        exact hne

end WriteBack

section Received

/-- The output fields of a frame after the loop over its planes: `out` are the
planes as `engine_submit` left them, and the fields held nothing of this frame. -/
structure WrittenBack (layers : List Layer) (indices : List Nat) (out : List Plane) (r : Frame) :
    Prop where
  layers_eq : r.layers = writeBack layers (indices.zip out)
  length_eq : out.length = indices.length
  nodup : indices.Nodup
  valid : ∀ i ∈ indices, ∃ l, layers[i]? = some l
  earlier : ∀ (i : Nat) (l : Layer), layers[i]? = some l →
    l.releaseFenceFd = none ∨ ∃ n, l.releaseFenceFd = some (.earlier n)

namespace WrittenBack

variable {layers : List Layer} {indices : List Nat} {out : List Plane} {r : Frame}

theorem map_fst_zip (h : WrittenBack layers indices out r) :
    (indices.zip out).map Prod.fst = indices := by
  rw [List.map_fst_zip]
  exact h.length_eq.ge

theorem layer_of_mem (h : WrittenBack layers indices out r) {i : Nat} {p : Plane}
    (hmem : (i, p) ∈ indices.zip out) :
    r.layers[i]? = (layers[i]?).map (fun l =>
      { l with acquireFenceFd := none, releaseFenceFd := p.releaseFd }) := by
  rw [h.layers_eq]
  apply writeBack_of_mem _ _ _ hmem
  rw [h.map_fst_zip]
  exact h.nodup

theorem layer_of_not_mem (h : WrittenBack layers indices out r) {i : Nat} (hi : i ∉ indices) :
    r.layers[i]? = layers[i]? := by
  rw [h.layers_eq]
  apply writeBack_of_not_mem
  rw [h.map_fst_zip]
  exact hi

theorem mem_zip (h : WrittenBack layers indices out r) {i : Nat} (hi : i ∈ indices) :
    ∃ p, (i, p) ∈ indices.zip out := by
  rw [← h.map_fst_zip] at hi
  obtain ⟨⟨i', p⟩, hmem, rfl⟩ := List.mem_map.mp hi
  exact ⟨p, hmem⟩

/-- Every layer that had a plane is left without an acquire fence. -/
theorem cleared (h : WrittenBack layers indices out r) {i : Nat} {l : Layer}
    (hl : layers[i]? = some l) (hdone : l.acquireFenceFd = none ∨ i ∈ indices) :
    ∃ l', r.layers[i]? = some l' ∧ l'.acquireFenceFd = none := by
  by_cases hi : i ∈ indices
  · obtain ⟨p, hmem⟩ := h.mem_zip hi
    rw [h.layer_of_mem hmem, hl]
    exact ⟨_, rfl, rfl⟩
  · rw [h.layer_of_not_mem hi]
    exact ⟨l, hl, hdone.resolve_right hi⟩

/-- A fence of the kernel in the output field of a layer is the release fence
of its plane. -/
theorem plane_of_stored (h : WrittenBack layers indices out r) {i : Nat} {f : Fence}
    (hf : f.FromKernel) (hstored : r.stored (some i) = some f) :
    ∃ (k : Nat) (p : Plane), indices[k]? = some i ∧ out[k]? = some p ∧ p.releaseFd = some f := by
  obtain ⟨l', hl', hfd⟩ := Option.bind_eq_some_iff.mp hstored
  by_cases hi : i ∈ indices
  · obtain ⟨p, hmem⟩ := h.mem_zip hi
    rw [h.layer_of_mem hmem] at hl'
    obtain ⟨l, _, rfl⟩ := Option.map_eq_some_iff.mp hl'
    obtain ⟨k, hk⟩ := List.mem_iff_getElem?.mp hmem
    obtain ⟨hidx, hp⟩ := List.getElem?_zip_eq_some.mp hk
    exact ⟨k, p, hidx, hp, hfd⟩
  · rw [h.layer_of_not_mem hi] at hl'
    rcases h.earlier i l' hl' with hnone | ⟨n, hn⟩
    · rw [hnone] at hfd
      cases hfd
    · rw [hn] at hfd
      exact absurd (Option.some.inj hfd).symm (hf.ne_earlier n)

theorem stored_of_plane (h : WrittenBack layers indices out r) {k i : Nat} {p : Plane}
    (hi : indices[k]? = some i) (hp : out[k]? = some p) : r.stored (some i) = p.releaseFd := by
  obtain ⟨l, hl⟩ := h.valid i (List.mem_of_getElem? hi)
  have hzip : (indices.zip out)[k]? = some (i, p) := List.getElem?_zip_eq_some.mpr ⟨hi, hp⟩
  rw [Frame.stored, h.layer_of_mem (List.mem_of_getElem? hzip), hl]
  rfl

/-- The release fence of a plane is in the output field of its layer only. -/
theorem release_stored_once (h : WrittenBack layers indices out r) (hnamed : ReleasesNamed out)
    (hretire : r.retireFenceFd = none ∨ r.retireFenceFd = some .present) {f : Fence}
    (hf : f ∈ out.filterMap (·.releaseFd)) : ∃! slot, r.stored slot = some f := by
  obtain ⟨k, p, rfl, hp, hfd⟩ := (mem_releases_iff hnamed f).mp hf
  have hk : k < indices.length := by
    rw [← h.length_eq]
    exact (List.getElem?_eq_some_iff.mp hp).1
  have hi := List.getElem?_eq_getElem hk
  refine ⟨some indices[k], ?_, ?_⟩
  · simp only
    rw [h.stored_of_plane hi hp, hfd]
  · intro slot hslot
    cases slot with
    | none =>
        simp only [Frame.stored] at hslot
        rcases hretire with hnone | hsome
        · rw [hnone] at hslot
          cases hslot
        · rw [hsome] at hslot
          cases hslot
    | some j =>
        obtain ⟨k', p', hidx, hp', hfd'⟩ := h.plane_of_stored (Or.inr ⟨k, rfl⟩) hslot
        rcases hnamed k' p' hp' with hnone | hsome
        · rw [hnone] at hfd'
          cases hfd'
        · rw [hsome] at hfd'
          cases hfd'
          rw [hi] at hidx
          exact hidx.symm

/-- The present fence is the retire fence of the display only. -/
theorem present_stored_once (h : WrittenBack layers indices out r) (hnamed : ReleasesNamed out)
    (hretire : r.retireFenceFd = some .present) : ∃! slot, r.stored slot = some .present := by
  refine ⟨none, hretire, ?_⟩
  intro slot hslot
  cases slot with
  | none => rfl
  | some j =>
      obtain ⟨k, p, _, hp, hfd⟩ := h.plane_of_stored (Or.inl rfl) hslot
      rcases hnamed k p hp with hnone | hsome
      · rw [hnone] at hfd
        cases hfd
      · rw [hsome] at hfd
        cases hfd

/-- Of a frame that was refused nothing is stored. -/
theorem not_stored (h : WrittenBack layers indices out r)
    (hnone : ∀ p ∈ out, p.releaseFd = none) (hretire : r.retireFenceFd = none) {f : Fence}
    (hf : f.FromKernel) (slot : Option Nat) : r.stored slot ≠ some f := by
  intro hslot
  cases slot with
  | none =>
      rw [Frame.stored, hretire] at hslot
      cases hslot
  | some j =>
      obtain ⟨k, p, _, hp, hfd⟩ := h.plane_of_stored hf hslot
      rw [hnone p (List.mem_of_getElem? hp)] at hfd
      cases hfd

end WrittenBack

/-- The fences that the kernel hands out are closed once or stored once, for
planes of different layers. -/
theorem submit_received (hwc : Device) (io : SubmitIo) {layers : List Layer} {indices : List Nat}
    {planes : List Plane} {r : Frame} (hlen : planes.length ≤ 4)
    (hwritten : WrittenBack layers indices (engineSubmit hwc io planes).planes r)
    (hretire : r.retireFenceFd = (engineSubmit hwc io planes).retireFence)
    (hacquire : ∀ f ∈ planes.filterMap (·.acquire), ∃ i, f = .acquire i) :
    let s := engineSubmit hwc io planes
    (∀ i, s.closed.count (.acquire i) = (planes.filterMap (·.acquire)).count (.acquire i)) ∧
      (∀ f ∈ s.received, f.FromKernel) ∧
      ∀ f ∈ s.received, (s.closed.count f = 1 ∧ ∀ slot, r.stored slot ≠ some f) ∨
        (s.closed.count f = 0 ∧ ∃! slot, r.stored slot = some f) := by
  have hsubmit : engineSubmit hwc io planes = submitPlanes hwc io planes := by
    unfold engineSubmit
    rw [if_neg (by simpa using hlen)]
  rw [hsubmit] at hwritten hretire ⊢
  obtain ⟨dropped, -, hclosed, hkernel, hpath⟩ := submitPlanes_spec hwc io planes
  generalize submitPlanes hwc io planes = s at hclosed hkernel hpath hwritten hretire ⊢
  simp only
  have hopen : ∀ f ∈ s.received, (planes.filterMap (·.acquire)).count f = 0 := by
    intro f hf
    rw [List.count_eq_zero]
    intro hmem
    obtain ⟨i, rfl⟩ := hacquire f hmem
    exact (hkernel _ hf).ne_acquire i rfl
  rcases hpath with ⟨hnamed, hdropped, hreceived, hpresent⟩ | ⟨hnone, hretired, hperm, hnodup⟩
  · -- the frame went out
    refine ⟨by simp [hclosed, hdropped], hkernel, ?_⟩
    intro f hf
    right
    refine ⟨by rw [hclosed, hdropped, List.append_nil]; exact hopen f hf, ?_⟩
    rw [hreceived] at hf
    rw [← hretire] at hpresent hf
    rcases List.mem_append.mp hf with hf | hf
    · exact hwritten.release_stored_once hnamed hpresent hf
    · rcases hpresent with h | h
      · simp [h] at hf
      · have hf : f = .present := by simpa [h] using hf
        subst hf
        exact hwritten.present_stored_once hnamed h
  · -- the frame was dropped, and its fences with it
    refine ⟨?_, hkernel, ?_⟩
    · intro i
      have hzero : dropped.count (.acquire i) = 0 := by
        rw [List.count_eq_zero]
        intro hmem
        exact (hkernel _ (hperm.mem_iff.mp hmem)).ne_acquire i rfl
      rw [hclosed, List.count_append, hzero, Nat.add_zero]
    · intro f hf
      left
      refine ⟨?_, hwritten.not_stored hnone (hretire.trans hretired) (hkernel f hf)⟩
      rw [hclosed, List.count_append, hopen f hf, Nat.zero_add, hperm.count_eq]
      exact List.count_eq_one_of_mem hnodup hf

end Received

section Frames

variable {d : List Layer}

theorem indicesFrom_nodup (i : Nat) (kind : Layer → Bool) (layers : List Layer) :
    (indicesFrom i kind layers).Nodup := by
  have hsub : (indicesFrom i kind layers).Sublist ((layers.zipIdx i).map Prod.snd) :=
    List.filter_sublist.map Prod.snd
  rw [List.zipIdx_map_snd] at hsub
  exact hsub.nodup List.nodup_range'

theorem Named.acquire_eq (hnamed : Named d) {i : Nat} {l : Layer} (hl : d[i]? = some l) {f : Fence}
    (hacquire : l.acquireFenceFd = some f) : f = .acquire i := by
  rcases (hnamed i l hl).1 with hnone | hsome
  · rw [hnone] at hacquire
    cases hacquire
  · rw [hsome] at hacquire
    exact (Option.some.inj hacquire).symm

theorem count_fbtAcquire (hnamed : Named d) (hone : d.countP isTarget ≤ 1) {i : Nat}
    {l : Layer} (hl : d[i]? = some l) (hfence : l.acquireFenceFd ≠ none) :
    (fbtAcquire d).toList.count (.acquire i) = if isTarget l then 1 else 0 := by
  have hname : l.acquireFenceFd = some (.acquire i) :=
    ((hnamed i l hl).1).resolve_left hfence
  by_cases htarget : isTarget l = true
  · unfold fbtAcquire
    rw [(findFbt_of_one hone hl htarget).1, if_pos htarget]
    simp [hl, hname]
  · rw [if_neg htarget, List.count_eq_zero]
    intro hmem
    unfold fbtAcquire at hmem
    cases hfind : findFbt d with
    | none => simp [hfind] at hmem
    | some k =>
        obtain ⟨t, ht, htt⟩ := findFbt_isTarget hfind
        have hacq : t.acquireFenceFd = some (.acquire i) := by
          simpa [hfind, ht] using hmem
        cases hnamed.acquire_eq ht hacq
        rw [hl] at ht
        cases ht
        exact htarget htt

theorem fbtAcquire_named (hnamed : Named d) :
    ∀ f ∈ (fbtAcquire d).toList, ∃ i, f = .acquire i := by
  intro f hf
  unfold fbtAcquire at hf
  rw [Option.mem_toList] at hf
  obtain ⟨i, _, hi⟩ := Option.bind_eq_some_iff.mp hf
  obtain ⟨l, hl, hacq⟩ := Option.bind_eq_some_iff.mp hi
  exact ⟨i, hnamed.acquire_eq hl hacq⟩

theorem fences_named (hnamed : Named d) (kind : Layer → Bool) :
    ∀ f ∈ fences kind d, ∃ i, f = .acquire i := by
  intro f hf
  obtain ⟨l, hl, hacq⟩ := List.mem_filterMap.mp hf
  obtain ⟨i, hi⟩ := List.mem_iff_getElem?.mp (List.mem_of_mem_filter hl)
  exact ⟨i, hnamed.acquire_eq hi hacq⟩

theorem isTarget_of_isOverlay {l : Layer} (h : isOverlay l = true) : isTarget l = false := by
  have htype : l.compositionType = .overlay := by simpa [isOverlay] using h
  simp [isTarget, isReal, htype]

/-- Each owned fence occurs once among those of the overlays and the target. -/
theorem count_owned (hnamed : Named d) (hone : d.countP isTarget ≤ 1) {i : Nat} {l : Layer}
    (hl : d[i]? = some l) (hkind : isTarget l = true ∨ isOverlay l = true)
    (hfence : l.acquireFenceFd ≠ none) :
    (fences isOverlay d).count (.acquire i) + (fbtAcquire d).toList.count (.acquire i) = 1 := by
  rw [count_fences_of_named hnamed hl hfence, count_fbtAcquire hnamed hone hl hfence]
  rcases hkind with h | h
  · have hno : isOverlay l = false := by
      by_contra hov
      rw [isTarget_of_isOverlay (by simpa using hov)] at h
      cases h
    simp [h, hno]
  · simp [h, isTarget_of_isOverlay h]

/-- Only acquire fences are owned. -/
theorem count_owned_eq_zero (hnamed : Named d) {f : Fence} (hf : ∀ i, f ≠ .acquire i) :
    (fences isOverlay d).count f + (fbtAcquire d).toList.count f = 0 := by
  rw [Nat.add_eq_zero_iff, List.count_eq_zero, List.count_eq_zero]
  constructor
  · intro hmem
    obtain ⟨i, rfl⟩ := fences_named hnamed isOverlay f hmem
    exact hf i rfl
  · intro hmem
    obtain ⟨i, rfl⟩ := fbtAcquire_named hnamed f hmem
    exact hf i rfl

/-- What happens to the target on the usual path: `first` is its plane or
nothing, `unused` its entry when no plane carries it, and `left` its fence. -/
structure TargetPlane (d : List Layer) (first : List (Nat × Plane)) (unused : Option Nat)
    (left : List Fence) : Prop where
  nodup : (first.map Prod.fst).Nodup
  isTarget : ∀ i ∈ first.map Prod.fst, ∃ l, d[i]? = some l ∧ isTarget l = true
  covers : ∀ i l, d[i]? = some l → Hwc.isTarget l = true →
    unused = some i ∨ i ∈ first.map Prod.fst
  closes : ∀ f, left.count f + ((first.map Prod.snd).filterMap (·.acquire)).count f =
    (fbtAcquire d).toList.count f

namespace TargetPlane

variable {first : List (Nat × Plane)} {unused : Option Nat} {left : List Fence} {r : Promoted}

/-- The planes belong to different layers of the list. -/
theorem nodup_planes (h : TargetPlane d first unused left) (hr : PromoteSpec 0 d r) :
    ((first ++ r.planes).map Prod.fst).Nodup := by
  rw [List.map_append, List.nodup_append']
  refine ⟨h.nodup, hr.indices.nodup (indicesFrom_nodup _ _ _), ?_⟩
  intro i hi hi'
  obtain ⟨l, hl, ht⟩ := h.isTarget i hi
  obtain ⟨l', hl', hoverlay⟩ := mem_indicesFrom_zero.mp (hr.indices.subset hi')
  rw [hl] at hl'
  cases hl'
  rw [isTarget_of_isOverlay hoverlay] at ht
  cases ht

theorem layer_of_plane (h : TargetPlane d first unused left) (hr : PromoteSpec 0 d r) {i : Nat}
    (hi : i ∈ (first ++ r.planes).map Prod.fst) : ∃ l, d[i]? = some l := by
  rw [List.map_append] at hi
  rcases List.mem_append.mp hi with hi | hi
  · exact (h.isTarget i hi).imp fun l h => h.1
  · exact (mem_indicesFrom_zero.mp (hr.indices.subset hi)).imp fun l h => h.1

/-- Closed on the way or in a plane, all owned fences are accounted for. -/
theorem count_acquires (h : TargetPlane d first unused left) (hr : PromoteSpec 0 d r) (f : Fence) :
    (r.closed ++ left).count f +
        (((first ++ r.planes).map Prod.snd).filterMap (·.acquire)).count f =
      (fences isOverlay d).count f + (fbtAcquire d).toList.count f := by
  have hplanes : ((r.planes.map Prod.snd).filterMap (·.acquire)) =
      r.planes.filterMap (·.2.acquire) := List.filterMap_map
  rw [← hr.closes f, ← h.closes f, List.map_append, List.filterMap_append, List.count_append,
    List.count_append, hplanes]
  omega

theorem not_acquired (h : TargetPlane d first unused left) (hr : PromoteSpec 0 d r)
    (hnamed : Named d) {f : Fence} (hf : ∀ i, f ≠ .acquire i) :
    (r.closed ++ left).count f = 0 ∧
      (((first ++ r.planes).map Prod.snd).filterMap (·.acquire)).count f = 0 := by
  have htotal := h.count_acquires hr f
  rw [count_owned_eq_zero hnamed hf] at htotal
  omega

theorem acquired_named (h : TargetPlane d first unused left) (hr : PromoteSpec 0 d r)
    (hnamed : Named d) :
    ∀ f ∈ ((first ++ r.planes).map Prod.snd).filterMap (·.acquire), ∃ i, f = .acquire i := by
  intro f hf
  by_contra hno
  push Not at hno
  exact absurd hf (List.count_eq_zero.mp (h.not_acquired hr hnamed hno).2)

/-- A frame over layers that still have the release fences of the list. -/
theorem writtenBack (h : TargetPlane d first unused left) (hr : PromoteSpec 0 d r)
    (hnamed : Named d) {layers : List Layer} {out : List Plane} {frame : Frame}
    (hlength : layers.length = d.length)
    (hrelease : ∀ (i : Nat) (l : Layer), d[i]? = some l →
      ∃ l', layers[i]? = some l' ∧ l'.releaseFenceFd = l.releaseFenceFd)
    (hout : out.length = (first ++ r.planes).length)
    (hframe : frame.layers = writeBack layers (((first ++ r.planes).map Prod.fst).zip out)) :
    WrittenBack layers ((first ++ r.planes).map Prod.fst) out frame := by
  refine ⟨hframe, by rw [hout, List.length_map], h.nodup_planes hr, ?_, ?_⟩
  · intro i hi
    obtain ⟨l, hl⟩ := h.layer_of_plane hr hi
    exact (hrelease i l hl).imp fun l' h => h.1
  · intro i l hl
    have hi : i < d.length := by
      rw [← hlength]
      exact (List.getElem?_eq_some_iff.mp hl).1
    have hd := List.getElem?_eq_getElem hi
    obtain ⟨l', hl', hsame⟩ := hrelease i d[i] hd
    rw [hl] at hl'
    cases hl'
    rw [hsame]
    exact (hnamed i d[i] hd).2

end TargetPlane

theorem length_planes {first : List (Nat × Plane)} {r : Promoted} (hr : PromoteSpec 0 d r)
    (hroom : first.length + d.countP isOverlay ≤ 4) : (first ++ r.planes).length ≤ 4 := by
  have hle := hr.indices.length_le
  rw [List.length_map, length_indicesFrom] at hle
  rw [List.length_append]
  omega

/-- The layers before the submission: nothing is left to be closed but what
the planes carry. -/
theorem layers_before_submit (hwc : Device) (ge : Nat → Option Int) (n : Nat)
    (hroom : n + d.countP isOverlay ≤ 4) (fbt : Option Nat) (used : List (Nat × Plane))
    (hfbt : ∀ i l, d[i]? = some l → isTarget l = true → fbt = some i ∨ i ∈ used.map Prod.fst) :
    let r := promote hwc ge 0 n d
    let layers := closeUnused fbt r.layers
    layers.length = d.length ∧ ∀ (i : Nat) (l : Layer), d[i]? = some l → ∃ l', layers[i]? = some l' ∧
      l'.releaseFenceFd = l.releaseFenceFd ∧
      ((isTarget l = true ∨ isOverlay l = true) → l'.acquireFenceFd = none ∨
        i ∈ (used ++ r.planes).map Prod.fst) := by
  intro r layers
  have hspec := promote_spec hwc ge 0 n d hroom
  refine ⟨?_, ?_⟩
  · rw [← hspec.length_eq]
    cases fbt <;> simp [layers, closeUnused, r]
  intro i l hl
  obtain ⟨l', hl', hrelease, hdone⟩ := hspec.settles i l hl
  have hpromoted : isOverlay l = true → l'.acquireFenceFd = none ∨
      i ∈ (used ++ r.planes).map Prod.fst := by
    intro hoverlay
    refine (hdone hoverlay).imp id ?_
    intro hmem
    rw [List.map_append]
    rw [Nat.zero_add] at hmem
    exact List.mem_append_right _ hmem
  by_cases hclosed : fbt = some i
  · refine ⟨closeAcquire l', ?_, hrelease, fun _ => Or.inl rfl⟩
    simp only [layers, closeUnused, hclosed, List.getElem?_modify_eq, r, hl']
    rfl
  · refine ⟨l', ?_, hrelease, ?_⟩
    · cases fbt with
      | none => exact hl'
      | some k =>
          simp only [layers, closeUnused]
          rw [List.getElem?_modify_ne]
          · exact hl'
          · exact fun h => hclosed (congrArg some h)
    · rintro (htarget | hoverlay)
      · rcases hfbt i l hl htarget with h | h
        · exact absurd h hclosed
        · right
          rw [List.map_append]
          exact List.mem_append_left _ h
      · exact hpromoted hoverlay

/-- The usual path of `fhwc_set`. -/
theorem fence_law_usual (hwc : Device) (ge : Nat → Option Int) (io : SubmitIo)
    (hnamed : Named d) (hone : d.countP isTarget ≤ 1) {first : List (Nat × Plane)}
    {unused : Option Nat} {left : List Fence}
    (hroom : first.length + d.countP isOverlay ≤ 4) (htarget : TargetPlane d first unused left) :
    let r := promote hwc ge 0 first.length d
    let planes := first ++ r.planes
    let layers := closeUnused unused r.layers
    let s := engineSubmit hwc io (planes.map Prod.snd)
    FenceLaw d (if planes = [] then { layers, closed := r.closed ++ left }
      else
        { layers := writeBack layers ((planes.map Prod.fst).zip s.planes)
          retireFenceFd := s.retireFence
          planes
          closed := r.closed ++ left ++ s.closed
          received := s.received }) := by
  have hr := promote_spec hwc ge 0 first.length d hroom
  obtain ⟨hlength, hbefore⟩ :=
    layers_before_submit hwc ge first.length hroom unused first htarget.covers
  simp only at hlength hbefore ⊢
  generalize promote hwc ge 0 first.length d = r at hr hlength hbefore ⊢
  generalize closeUnused unused r.layers = layers at hlength hbefore ⊢
  have hclosed : ∀ (i : Nat) (l : Layer), d[i]? = some l →
      (isTarget l = true ∨ isOverlay l = true) → l.acquireFenceFd ≠ none →
      (r.closed ++ left).count (.acquire i) +
        (((first ++ r.planes).map Prod.snd).filterMap (·.acquire)).count (.acquire i) = 1 := by
    intro i l hl hkind hfence
    rw [htarget.count_acquires hr]
    exact count_owned hnamed hone hl hkind hfence
  split_ifs with hnil
  · -- no plane at all
    refine ⟨?_, by simp⟩
    intro i l hl hkind hfence
    obtain ⟨l', hl', _, hdone⟩ := hbefore i l hl
    have htotal := hclosed i l hl hkind hfence
    rw [hnil] at htotal hdone
    exact ⟨htotal, l', hl', (hdone hkind).resolve_right (by simp)⟩
  · generalize hframe : Frame.mk _ _ _ _ _ = frame
    have hwritten : WrittenBack layers ((first ++ r.planes).map Prod.fst)
        (engineSubmit hwc io ((first ++ r.planes).map Prod.snd)).planes frame := by
      apply htarget.writtenBack hr hnamed hlength
      · intro i l hl
        obtain ⟨l', hl', hsame, _⟩ := hbefore i l hl
        exact ⟨l', hl', hsame⟩
      · rw [engineSubmit_length, List.length_map]
      · rw [← hframe]
    have hlen : ((first ++ r.planes).map Prod.snd).length ≤ 4 := by
      rw [List.length_map]
      exact length_planes hr hroom
    obtain ⟨hcloses, hkernel, hlaw⟩ := submit_received hwc io hlen hwritten
      (by rw [← hframe]) (htarget.acquired_named hr hnamed)
    have hcount : ∀ f, frame.closed.count f = (r.closed ++ left).count f +
        (engineSubmit hwc io ((first ++ r.planes).map Prod.snd)).closed.count f := by
      intro f
      rw [← hframe, List.count_append]
    refine ⟨?_, ?_⟩
    · intro i l hl hkind hfence
      obtain ⟨l', hl', _, hafter⟩ := hbefore i l hl
      refine ⟨?_, hwritten.cleared hl' (hafter hkind)⟩
      rw [hcount, hcloses i]
      exact hclosed i l hl hkind hfence
    · intro f hf
      have hf' : f ∈ (engineSubmit hwc io ((first ++ r.planes).map Prod.snd)).received := by
        rwa [← hframe] at hf
      rw [hcount, (htarget.not_acquired hr hnamed (hkernel f hf').ne_acquire).1, Nat.zero_add]
      exact hlaw f hf'

theorem fbtTarget_eq_none_iff (hwc : Device) (hone : d.countP isTarget ≤ 1) :
    fbtTarget hwc d = none ↔ ∀ l ∈ d, isTarget l = true → l.handle = none := by
  constructor
  · intro hnone l hl htarget
    obtain ⟨i, hi⟩ := List.mem_iff_getElem?.mp hl
    cases hhandle : l.handle with
    | none => rfl
    | some handle =>
        simp [fbtTarget, (findFbt_of_one hone hi htarget).1, hi, hhandle] at hnone
  · intro hall
    cases hfind : findFbt d with
    | none => simp [fbtTarget, hfind]
    | some i =>
        obtain ⟨l, hl, htarget⟩ := findFbt_isTarget hfind
        simp [fbtTarget, hfind, hl, hall l (List.mem_of_getElem? hl) htarget]

theorem fbtTarget_eq_some {hwc : Device} {e : Nat × Plane} (h : fbtTarget hwc d = some e) :
    findFbt d = some e.1 ∧ e.2.acquire = fbtAcquire d := by
  unfold fbtTarget at h
  cases hfind : findFbt d with
  | none => simp [hfind] at h
  | some i =>
      obtain ⟨l, hl, _⟩ := findFbt_isTarget hfind
      cases hhandle : l.handle with
      | none => simp [hfind, hl, hhandle] at h
      | some handle =>
          simp only [hfind, hl, hhandle, Option.bind_eq_bind, Option.bind_some, Option.pure_def,
            Option.some.injEq] at h
          rw [← h]
          simp [fbtAcquire, fbtPlane, hfind, hl]

/-- Where there is a usable target, or nothing is left to GLES. -/
theorem fence_law_of_usual (hwc : Device) (ge : Nat → Option Int) (io : SubmitIo)
    (hnamed : Named d) (hone : d.countP isTarget ≤ 1)
    (hroom : d.countP isOverlay + (if d.any isFramebuffer then 1 else 0) ≤ 4)
    (husual : ¬ (d.any isFramebuffer = true ∧ fbtTarget hwc d = none)) :
    FenceLaw d (fhwcSet hwc ge io d) := by
  have hgles : (d.any (fun l => decide (l.compositionType = .framebuffer))) =
      d.any isFramebuffer := rfl
  unfold fhwcSet
  simp only [hgles]
  rw [if_neg husual]
  cases hany : d.any isFramebuffer with
  | true =>
      rw [hany, if_pos rfl] at hroom
      obtain ⟨e, he⟩ : ∃ e, fbtTarget hwc d = some e := by
        rw [← Option.ne_none_iff_exists']
        exact fun h => husual ⟨hany, h⟩
      obtain ⟨hfind, hacquire⟩ := fbtTarget_eq_some he
      have hplane : TargetPlane d [e] none [] := by
        refine ⟨by simp, ?_, ?_, ?_⟩
        · intro i hi
          rw [List.map_singleton, List.mem_singleton] at hi
          rw [hi]
          exact findFbt_isTarget hfind
        · intro i l hl htarget
          right
          have hi := (findFbt_of_one hone hl htarget).1
          rw [hfind] at hi
          simp [Option.some.inj hi]
        · intro f
          rw [← hacquire]
          cases hfence : e.2.acquire <;> simp [hfence]
      simp only [if_true, he, Option.toList_some]
      apply fence_law_usual hwc ge io hnamed hone _ hplane
      simpa [Nat.add_comm] using hroom
  | false =>
      rw [hany] at hroom
      have hplane : TargetPlane d [] (findFbt d) (fbtAcquire d).toList := by
        refine ⟨by simp, by simp, ?_, by simp⟩
        intro i l hl htarget
        exact Or.inl (findFbt_of_one hone hl htarget).1
      simp only [Bool.false_eq_true, if_false]
      apply fence_law_usual hwc ge io hnamed hone _ hplane
      simpa using hroom

/-- Without a usable target, the early return is right only about the target. -/
theorem fence_law_early_iff (hwc : Device) (ge : Nat → Option Int) (io : SubmitIo)
    (hnamed : Named d) (hone : d.countP isTarget ≤ 1)
    (hearly : d.any isFramebuffer = true ∧ fbtTarget hwc d = none) :
    FenceLaw d (fhwcSet hwc ge io d) ↔
      ∀ l ∈ d, isOverlay l = true → l.acquireFenceFd = none := by
  have hgles : (d.any (fun l => decide (l.compositionType = .framebuffer))) =
      d.any isFramebuffer := rfl
  unfold fhwcSet
  simp only [hgles]
  rw [if_pos hearly]
  constructor
  · intro hlaw l hl hoverlay
    by_contra hfence
    obtain ⟨i, hi⟩ := List.mem_iff_getElem?.mp hl
    have hone' := (hlaw.1 i l hi (Or.inr hoverlay) hfence).1
    simp only at hone'
    rw [count_fbtAcquire hnamed hone hi hfence, isTarget_of_isOverlay hoverlay] at hone'
    cases hone'
  · intro hnone
    refine ⟨?_, by simp⟩
    intro i l hl hkind hfence
    rcases hkind with htarget | hoverlay
    · have hfind := (findFbt_of_one hone hl htarget).1
      refine ⟨?_, ?_⟩
      · rw [count_fbtAcquire hnamed hone hl hfence, if_pos htarget]
      · simp only [hfind, closeUnused, List.getElem?_modify_eq, hl]
        exact ⟨_, rfl, rfl⟩
    · exact absurd (hnone l (List.mem_of_getElem? hl) hoverlay) hfence

end Frames

/-- For every layer list with at most one target, every outcome of the
queries, of `calloc` and of the ioctls: all fences are accounted for exactly
when the frame is not one of those that leak. -/
theorem fence_law_iff (hwc : Device) (ge ge' : Nat → Option Int) (overlays maxplanes : Int)
    (io : SubmitIo) (layers d : List Layer)
    (hprepare : d = fhwcPrepare hwc ge overlays maxplanes layers) (hnamed : Named layers)
    (hone : layers.countP isTarget ≤ 1) :
    FenceLaw d (fhwcSet hwc ge' io d) ↔ ¬ LeakingFrame d := by
  have hroom := prepare_planes_le hwc ge overlays maxplanes layers
  rw [← hprepare] at hroom
  have hone' : d.countP isTarget ≤ 1 := by
    rw [hprepare, prepare_countP_target]
    exact hone
  have hnamed' : Named d := by
    intro i l hl
    rw [hprepare] at hl
    obtain ⟨l₀, hl₀, hacquire, hrelease, _⟩ :=
      prepare_getElem? hwc ge overlays maxplanes layers hl
    rw [hacquire, hrelease]
    exact hnamed i l₀ hl₀
  have husable := fbtTarget_eq_none_iff hwc hone'
  by_cases hearly : d.any isFramebuffer = true ∧ fbtTarget hwc d = none
  · rw [fence_law_early_iff hwc ge' io hnamed' hone' hearly]
    constructor
    · rintro hnone ⟨_, _, l, hl, hoverlay, hfence⟩
      exact hfence (hnone l hl hoverlay)
    · intro hleak l hl hoverlay
      by_contra hfence
      exact hleak ⟨hearly.1, husable.mp hearly.2, l, hl, hoverlay, hfence⟩
  · refine iff_of_true (fence_law_of_usual hwc ge' io hnamed' hone' hroom hearly) ?_
    rintro ⟨hany, hnone, _⟩
    exact hearly ⟨hany, husable.mpr hnone⟩

/-- A rotated layer below a plain one with an acquire fence, on a first frame
for which no target buffer exists yet. -/
def firstFrame : List Layer :=
  [{ screenLayer .framebuffer with transform := 4 },
    { screenLayer .framebuffer with acquireFenceFd := some (.acquire 1) },
    { screenLayer .framebufferTarget with handle := none }]

/-- The overlay's fence is neither closed nor cleared. -/
theorem fence_law_leaks :
    let d := fhwcPrepare panel (fun _ => some 1) 1 4 firstFrame
    Named firstFrame ∧ firstFrame.countP isTarget ≤ 1 ∧
      (fhwcSet panel (fun _ => some 1) goodIo d).closed = [] ∧
      ¬ FenceLaw d (fhwcSet panel (fun _ => some 1) goodIo d) := by
  intro d
  have hclosed : (fhwcSet panel (fun _ => some 1) goodIo d).closed = [] := by decide
  refine ⟨?_, by decide, hclosed, ?_⟩
  · intro i l hl
    match i with
    | 0 =>
        cases hl
        exact ⟨Or.inl rfl, Or.inl rfl⟩
    | 1 =>
        cases hl
        exact ⟨Or.inr rfl, Or.inl rfl⟩
    | 2 =>
        cases hl
        exact ⟨Or.inl rfl, Or.inl rfl⟩
    | _ + 3 => cases hl
  · intro hlaw
    have hcount := (hlaw.1 1 { screenLayer .overlay with acquireFenceFd := some (.acquire 1) }
      (by decide) (Or.inr (by decide)) (by decide)).1
    rw [hclosed] at hcount
    cases hcount

/-- The same layers once the target has a buffer, on a frame that the kernel
refuses: every fence is closed. -/
theorem fence_law_iff_refused :
    let layers := [{ screenLayer .framebuffer with transform := 4 },
      { screenLayer .framebuffer with acquireFenceFd := some (.acquire 1) },
      { screenLayer .framebufferTarget with acquireFenceFd := some (.acquire 2) }]
    let d := fhwcPrepare panel (fun _ => some 1) 1 4 layers
    let r := fhwcSet panel (fun _ => some 1) { goodIo with triggerSession := false } d
    r.closed = [.acquire 2, .acquire 1, .present, .prepare 0, .prepare 1] ∧
      ¬ LeakingFrame d ∧ FenceLaw d r := by
  intro layers d r
  have hnamed : Named layers := by
    intro i l hl
    match i with
    | 0 =>
        cases hl
        exact ⟨Or.inl rfl, Or.inl rfl⟩
    | 1 =>
        cases hl
        exact ⟨Or.inr rfl, Or.inl rfl⟩
    | 2 =>
        cases hl
        exact ⟨Or.inr rfl, Or.inl rfl⟩
    | _ + 3 => cases hl
  have hgood : ¬ LeakingFrame d := by
    rintro ⟨_, hnone, _⟩
    have htarget := hnone
      { screenLayer .framebufferTarget with acquireFenceFd := some (.acquire 2) }
      (by decide) (by decide)
    cases htarget
  exact ⟨by decide, hgood, (fence_law_iff panel (fun _ => some 1) (fun _ => some 1) 1 4
    { goodIo with triggerSession := false } layers d rfl hnamed (by decide)).mpr hgood⟩

end MeizuM5c.Hwc
