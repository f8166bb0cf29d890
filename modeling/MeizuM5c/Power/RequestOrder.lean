import MeizuM5c.Power.ApplyWrites
import MeizuM5c.Power.Requests

/-!
Requests of different sources that arrive at one time, in any order. Each of
them runs a pass of its own over the nodes, on a different set of requests;
`finish` says what is written in the end from the node at the beginning and
the requests at the end alone.
-/

namespace MeizuM5c.Power

open Lib

/-- The arguments of a `setRequest`, without the time. -/
structure SetCall where
  source : String
  values : ValueMap
  untilTime : Deadline
  extend : Bool

namespace Engine

section Law

variable {σ : Type} (fs : Fs σ)

def setAll (now : Time) (calls : List SetCall) (s : Engine × σ) : Engine × σ :=
  calls.foldl (fun s c => setRequest fs c.source c.values c.untilTime c.extend now s.1 s.2) s

/-- Worlds in which writes and captures succeed and the readings of the floors
stay what they are. -/
structure SteadyWorld (cfgs : List NodeConfig) (khz : String → Option Int) (P : σ → Prop) :
    Prop where
  read : ∀ path w, P w → P (fs.read path w).2
  write : ∀ path value w, P w → P (fs.write path value w).2 ∧ (fs.write path value w).1 = .ok ()
  ceiling : ∀ cfg ∈ cfgs, cfg.type = .cpufreqFloor ∨ cfg.type = .ppmFloor →
    ∀ w, P w → (readKhz fs cfg.maxPath w).1 = khz cfg.maxPath
  released : ∀ cfg ∈ cfgs, cfg.type = .cpufreqFloor →
    ∀ w, P w → (readKhz fs cfg.minInfoPath w).1 = khz cfg.minInfoPath
  capture : ∀ cfg ∈ cfgs, cfg.type = .value → cfg.release = .capture →
    ∀ w, P w → (fs.read cfg.path w).1 ≠ none

/-- A node that is held without a captured value, which only a failed capture
leaves behind, and that no request asks for in the end. -/
def LateCapture (node : NodeState) (start final : OrdMap String Request) : Prop :=
  node.cfg.type = .value ∧ node.cfg.release = .capture ∧ node.captured = none ∧
    tokensFor start node.cfg.name ≠ [] ∧ tokensFor final node.cfg.name = []

/-- Two orders of the same calls end in the same requests, and with the same
value written on every node that is not captured late. -/
def OrderFree (now : Time) (calls others : List SetCall) (s : Engine × σ) : Prop :=
  (setAll fs now calls s).1.mRequests = (setAll fs now others s).1.mRequests ∧
    ∀ (i : Nat) (node : NodeState), s.1.mNodes[i]? = some node →
      ¬ LateCapture node (dropExpired s.1.mRequests now) (setAll fs now calls s).1.mRequests →
      ∃ a b, (setAll fs now calls s).1.mNodes[i]? = some a ∧
        (setAll fs now others s).1.mNodes[i]? = some b ∧ a.written = b.written

/-- The aggregate under `maxInt`, if some token is a number. -/
def intOf (tokens : List String) : Option Int := maxOpt parseInt tokens

/-- The aggregate under `maxFields`. -/
def fieldsOf (tokens : List String) : List Int :=
  tokens.foldl (fun best t => fieldMax int64Min best (parseFields t)) []

structure IntLaw : Prop where
  written : ∀ cfg tokens, cfg.aggregate = .maxInt →
    valueTarget cfg tokens = ((intOf tokens).map toString).getD cfg.defaultValue
  append : ∀ a b, intOf (a ++ b) = (intOf a).merge max (intOf b)
  comm : ∀ a b, (intOf a).merge max (intOf b) = (intOf b).merge max (intOf a)
  assoc : ∀ a b c, ((intOf a).merge max (intOf b)).merge max (intOf c) =
    (intOf a).merge max ((intOf b).merge max (intOf c))
  mono : ∀ before token after v, intOf (before ++ after) = some v →
    ∃ v', intOf (before ++ token :: after) = some v' ∧ v ≤ v'
  ignored : ∀ before token after, parseInt token = none →
    intOf (before ++ token :: after) = intOf (before ++ after)

/-- A row that is too short counts as if its missing fields were not there:
what fills them up is never the value of a field. -/
structure FieldsLaw : Prop where
  written : ∀ cfg tokens, cfg.aggregate = .maxFields →
    valueTarget cfg tokens = if fieldsOf tokens = [] then cfg.defaultValue
      else " ".intercalate ((fieldsOf tokens).map toString)
  append : ∀ a b, fieldsOf (a ++ b) = fieldMax int64Min (fieldsOf a) (fieldsOf b)
  comm : ∀ a b, fieldMax int64Min (fieldsOf a) (fieldsOf b) =
    fieldMax int64Min (fieldsOf b) (fieldsOf a)
  assoc : ∀ a b c, fieldMax int64Min (fieldMax int64Min (fieldsOf a) (fieldsOf b)) (fieldsOf c) =
    fieldMax int64Min (fieldsOf a) (fieldMax int64Min (fieldsOf b) (fieldsOf c))
  fieldwise : ∀ a b (i : Nat), (fieldMax int64Min (fieldsOf a) (fieldsOf b))[i]? =
    (fieldsOf a)[i]?.merge max (fieldsOf b)[i]?
  mono : ∀ before token after,
    (fieldsOf (before ++ after)).length ≤ (fieldsOf (before ++ token :: after)).length ∧
    ∀ (i : Nat) (v : Int), (fieldsOf (before ++ after))[i]? = some v →
      ∃ v', (fieldsOf (before ++ token :: after))[i]? = some v' ∧ v ≤ v'
  ignored : ∀ before token after, (∃ field ∈ splitFields token, parseInt field = none) →
    fieldsOf (before ++ token :: after) = fieldsOf (before ++ after)
  padding : ∀ tokens (i : Nat) (v : Int), (fieldsOf tokens)[i]? = some v →
    ∃ token ∈ tokens, (parseFields token)[i]? = some v

end Law

section Aggregates

theorem intLaw : IntLaw where
  written := by
    intro cfg tokens haggregate
    unfold valueTarget intOf
    rw [haggregate]
    cases maxOpt parseInt tokens <;> rfl
  append := fun a b => maxOpt_append parseInt a b
  comm := fun a b => merge_max_comm.comm _ _
  assoc := fun a b c => merge_max_assoc.assoc _ _ _
  mono := by
    intro before token after v hv
    unfold intOf at hv ⊢
    rw [maxOpt_insert]
    exact le_merge_max hv
  ignored := by
    intro before token after hnone
    unfold intOf
    rw [maxOpt_insert, hnone, Option.merge_none_right]

theorem int64Min_le_parseFields (token : String) : ∀ x ∈ parseFields token, int64Min ≤ x := by
  intro x hx
  have hrange := parseFields_range hx
  simp only [inInt64, decide_eq_true_eq] at hrange
  exact hrange.1

theorem fieldsOf_getElem? (tokens : List String) (i : Nat) :
    (fieldsOf tokens)[i]? = maxOpt (fun t => (parseFields t)[i]?) tokens :=
  foldl_fieldMax_getElem? int64Min parseFields tokens (fun t _ => int64Min_le_parseFields t) i

theorem exists_field_of_fieldsOf {tokens : List String} {i : Nat} {v : Int}
    (h : (fieldsOf tokens)[i]? = some v) : ∃ token ∈ tokens, (parseFields token)[i]? = some v := by
  rw [fieldsOf_getElem?] at h
  exact ((maxOpt_eq_some_iff _ _ _).mp h).1

theorem int64Min_le_fieldsOf (tokens : List String) : ∀ x ∈ fieldsOf tokens, int64Min ≤ x := by
  intro x hx
  obtain ⟨i, hi⟩ := List.mem_iff_getElem?.mp hx
  obtain ⟨token, -, htoken⟩ := exists_field_of_fieldsOf hi
  exact int64Min_le_parseFields token x (List.mem_of_getElem? htoken)

theorem parseFields_of_unparsable {token : String}
    (h : ∃ field ∈ splitFields token, parseInt field = none) : parseFields token = [] := by
  obtain ⟨field, hfield, hnone⟩ := h
  unfold parseFields
  simp only
  rw [if_neg]
  rw [List.all_eq_true]
  intro hall
  simpa [hnone] using hall field hfield

theorem fieldsLaw : FieldsLaw where
  written := by
    intro cfg tokens haggregate
    unfold valueTarget fieldsOf
    rw [haggregate]
    simp only [List.isEmpty_iff]
  append := by
    intro a b
    apply List.ext_getElem?
    intro i
    rw [fieldMax_getElem? _ _ _ i (int64Min_le_fieldsOf b)]
    simp only [fieldsOf_getElem?, maxOpt_append]
  comm := fun a b => fieldMax_comm (int64Min_le_fieldsOf a) (int64Min_le_fieldsOf b)
  assoc := fun _ b c => fieldMax_assoc (int64Min_le_fieldsOf b) (int64Min_le_fieldsOf c)
  fieldwise := fun _ b i => fieldMax_getElem? _ _ _ i (int64Min_le_fieldsOf b)
  mono := by
    intro before token after
    have hfield (i : Nat) (v : Int) (hv : (fieldsOf (before ++ after))[i]? = some v) :
        ∃ v', (fieldsOf (before ++ token :: after))[i]? = some v' ∧ v ≤ v' := by
      rw [fieldsOf_getElem?] at hv ⊢
      rw [maxOpt_insert]
      exact le_merge_max hv
    refine ⟨?_, hfield⟩
    by_contra hlong
    obtain ⟨v', hv', -⟩ := hfield (fieldsOf (before ++ token :: after)).length _
      (List.getElem?_eq_getElem (not_le.mp hlong))
    simp at hv'
  ignored := by
    intro before token after hbad
    apply List.ext_getElem?
    intro i
    rw [fieldsOf_getElem?, fieldsOf_getElem?, maxOpt_insert, parseFields_of_unparsable hbad]
    simp
  padding := fun _ _ _ h => exists_field_of_fieldsOf h

end Aggregates

section Requests

variable {now : Time}

/-- The requests after a `setRequest`. -/
def requestsAfter (now : Time) (requests : OrdMap String Request) (c : SetCall) :
    OrdMap String Request :=
  dropExpired (requests.insert c.source
    ⟨c.values, extendedUntil requests c.source c.untilTime c.extend now⟩) now

/-- What a `setRequest` leaves of its source. -/
def storedBy (now : Time) (requests : OrdMap String Request) (c : SetCall) : Option Request :=
  let untilTime := extendedUntil requests c.source c.untilTime c.extend now
  if Deadline.atTime now < untilTime then some ⟨c.values, untilTime⟩ else none

theorem find?_dropExpired (requests : OrdMap String Request) (now : Time) (source : String) :
    (dropExpired requests now).find? source =
      (requests.find? source).filter (fun r => decide (Deadline.atTime now < r.untilTime)) := by
  apply Option.ext
  intro r
  rw [EngineOp.find?_dropExpired_eq_some_iff, Option.filter_eq_some_iff, decide_eq_true_eq]

theorem find?_requestsAfter (requests : OrdMap String Request) (c : SetCall) (source : String) :
    (requestsAfter now requests c).find? source =
      if source = c.source then storedBy now requests c
      else (dropExpired requests now).find? source := by
  unfold requestsAfter
  rw [find?_dropExpired]
  split_ifs with heq
  · rw [heq, OrdMap.find?_insert_self]
    simp only [Option.filter, storedBy, decide_eq_true_eq]
  · rw [OrdMap.find?_insert_of_ne _ _ heq, find?_dropExpired]

/-- Expired requests make no difference to an extension. -/
theorem extendedUntil_congr {requests others : OrdMap String Request} {source : String}
    (h : (dropExpired requests now).find? source = (dropExpired others now).find? source)
    (untilTime : Deadline) (extend : Bool) :
    extendedUntil requests source untilTime extend now =
      extendedUntil others source untilTime extend now := by
  have hlive (m : OrdMap String Request) : extendedUntil m source untilTime extend now =
      ((dropExpired m now).find? source).elim untilTime
        (fun old => if extend then max untilTime old.untilTime else untilTime) := by
    rw [find?_dropExpired]
    unfold extendedUntil
    cases m.find? source with
    | none => rfl
    | some old =>
        by_cases hold : Deadline.atTime now < old.untilTime <;> simp [Option.filter, hold]
  rw [hlive requests, hlive others, h]

theorem storedBy_congr {requests others : OrdMap String Request} {c : SetCall}
    (h : (dropExpired requests now).find? c.source = (dropExpired others now).find? c.source) :
    storedBy now requests c = storedBy now others c := by
  unfold storedBy
  rw [extendedUntil_congr h]

theorem dropExpired_requestsAfter (requests : OrdMap String Request) (c : SetCall) :
    dropExpired (requestsAfter now requests c) now = requestsAfter now requests c :=
  dropExpired_dropExpired _ now

/-- The last word on a source that is not called any more. -/
theorem find?_foldl_of_not_mem {calls : List SetCall} {source : String}
    (hsource : source ∉ calls.map SetCall.source) (requests : OrdMap String Request) :
    (dropExpired (calls.foldl (requestsAfter now) requests) now).find? source =
      (dropExpired requests now).find? source := by
  induction calls generalizing requests with
  | nil => rfl
  | cons c calls ih =>
      rw [List.map_cons, List.mem_cons, not_or] at hsource
      rw [List.foldl_cons, ih hsource.2, dropExpired_requestsAfter, find?_requestsAfter,
        if_neg hsource.1]

theorem find?_foldl_of_mem {calls : List SetCall} (hnodup : (calls.map SetCall.source).Nodup)
    {c : SetCall} (hc : c ∈ calls) (requests : OrdMap String Request) :
    (dropExpired (calls.foldl (requestsAfter now) requests) now).find? c.source =
      storedBy now requests c := by
  induction calls generalizing requests with
  | nil => cases hc
  | cons first calls ih =>
      rw [List.map_cons, List.nodup_cons] at hnodup
      rw [List.foldl_cons]
      rcases List.mem_cons.mp hc with rfl | hc
      · rw [find?_foldl_of_not_mem hnodup.1, dropExpired_requestsAfter, find?_requestsAfter,
          if_pos rfl]
      · have hne : c.source ≠ first.source := by
          intro heq
          exact hnodup.1 (heq ▸ List.mem_map_of_mem hc)
        rw [ih hnodup.2 hc]
        apply storedBy_congr
        rw [dropExpired_requestsAfter, find?_requestsAfter, if_neg hne]

/-- Nothing expired is left once a call has been made. -/
theorem dropExpired_foldl {calls : List SetCall} (hne : calls ≠ [])
    (requests : OrdMap String Request) :
    dropExpired (calls.foldl (requestsAfter now) requests) now =
      calls.foldl (requestsAfter now) requests := by
  induction calls using List.reverseRecOn with
  | nil => exact absurd rfl hne
  | append_singleton calls c _ =>
      rw [List.foldl_append, List.foldl_cons, List.foldl_nil, dropExpired_requestsAfter]

/-- The requests in the end do not depend on the order of the calls. -/
theorem foldl_requestsAfter_perm (now : Time) {calls others : List SetCall}
    (hnodup : (calls.map SetCall.source).Nodup) (hperm : calls.Perm others)
    (requests : OrdMap String Request) :
    calls.foldl (requestsAfter now) requests = others.foldl (requestsAfter now) requests := by
  by_cases hempty : calls = []
  · rw [hempty] at hperm
    rw [hempty, hperm.nil_eq]
  · have hothers : others ≠ [] := by
      rintro rfl
      exact hempty hperm.eq_nil
    have hnodup' := (hperm.map SetCall.source).nodup_iff.mp hnodup
    rw [← dropExpired_foldl hempty, ← dropExpired_foldl hothers]
    apply OrdMap.ext_find?
    intro source
    by_cases hsource : source ∈ calls.map SetCall.source
    · obtain ⟨c, hc, rfl⟩ := List.mem_map.mp hsource
      rw [find?_foldl_of_mem hnodup hc, find?_foldl_of_mem hnodup' (hperm.mem_iff.mp hc)]
    · have hsource' : source ∉ others.map SetCall.source := by
        rwa [(hperm.map SetCall.source).mem_iff] at hsource
      rw [find?_foldl_of_not_mem hsource, find?_foldl_of_not_mem hsource']

theorem tokensFor_ne_nil_iff (requests : OrdMap String Request) (name : String) :
    tokensFor requests name ≠ [] ↔
      ∃ source r, requests.find? source = some r ∧ r.values.find? name ≠ none := by
  unfold tokensFor
  rw [Ne, List.filterMap_eq_nil_iff]
  push Not
  constructor
  · rintro ⟨entry, hentry, hvalue⟩
    exact ⟨entry.1, entry.2, (OrdMap.find?_eq_some_iff _ _ _).mpr hentry, hvalue⟩
  · rintro ⟨source, r, hfind, hvalue⟩
    exact ⟨(source, r), (OrdMap.find?_eq_some_iff _ _ _).mp hfind, hvalue⟩

/-- A node that is held after one of the calls was held before it or is held
in the end. -/
theorem held_before_or_after {c : SetCall} {calls : List SetCall}
    (hnodup : ((c :: calls).map SetCall.source).Nodup) (requests : OrdMap String Request)
    {name : String} (h : tokensFor (requestsAfter now requests c) name ≠ []) :
    tokensFor (dropExpired requests now) name ≠ [] ∨
      tokensFor ((c :: calls).foldl (requestsAfter now) requests) name ≠ [] := by
  rw [tokensFor_ne_nil_iff] at h
  obtain ⟨source, r, hfind, hvalue⟩ := h
  by_cases heq : source = c.source
  · right
    rw [← dropExpired_foldl (List.cons_ne_nil c calls), tokensFor_ne_nil_iff]
    refine ⟨source, r, ?_, hvalue⟩
    rw [find?_requestsAfter, if_pos heq] at hfind
    rw [heq, find?_foldl_of_mem hnodup List.mem_cons_self, hfind]
  · left
    rw [find?_requestsAfter, if_neg heq] at hfind
    rw [tokensFor_ne_nil_iff]
    exact ⟨source, r, hfind, hvalue⟩

end Requests

section Nodes

variable {σ : Type} {fs : Fs σ} {cfgs : List NodeConfig} {khz : String → Option Int}
  {P : σ → Prop} {node : NodeState} {live final : OrdMap String Request} {w : σ}

theorem SteadyWorld.readKhz (h : SteadyWorld fs cfgs khz P) (path : String) (hw : P w) :
    P (readKhz fs path w).2 := by
  have hread := h.read path w hw
  unfold Engine.readKhz
  split_ifs
  · exact hw
  · cases hcontent : fs.read path w with
    | mk content w' =>
        rw [hcontent] at hread
        cases content <;> exact hread

theorem SteadyWorld.captureLocked (h : SteadyWorld fs cfgs khz P) (node : NodeState) (hw : P w) :
    P (captureLocked fs node w).2 := by
  have hread := h.read node.cfg.path w hw
  unfold Engine.captureLocked
  split_ifs
  · cases hcontent : fs.read node.cfg.path w with
    | mk content w' =>
        rw [hcontent] at hread
        cases content <;> exact hread
  · exact hw

theorem SteadyWorld.targetLocked (h : SteadyWorld fs cfgs khz P)
    (live : OrdMap String Request) (node : NodeState) (hw : P w) :
    P (targetLocked fs live node w).2 := by
  unfold Engine.targetLocked
  cases node.cfg.type with
  | cpufreqFloor =>
      have hceiling := h.readKhz node.cfg.maxPath hw
      cases hmax : Engine.readKhz fs node.cfg.maxPath w with
      | mk ceiling w' =>
          rw [hmax] at hceiling
          cases ceiling with
          | none => exact hceiling
          | some c =>
              cases node.releasedKhz with
              | some r => exact hceiling
              | none =>
                  have hreleased := h.readKhz node.cfg.minInfoPath hceiling
                  cases hinfo : Engine.readKhz fs node.cfg.minInfoPath w' with
                  | mk info w'' =>
                      rw [hinfo] at hreleased
                      simp only [hinfo]
                      cases info <;> exact hreleased
  | ppmFloor => exact h.readKhz node.cfg.maxPath hw
  | value =>
      simp only
      split_ifs
      · exact hw
      · have hcapture := h.captureLocked node hw
        cases hcaptured : Engine.captureLocked fs node w with
        | mk captured w' =>
            rw [hcaptured] at hcapture
            cases captured <;> exact hcapture
  | pulse => exact hw

theorem SteadyWorld.writeLocked (h : SteadyWorld fs cfgs khz P) (node : NodeState)
    (value : String) (hw : P w) :
    P (writeLocked fs node value w).2 ∧ (writeLocked fs node value w).1.1 = true := by
  obtain ⟨hkept, hok⟩ := h.write node.cfg.path value w hw
  unfold Engine.writeLocked
  cases hwrite : fs.write node.cfg.path value w with
  | mk result w' =>
      rw [hwrite] at hkept hok
      cases hok
      exact ⟨hkept, rfl⟩

theorem SteadyWorld.applyNode (h : SteadyWorld fs cfgs khz P) (live : OrdMap String Request)
    (node : NodeState) (hw : P w) : P (applyNode fs live node w).2 := by
  have htarget := h.targetLocked live node hw
  unfold Engine.applyNode
  split_ifs
  · exact hw
  · cases hresult : Engine.targetLocked fs live node w with
    | mk result w' =>
        rw [hresult] at htarget
        obtain ⟨target, mid⟩ := result
        cases target with
        | none => exact htarget
        | some t =>
            simp only
            split_ifs
            · exact htarget
            · exact (h.writeLocked mid t htarget).1

theorem SteadyWorld.passed (h : SteadyWorld fs cfgs khz P) (live : OrdMap String Request)
    (node : NodeState) (hw : P w) (htype : node.cfg.type ≠ .pulse) :
    Passed (Engine.targetLocked fs live node w).1.2 (Engine.applyNode fs live node w).1.1
      (Engine.targetLocked fs live node w).1.1 := by
  apply applyNode_passed fs htype
  intro x hx
  obtain ⟨-, -, -, -, hok⟩ := issued_eq_some fs hx
  rw [hok]
  exact (h.writeLocked _ _ (h.targetLocked live node hw)).2

/-- The released value of a cpufreq floor, read or still to be read. -/
def steadyReleased (khz : String → Option Int) (node : NodeState) : Option Int :=
  node.releasedKhz.or (khz node.cfg.minInfoPath)

/-- What is written after passes of which the last is on the given requests. -/
def finish (khz : String → Option Int) (node : NodeState) (final : OrdMap String Request) :
    Option String :=
  let tokens := tokensFor final node.cfg.name
  match node.cfg.type with
  | .cpufreqFloor =>
      match khz node.cfg.maxPath, steadyReleased khz node with
      | some c, some r => some (cpufreqTarget r c tokens)
      | _, _ => node.written
  | .ppmFloor => some (ppmTarget node.cfg.cluster (khz node.cfg.maxPath) tokens)
  | .value =>
      if tokens = [] then
        match node.cfg.release with
        | .default => some node.cfg.defaultValue
        | .none => none
        | .capture => node.captured.or node.written
      else some (valueTarget node.cfg tokens)
  | .pulse => node.written

theorem applyNode_pulse (htype : node.cfg.type = .pulse) :
    (applyNode fs live node w).1.1 = node := by
  unfold applyNode
  rw [if_pos htype]

/-- A floor reads the same values in every pass. -/
theorem pass_cpufreq (live : OrdMap String Request) (h : SteadyWorld fs cfgs khz P)
    (hcfg : node.cfg ∈ cfgs) (hw : P w) (htype : node.cfg.type = .cpufreqFloor) :
    (applyNode fs live node w).1.1.written = finish khz node live ∧
      steadyReleased khz (applyNode fs live node w).1.1 = steadyReleased khz node := by
  have hpassed := h.passed live node hw (by simp [htype])
  have hceiling := h.ceiling node.cfg hcfg (Or.inl htype) w hw
  have hinfo := h.released node.cfg hcfg htype _ (h.readKhz node.cfg.maxPath hw)
  have hafter := applyNode_cfg fs live node w
  have hwritten := hpassed.written
  have hreleased := hpassed.releasedKhz
  have hof : releasedOf fs node (Engine.readKhz fs node.cfg.maxPath w).2 =
      steadyReleased khz node := by
    unfold releasedOf steadyReleased
    cases node.releasedKhz with
    | none => simpa using hinfo
    | some r => rfl
  rw [targetLocked_cpufreq fs live w htype, hceiling, hof] at hwritten hreleased
  unfold finish
  simp only [htype]
  unfold steadyReleased at hreleased ⊢
  rw [hafter]
  cases hc : khz node.cfg.maxPath with
  | none =>
      simp only [hc] at hwritten hreleased
      rw [hreleased]
      exact ⟨hwritten, rfl⟩
  | some c =>
      simp only [hc] at hwritten hreleased
      rw [hreleased, Option.or_assoc, Option.or_self]
      cases hr : node.releasedKhz.or (khz node.cfg.minInfoPath) with
      | none => exact ⟨by simpa [steadyReleased, hr] using hwritten, rfl⟩
      | some r => exact ⟨by simpa [steadyReleased, hr] using hwritten, rfl⟩

theorem pass_ppm (h : SteadyWorld fs cfgs khz P) (hcfg : node.cfg ∈ cfgs) (hw : P w)
    (htype : node.cfg.type = .ppmFloor) :
    (applyNode fs live node w).1.1.written = finish khz node live := by
  have hpassed := h.passed live node hw (by simp [htype])
  have hceiling := h.ceiling node.cfg hcfg (Or.inr htype) w hw
  have hwritten := hpassed.written
  rw [targetLocked_ppm fs htype, hceiling] at hwritten
  unfold finish
  simp only [htype]
  exact hwritten

/-- A value node that some request asks for is captured first. -/
theorem pass_asked (h : SteadyWorld fs cfgs khz P) (hcfg : node.cfg ∈ cfgs) (hw : P w)
    (htype : node.cfg.type = .value) (htokens : tokensFor live node.cfg.name ≠ []) :
    (applyNode fs live node w).1.1.written = finish khz node live ∧
      (node.cfg.release = .capture → (applyNode fs live node w).1.1.captured ≠ none) ∧
      (∀ c, node.captured = some c → (applyNode fs live node w).1.1.captured = some c) := by
  have hpassed := h.passed live node hw (by simp [htype])
  have hwritten := hpassed.written
  have hcaptured := hpassed.captured
  have hmid : ∃ mid, (Engine.captureLocked fs node w).1 = some mid ∧
      (node.cfg.release = .capture → mid.captured ≠ none) ∧
      ∀ c, node.captured = some c → mid.captured = some c := by
    unfold Engine.captureLocked
    split_ifs with hneeded
    · have hread := h.capture node.cfg hcfg htype hneeded.1 w hw
      cases hcontent : fs.read node.cfg.path w with
      | mk content w' =>
          rw [hcontent] at hread
          cases content with
          | none => exact absurd rfl hread
          | some current =>
              refine ⟨_, rfl, fun _ => by simp, ?_⟩
              intro c hc
              rw [hneeded.2] at hc
              cases hc
    · exact ⟨node, rfl, fun hrelease hnone => hneeded ⟨hrelease, hnone⟩, fun _ hc => hc⟩
  obtain ⟨mid, hmid, hsome, hkept⟩ := hmid
  rw [targetLocked_asked fs htype htokens, hmid] at hwritten hcaptured
  refine ⟨?_, ?_, ?_⟩
  · unfold finish
    simp only [htype, if_neg htokens]
    exact hwritten
  · rw [hcaptured]
    exact hsome
  · rw [hcaptured]
    exact hkept

/-- A value node that is let go. -/
theorem pass_released (h : SteadyWorld fs cfgs khz P) (hw : P w)
    (htype : node.cfg.type = .value) (htokens : tokensFor live node.cfg.name = []) :
    (applyNode fs live node w).1.1.written = finish khz node live ∧
      (node.cfg.release = .capture →
        (applyNode fs live node w).1.1.captured.or (applyNode fs live node w).1.1.written =
          node.captured.or node.written) := by
  have hpassed := h.passed live node hw (by simp [htype])
  have hwritten := hpassed.written
  have hcaptured := hpassed.captured
  rw [targetLocked_released fs htype htokens] at hwritten hcaptured
  unfold releasedValue at hwritten hcaptured
  unfold finish
  simp only [htype, if_pos htokens]
  cases hrelease : node.cfg.release with
  | default =>
      simp only [hrelease] at hwritten
      exact ⟨hwritten, nofun⟩
  | none =>
      simp only [hrelease] at hwritten
      exact ⟨hwritten, nofun⟩
  | capture =>
      simp only [hrelease] at hwritten hcaptured
      cases hold : node.captured with
      | none =>
          simp only [hold] at hwritten hcaptured
          rw [hwritten, hcaptured]
          simp
      | some c =>
          simp only [hold] at hwritten hcaptured
          split_ifs at hwritten hcaptured with hback
          · rw [hwritten, hcaptured]
            simp [hback]
          · rw [hwritten, hcaptured]
            simp [hold]

theorem pass_written (live : OrdMap String Request) (h : SteadyWorld fs cfgs khz P)
    (hcfg : node.cfg ∈ cfgs) (hw : P w) :
    (applyNode fs live node w).1.1.written = finish khz node live := by
  cases htype : node.cfg.type with
  | cpufreqFloor => exact (pass_cpufreq live h hcfg hw htype).1
  | ppmFloor => exact pass_ppm h hcfg hw htype
  | value =>
      by_cases htokens : tokensFor live node.cfg.name = []
      · exact (pass_released h hw htype htokens).1
      · exact (pass_asked h hcfg hw htype htokens).1
  | pulse =>
      rw [applyNode_pulse htype]
      unfold finish
      simp [htype]

/-- A pass in between makes no difference to what is written in the end. -/
theorem pass_finish (h : SteadyWorld fs cfgs khz P) (hcfg : node.cfg ∈ cfgs) (hw : P w)
    (hlate : ¬ LateCapture node live final) :
    finish khz (applyNode fs live node w).1.1 final = finish khz node final := by
  have hafter := applyNode_cfg fs live node w
  have hwritten := pass_written live h hcfg hw
  cases htype : node.cfg.type with
  | cpufreqFloor =>
      have hreleased := (pass_cpufreq live h hcfg hw htype).2
      unfold finish at hwritten ⊢
      rw [hafter, hreleased]
      simp only [htype] at hwritten ⊢
      cases hc : khz node.cfg.maxPath with
      | none => simpa [hc] using hwritten
      | some c =>
          cases hr : steadyReleased khz node with
          | none => simpa [hc, hr] using hwritten
          | some r => rfl
  | ppmFloor =>
      unfold finish
      rw [hafter]
      simp only [htype]
  | value =>
      unfold finish
      rw [hafter]
      simp only [htype]
      split_ifs with hfinal
      · cases hrelease : node.cfg.release with
        | default => rfl
        | none => rfl
        | capture =>
            by_cases htokens : tokensFor live node.cfg.name = []
            · exact (pass_released h hw htype htokens).2 hrelease
            · obtain ⟨c, hc⟩ : ∃ c, node.captured = some c := by
                rw [← Option.ne_none_iff_exists']
                intro hnone
                exact hlate ⟨htype, hrelease, hnone, htokens, hfinal⟩
              rw [(pass_asked h hcfg hw htype htokens).2.2 c hc, hc]
              rfl
      · rfl
  | pulse => rw [applyNode_pulse htype]

/-- A pass leaves no node held without a captured value. -/
theorem not_lateCapture_pass (h : SteadyWorld fs cfgs khz P) (hcfg : node.cfg ∈ cfgs) (hw : P w)
    (final : OrdMap String Request) :
    ¬ LateCapture (applyNode fs live node w).1.1 live final := by
  rintro ⟨htype, hrelease, hcaptured, htokens, -⟩
  rw [applyNode_cfg] at htype hrelease htokens
  exact (pass_asked h hcfg hw htype htokens).2.1 hrelease hcaptured

end Nodes

section Runs

variable {σ : Type} {fs : Fs σ} {cfgs : List NodeConfig} {khz : String → Option Int}
  {P : σ → Prop}

theorem setAll_mRequests (now : Time) (calls : List SetCall) (s : Engine × σ) :
    (setAll fs now calls s).1.mRequests = calls.foldl (requestsAfter now) s.1.mRequests := by
  induction calls generalizing s with
  | nil => rfl
  | cons c calls ih => exact ih _

/-- One call: a pass over the node in some steady world. -/
theorem setRequest_node (h : SteadyWorld fs cfgs khz P) (c : SetCall) (now : Time) {e : Engine}
    {w : σ} (hw : P w) {i : Nat} {node : NodeState} (hnode : e.mNodes[i]? = some node) :
    P (setRequest fs c.source c.values c.untilTime c.extend now e w).2 ∧
      ∃ u, P u ∧ (setRequest fs c.source c.values c.untilTime c.extend now e w).1.mNodes[i]? =
        some (applyNode fs (requestsAfter now e.mRequests c) node u).1.1 := by
  have hkept : (∀ v ∈ visits (applyNode fs (requestsAfter now e.mRequests c)) e.mNodes w, P v.2) ∧
      P (threadMap (applyNode fs (requestsAfter now e.mRequests c)) e.mNodes w).2 :=
    visits_kept (fun x _ u hu => h.applyNode (requestsAfter now e.mRequests c) x hu) hw
  refine ⟨hkept.2, ?_⟩
  have hfst : (visits (applyNode fs (requestsAfter now e.mRequests c)) e.mNodes w).map Prod.fst =
      e.mNodes := visits_map_fst _ _ _
  rw [← hfst, List.getElem?_map, Option.map_eq_some_iff] at hnode
  obtain ⟨⟨node', u⟩, hvisit, rfl⟩ := hnode
  refine ⟨u, hkept.1 _ (List.mem_of_getElem? hvisit), ?_⟩
  have hnodes : (setRequest fs c.source c.values c.untilTime c.extend now e w).1.mNodes =
      (visits (applyNode fs (requestsAfter now e.mRequests c)) e.mNodes w).map
        (fun v => (applyNode fs (requestsAfter now e.mRequests c) v.1 v.2).1.1) := by
    simp only [setRequest, applyLocked, threadMap_fst, List.map_map, Function.comp_def]
    rfl
  rw [hnodes, List.getElem?_map, hvisit]
  rfl

/-- What a node has written after all the calls. -/
theorem setAll_written (h : SteadyWorld fs cfgs khz P) {now : Time} {calls : List SetCall}
    (hnodup : (calls.map SetCall.source).Nodup) {e : Engine} {w : σ} (hw : P w) {i : Nat}
    {node : NodeState} (hnode : e.mNodes[i]? = some node) (hcfg : node.cfg ∈ cfgs)
    (hlate : ¬ LateCapture node (dropExpired e.mRequests now)
      (calls.foldl (requestsAfter now) e.mRequests)) :
    ∃ after, (setAll fs now calls (e, w)).1.mNodes[i]? = some after ∧
      after.written = if calls = [] then node.written
        else finish khz node (calls.foldl (requestsAfter now) e.mRequests) := by
  induction calls generalizing e w node with
  | nil => exact ⟨node, hnode, rfl⟩
  | cons c calls ih =>
      obtain ⟨hworld, u, hu, hafter⟩ := setRequest_node h c now hw hnode
      have hnodup' := (List.nodup_cons.mp hnodup).2
      have hmid : ¬ LateCapture node (requestsAfter now e.mRequests c)
          ((c :: calls).foldl (requestsAfter now) e.mRequests) := by
        rintro ⟨htype, hrelease, hcaptured, htokens, hfinal⟩
        rcases held_before_or_after hnodup e.mRequests htokens with hbefore | hheld
        · exact hlate ⟨htype, hrelease, hcaptured, hbefore, hfinal⟩
        · exact hheld hfinal
      have hnext : ¬ LateCapture (applyNode fs (requestsAfter now e.mRequests c) node u).1.1
          (dropExpired (requestsAfter now e.mRequests c) now)
          (calls.foldl (requestsAfter now) (requestsAfter now e.mRequests c)) := by
        rw [dropExpired_requestsAfter]
        exact not_lateCapture_pass h hcfg hu _
      obtain ⟨last, hlast, hwritten⟩ := ih hnodup' hworld hafter
        (by rw [applyNode_cfg]; exact hcfg) hnext
      refine ⟨last, hlast, ?_⟩
      rw [if_neg (List.cons_ne_nil c calls), hwritten]
      split_ifs with hempty
      · rw [hempty]
        exact pass_written _ h hcfg hu
      · exact pass_finish h hcfg hu hmid

theorem orderFree {e : Engine} (h : SteadyWorld fs (e.mNodes.map NodeState.cfg) khz P) {w : σ}
    (hw : P w) (now : Time) {calls others : List SetCall}
    (hnodup : (calls.map SetCall.source).Nodup) (hperm : calls.Perm others) :
    OrderFree fs now calls others (e, w) := by
  have hrequests := foldl_requestsAfter_perm now hnodup hperm e.mRequests
  have hnodup' := (hperm.map SetCall.source).nodup_iff.mp hnodup
  constructor
  · rw [setAll_mRequests, setAll_mRequests, hrequests]
  · intro i node hnode hlate
    rw [setAll_mRequests] at hlate
    have hcfg : node.cfg ∈ e.mNodes.map NodeState.cfg :=
      List.mem_map_of_mem (List.mem_of_getElem? hnode)
    obtain ⟨a, ha, hwritten⟩ := setAll_written h hnodup hw hnode hcfg hlate
    have hlate' := hlate
    simp only [hrequests] at hlate'
    obtain ⟨b, hb, hwritten'⟩ := setAll_written h hnodup' hw hnode hcfg hlate'
    refine ⟨a, b, ha, hb, ?_⟩
    have hempty : calls = [] ↔ others = [] := by
      rw [← List.length_eq_zero_iff, ← List.length_eq_zero_iff, hperm.length_eq]
    rw [hwritten, hwritten', hrequests]
    simp only [hempty]

/-- Without floors a steady world is one in which writes and captures succeed. -/
theorem steadyWorld_of_values (hvalues : ∀ cfg ∈ cfgs, cfg.type = .value)
    (hread : ∀ path w, P w → P (fs.read path w).2 ∧ (fs.read path w).1 ≠ none)
    (hwrite : ∀ path value w, P w →
      P (fs.write path value w).2 ∧ (fs.write path value w).1 = .ok ()) :
    SteadyWorld fs cfgs khz P where
  read := fun path w hw => (hread path w hw).1
  write := hwrite
  ceiling := by
    intro cfg hcfg hfloor
    rw [hvalues cfg hcfg] at hfloor
    simp at hfloor
  released := by
    intro cfg hcfg hfloor
    rw [hvalues cfg hcfg] at hfloor
    cases hfloor
  capture := fun cfg _ _ _ w hw => (hread cfg.path w hw).2

end Runs

end Engine

/-- For every engine state and every list of calls with different sources, in
worlds where writes and captures succeed and the floors read the same. -/
theorem request_order_free {σ : Type} (fs : Fs σ) (khz : String → Option Int) (P : σ → Prop)
    (e : Engine) (w : σ) (hworld : Engine.SteadyWorld fs (e.mNodes.map NodeState.cfg) khz P)
    (hw : P w) (now : Time) (calls others : List SetCall)
    (hnodup : (calls.map SetCall.source).Nodup) (hperm : calls.Perm others) :
    Engine.OrderFree fs now calls others (e, w) ∧ Engine.IntLaw ∧ Engine.FieldsLaw :=
  ⟨Engine.orderFree hworld hw now hnodup hperm, Engine.intLaw, Engine.fieldsLaw⟩

/-- A launch that asks for the switch and the boost, and a level that asks for
neither. -/
def launchCall : SetCall :=
  ⟨"launch", (OrdMap.empty.insert "hps" "1").insert "ia_boost" "1", Deadline.never, false⟩

def levelCall : SetCall := ⟨"adpf", OrdMap.empty, Deadline.never, false⟩

theorem request_order_free_launch :
    Engine.OrderFree steadyFs 0 [launchCall, levelCall] [levelCall, launchCall]
        (Engine.create [coreSwitch, iaBoost], ()) ∧
      Engine.IntLaw ∧ Engine.FieldsLaw := by
  have hworld : Engine.SteadyWorld steadyFs
      ((Engine.create [coreSwitch, iaBoost]).mNodes.map NodeState.cfg) (fun _ => none)
      (fun _ => True) := by
    apply Engine.steadyWorld_of_values (by decide)
    · exact fun _ _ _ => ⟨trivial, nofun⟩
    · exact fun _ _ _ _ => ⟨trivial, rfl⟩
  exact request_order_free steadyFs _ _ _ () hworld trivial 0 _ _ (by decide)
    (List.Perm.swap levelCall launchCall [])

/-- A file system on which nothing can be read until something else happens. -/
def lateFs : Fs Bool where
  read := fun _ w => (if w then some "1\n" else none, w)
  write := fun _ _ w => (.ok (), w)

/-- The launch began when the switch could not be read. It ends after the level
or before it, and only in the first order is the switch captured and put back. -/
theorem request_order_matters :
    ∃ s, Reachable (EngineStart [coreSwitch]) (EngineStep lateFs) s ∧ s.2 = true ∧
      Engine.SteadyWorld lateFs (s.1.mNodes.map NodeState.cfg) (fun _ => none) (· = true) ∧
      (Engine.setAll lateFs 0 [levelCall, { launchCall with values := OrdMap.empty }]
        s).1.mNodes.map NodeState.written = [some "1"] ∧
      (Engine.setAll lateFs 0 [{ launchCall with values := OrdMap.empty }, levelCall]
        s).1.mNodes.map NodeState.written = [none] := by
  have hcreate : Reachable (EngineStart [coreSwitch]) (EngineStep lateFs)
      (Engine.create [coreSwitch], false) := Reachable.init rfl
  have hlaunch := Reachable.next hcreate (.op (.setRequest "launch"
    (OrdMap.empty.insert "hps" "0") Deadline.never false 0)) rfl
  have hready := Reachable.next hlaunch .env (t := (_, true)) rfl
  refine ⟨_, hready, rfl, ?_, by decide, by decide⟩
  apply Engine.steadyWorld_of_values (by decide)
  · rintro path w rfl
    exact ⟨rfl, nofun⟩
  · exact fun _ _ _ hw => ⟨hw, rfl⟩

end MeizuM5c.Power
