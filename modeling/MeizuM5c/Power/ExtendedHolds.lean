import MeizuM5c.Power.OffList
import MeizuM5c.Power.Requests

/-!
Holds of a source that is only ever set with `extend`. The engine keeps one
deadline for the source and compares it with `now`; the reference is the
history of the operations, cut off where the hold last lapsed or was cleared.
-/

namespace MeizuM5c.Power

open Lib

/-- The `now` of an operation that takes one. -/
def EngineOp.time : EngineOp → Option Time
  | .reset now => some now
  | .setRequest _ _ _ _ now => some now
  | .clearRequest _ now => some now
  | .clearAll now => some now
  | .pulse _ _ => none
  | .apply now => some now

/-- The operation does not set the source without `extend`. -/
def EngineOp.Extends (source : String) : EngineOp → Prop
  | .setRequest other _ _ extend _ => other = source → extend = true
  | _ => True

/-- What the operations gave the source since its hold last lapsed or was
cleared; the newest operation and the newest request come first. -/
def given (source : String) : List EngineOp → List (ValueMap × Deadline)
  | [] => []
  | .setRequest other values untilTime _ now :: earlier =>
      if other = source then
        if ∃ g ∈ given source earlier, Deadline.atTime now < g.2 then
          (values, untilTime) :: given source earlier
        else [(values, untilTime)]
      else given source earlier
  | .clearRequest other _ :: earlier => if other = source then [] else given source earlier
  | .clearAll _ :: _ => []
  | .reset _ :: _ => []
  | .pulse _ _ :: earlier => given source earlier
  | .apply _ :: earlier => given source earlier

/-- A run of the engine with its last time and its history. -/
structure HoldRun (σ : Type) where
  engine : Engine × σ
  clock : Time
  history : List EngineOp

section Law

variable {σ : Type} (fs : Fs σ) (source : String)

def HoldRunStart (cfgs : List NodeConfig) (s : HoldRun σ) : Prop :=
  EngineStart cfgs s.engine ∧ s.history = []

def HoldRunStep (s : HoldRun σ) : EngineLabel → HoldRun σ → Prop
  | .op op, t => op.Extends source ∧ (∀ now ∈ op.time, s.clock ≤ now) ∧
      t = ⟨op.exec fs s.engine, op.time.getD s.clock, op :: s.history⟩
  | .env, t => t.engine.1 = s.engine.1 ∧ s.clock ≤ t.clock ∧ t.history = s.history

/-- The stored request is the greatest deadline given, with the values given
last; and nothing given is in force when none is stored. -/
structure HoldStored (s : HoldRun σ) : Prop where
  stored : ∀ r, s.engine.1.mRequests.find? source = some r →
    IsGreatest {u | ∃ values, (values, u) ∈ given source s.history} r.untilTime ∧
      (given source s.history).head?.map Prod.fst = some r.values
  missing : s.engine.1.mRequests.find? source = none →
    ∀ g ∈ given source s.history, g.2 ≤ Deadline.atTime s.clock

/-- What a further request does: a live hold gets the later of the two
deadlines, and after a lapse the request starts from its own. -/
def HoldSet (s : HoldRun σ) : Prop :=
  ∀ values untilTime now,
    let after := ((EngineOp.setRequest source values untilTime true now).exec fs
      s.engine).1.mRequests.find? source
    (∀ r, s.engine.1.mRequests.find? source = some r → Deadline.atTime now < r.untilTime →
      after = some ⟨values, max untilTime r.untilTime⟩) ∧
    ((∀ r, s.engine.1.mRequests.find? source = some r → r.untilTime ≤ Deadline.atTime now) →
      after = if Deadline.atTime now < untilTime then some ⟨values, untilTime⟩ else none)

/-- A call of `setBoost` only extends holds, so a hold that is live when it
comes is there after it, with no earlier end. -/
def HoldBoost (s : HoldRun σ) : Prop :=
  ∀ cfg off hal clock type durationMs,
    let ops := (halCall cfg off hal (.setBoost clock type durationMs)).2
    (∀ op ∈ ops, op.Extends source) ∧
    ∀ r, s.engine.1.mRequests.find? source = some r → Deadline.atTime (clock 0) < r.untilTime →
      ∃ r', (ops.foldl (fun e op => op.exec fs e) s.engine).1.mRequests.find? source = some r' ∧
        r.untilTime ≤ r'.untilTime

/-- A fling that holds the source, and another boost before the fling's end:
the hold does not end before it. -/
def TouchAfterFling (s : HoldRun σ) : Prop :=
  ∀ cfg off hal clock type durationMs values untilTime off' hal' clock' type' durationMs',
    let fling := (halCall cfg off hal (.setBoost clock type durationMs)).2
    let touch := (halCall cfg off' hal' (.setBoost clock' type' durationMs')).2
    .setRequest source values untilTime true (clock 0) ∈ fling →
    clock 0 ≤ clock' 0 → Deadline.atTime (clock' 0) < untilTime →
    ∃ r, ((fling ++ touch).foldl (fun e op => op.exec fs e) s.engine).1.mRequests.find? source =
        some r ∧ untilTime ≤ r.untilTime

end Law

section Steps

variable {σ : Type} (fs : Fs σ) {source : String}

/-- An operation that neither sets nor clears the source at most drops its
request when that has expired. -/
theorem exec_find?_other {op : EngineOp} (e : Engine) (w : σ)
    (hset : ∀ values untilTime extend now, op ≠ .setRequest source values untilTime extend now)
    (hclear : ∀ now, op ≠ .clearRequest source now) (hall : ∀ now, op ≠ .clearAll now)
    (hreset : ∀ now, op ≠ .reset now) :
    (op.exec fs (e, w)).1.mRequests.find? source = e.mRequests.find? source ∨
      ∃ now, op.time = some now ∧ ∀ r, e.mRequests.find? source = some r →
        (op.exec fs (e, w)).1.mRequests.find? source =
          if Deadline.atTime now < r.untilTime then some r else none := by
  cases hcalls : op.calls e with
  | none =>
      left
      rw [EngineOp.exec_mRequests_of_not_calls fs w hcalls]
  | some call =>
      obtain ⟨e', now⟩ := call
      right
      have hfind : op.time = some now ∧ e'.mRequests.find? source = e.mRequests.find? source := by
        cases op with
        | reset now => exact absurd rfl (hreset now)
        | setRequest other values untilTime extend now =>
            cases hcalls
            refine ⟨rfl, OrdMap.find?_insert_of_ne _ _ ?_⟩
            rintro rfl
            exact hset values untilTime extend now rfl
        | clearRequest other now =>
            simp only [EngineOp.calls] at hcalls
            split at hcalls
            · cases hcalls
            · cases hcalls
              refine ⟨rfl, OrdMap.find?_erase_of_ne _ ?_⟩
              rintro rfl
              exact hclear now rfl
        | clearAll now => exact absurd rfl (hall now)
        | pulse name durationMs => cases hcalls
        | apply now =>
            cases hcalls
            exact ⟨rfl, rfl⟩
      refine ⟨now, hfind.1, ?_⟩
      intro r hr
      rw [EngineOp.exec_mRequests_of_calls fs w hcalls]
      split_ifs with hlive
      · rw [EngineOp.find?_dropExpired_eq_some_iff, hfind.2]
        exact ⟨hr, hlive⟩
      · cases hfound : (Engine.dropExpired e'.mRequests now).find? source with
        | none => rfl
        | some r' =>
            rw [EngineOp.find?_dropExpired_eq_some_iff, hfind.2, hr] at hfound
            obtain ⟨heq, hlive'⟩ := hfound
            cases heq
            exact absurd hlive' hlive

theorem extendedUntil_live {requests : OrdMap String Request} {r : Request}
    (hr : requests.find? source = some r) {now : Time} (hlive : Deadline.atTime now < r.untilTime)
    (untilTime : Deadline) :
    Engine.extendedUntil requests source untilTime true now = max untilTime r.untilTime := by
  unfold Engine.extendedUntil
  simp [hr, hlive]

theorem extendedUntil_lapsed {requests : OrdMap String Request} {now : Time}
    (h : ∀ r, requests.find? source = some r → r.untilTime ≤ Deadline.atTime now)
    (untilTime : Deadline) :
    Engine.extendedUntil requests source untilTime true now = untilTime := by
  unfold Engine.extendedUntil
  split
  · rename_i old hold
    rw [if_neg]
    rintro ⟨-, hlive⟩
    exact absurd (h old hold) (not_le.mpr hlive)
  · rfl

theorem holdSet (s : HoldRun σ) : HoldSet fs source s := by
  intro values untilTime now
  obtain ⟨⟨e, w⟩, clock, history⟩ := s
  simp only
  constructor
  · intro r hr hlive
    rw [EngineOp.exec_setRequest_stored, extendedUntil_live hr hlive, if_pos (lt_max_of_lt_right hlive)]
  · intro hlapsed
    rw [EngineOp.exec_setRequest_stored, extendedUntil_lapsed hlapsed]

/-- All that was given has passed when the hold is not live any more. -/
theorem HoldStored.lapsed {s : HoldRun σ} (h : HoldStored source s) {now : Time}
    (hnow : s.clock ≤ now)
    (hlapsed : ∀ r, s.engine.1.mRequests.find? source = some r →
      r.untilTime ≤ Deadline.atTime now) :
    ∀ g ∈ given source s.history, g.2 ≤ Deadline.atTime now := by
  intro g hg
  cases hfound : s.engine.1.mRequests.find? source with
  | some r => exact le_trans ((h.stored r hfound).1.2 ⟨g.1, hg⟩) (hlapsed r hfound)
  | none =>
      exact le_trans (h.missing hfound g hg) ((Deadline.atTime_le_atTime s.clock now).mpr hnow)

/-- The stored deadline is still the greatest after an extension. -/
theorem isGreatest_given_cons {earlier : List (ValueMap × Deadline)} {d : Deadline}
    (h : IsGreatest {u | ∃ values, (values, u) ∈ earlier} d) (values : ValueMap)
    (untilTime : Deadline) :
    IsGreatest {u | ∃ v, (v, u) ∈ (values, untilTime) :: earlier} (max untilTime d) := by
  constructor
  · rcases max_choice untilTime d with hmax | hmax
    · exact ⟨values, by rw [hmax]; exact List.mem_cons_self⟩
    · obtain ⟨v, hv⟩ := h.1
      exact ⟨v, by rw [hmax]; exact List.mem_cons_of_mem _ hv⟩
  · rintro u ⟨v, hv⟩
    rcases List.mem_cons.mp hv with heq | hold
    · cases heq
      exact le_max_left _ _
    · exact le_trans (h.2 ⟨v, hold⟩) (le_max_right _ _)

theorem isGreatest_given_single (values : ValueMap) (untilTime : Deadline) :
    IsGreatest {u | ∃ v, (v, u) ∈ [(values, untilTime)]} untilTime := by
  constructor
  · exact ⟨values, List.mem_singleton.mpr rfl⟩
  · rintro u ⟨v, hv⟩
    cases List.mem_singleton.mp hv
    exact le_refl _

theorem holdStored_set {e : Engine} {w : σ} {clock now : Time} {history : List EngineOp}
    (h : HoldStored source ⟨(e, w), clock, history⟩) (hnow : clock ≤ now) (values : ValueMap)
    (untilTime : Deadline) :
    HoldStored source
      ⟨(EngineOp.setRequest source values untilTime true now).exec fs (e, w), now,
        .setRequest source values untilTime true now :: history⟩ := by
  obtain ⟨hkeep, hfresh⟩ := holdSet fs ⟨(e, w), clock, history⟩ values untilTime now
  simp only at hkeep hfresh
  by_cases hlive : ∃ r, e.mRequests.find? source = some r ∧ Deadline.atTime now < r.untilTime
  · obtain ⟨r, hr, hrlive⟩ := hlive
    obtain ⟨hgreatest, -⟩ := h.stored r hr
    obtain ⟨v, hv⟩ := hgreatest.1
    have hgiven : given source (.setRequest source values untilTime true now :: history) =
        (values, untilTime) :: given source history := by
      rw [given, if_pos rfl, if_pos ⟨(v, r.untilTime), hv, hrlive⟩]
    constructor
    · intro r' hr'
      rw [hkeep r hr hrlive] at hr'
      cases hr'
      rw [hgiven]
      exact ⟨isGreatest_given_cons hgreatest values untilTime, rfl⟩
    · intro hnone
      rw [hkeep r hr hrlive] at hnone
      cases hnone
  · have hlapsed : ∀ r, e.mRequests.find? source = some r → r.untilTime ≤ Deadline.atTime now := by
      intro r hr
      exact not_lt.mp (fun hlt => hlive ⟨r, hr, hlt⟩)
    have hpast := h.lapsed hnow hlapsed
    have hgiven : given source (.setRequest source values untilTime true now :: history) =
        [(values, untilTime)] := by
      rw [given, if_pos rfl, if_neg]
      rintro ⟨g, hg, hlt⟩
      exact absurd (hpast g hg) (not_le.mpr hlt)
    constructor
    · intro r' hr'
      simp only [hfresh hlapsed, Option.ite_none_right_eq_some, Option.some.injEq] at hr'
      obtain ⟨-, rfl⟩ := hr'
      rw [hgiven]
      exact ⟨isGreatest_given_single values untilTime, rfl⟩
    · intro hnone g hg
      simp only [hfresh hlapsed, ite_eq_right_iff, reduceCtorEq, imp_false, not_lt] at hnone
      rw [hgiven, List.mem_singleton] at hg
      rw [hg]
      exact hnone

/-- An operation that does not concern the source. -/
theorem holdStored_other {op : EngineOp} {e : Engine} {w : σ} {clock : Time}
    {history : List EngineOp} (h : HoldStored source ⟨(e, w), clock, history⟩)
    (hnow : ∀ now ∈ op.time, clock ≤ now)
    (hset : ∀ values untilTime extend now, op ≠ .setRequest source values untilTime extend now)
    (hclear : ∀ now, op ≠ .clearRequest source now) (hall : ∀ now, op ≠ .clearAll now)
    (hreset : ∀ now, op ≠ .reset now) (hgiven : given source (op :: history) = given source history) :
    HoldStored source ⟨op.exec fs (e, w), op.time.getD clock, op :: history⟩ := by
  have hclock : clock ≤ op.time.getD clock := by
    cases htime : op.time with
    | none => exact le_refl _
    | some now => exact hnow now htime
  constructor
  · intro r hr
    rw [hgiven]
    exact h.stored r (EngineOp.exec_find?_some fs op (e, w) hset hr)
  · intro hnone g hg
    rw [hgiven] at hg
    apply h.lapsed hclock _ g hg
    intro r hr
    rcases exec_find?_other fs e w hset hclear hall hreset with hsame | ⟨now, htime, hdrop⟩
    · rw [hsame, hr] at hnone
      cases hnone
    · rw [hdrop r hr, ite_eq_right_iff] at hnone
      rw [htime]
      exact not_lt.mp (fun hlt => absurd (hnone hlt) (by simp))

theorem holdStored_of_nothing {s : HoldRun σ} (hgiven : given source s.history = [])
    (hfind : s.engine.1.mRequests.find? source = none) : HoldStored source s := by
  constructor
  · intro r hr
    rw [hfind] at hr
    cases hr
  · intro _ g hg
    rw [hgiven] at hg
    cases hg

theorem holdStored_op {op : EngineOp} {s : HoldRun σ} (h : HoldStored source s)
    (hextends : op.Extends source) (hnow : ∀ now ∈ op.time, s.clock ≤ now) :
    HoldStored source ⟨op.exec fs s.engine, op.time.getD s.clock, op :: s.history⟩ := by
  obtain ⟨⟨e, w⟩, clock, history⟩ := s
  cases op with
  | reset now => exact holdStored_of_nothing rfl (EngineOp.find?_dropExpired_of_none rfl now)
  | setRequest other values untilTime extend now =>
      by_cases heq : other = source
      · subst heq
        cases hextends rfl
        exact holdStored_set fs h (hnow now rfl) values untilTime
      · apply holdStored_other fs h hnow _ nofun nofun nofun
        · rw [given, if_neg heq]
        · rintro values' untilTime' extend' now' hop
          cases hop
          exact heq rfl
  | clearRequest other now =>
      by_cases heq : other = source
      · subst heq
        apply holdStored_of_nothing
        · rw [given, if_pos rfl]
        · exact EngineOp.exec_clearRequest_find? fs other now (e, w)
      · apply holdStored_other fs h hnow nofun _ nofun nofun
        · rw [given, if_neg heq]
        · rintro now' hop
          cases hop
          exact heq rfl
  | clearAll now =>
      exact holdStored_of_nothing rfl (EngineOp.exec_clearAll_find? fs source now (e, w))
  | pulse name durationMs => exact holdStored_other fs h hnow nofun nofun nofun nofun rfl
  | apply now => exact holdStored_other fs h hnow nofun nofun nofun nofun rfl

end Steps

section Boosts

variable {σ : Type} (fs : Fs σ) {source : String}

theorem runActions_engine (cfg : Config) (ops : List EngineOp) (a : Adpf) :
    runActions cfg (ops.map PowerAction.engine) a = (a, ops) := by
  induction ops with
  | nil => rfl
  | cons op ops ih => simp only [List.map_cons, runActions, ih]

/-- Some pulses and then at most one request, which extends. -/
def PulsesThenExtends (now : Time) (ops : List EngineOp) : Prop :=
  ∃ (names : List String) (pulseMs : Int) (request : Option (String × ValueMap × Deadline)),
    ops = names.map (fun name => EngineOp.pulse name pulseMs) ++ request.toList.map (fun r =>
      EngineOp.setRequest r.1 r.2.1 r.2.2 true now)

theorem pulsesThenExtends_nil (now : Time) : PulsesThenExtends now [] := ⟨[], 0, none, rfl⟩

theorem boostActions_extend (off : List String) (clock : Nat → Time) (fling : Bool)
    (source : String) (durationMs : Int) (rc : RequestConfig) :
    ∃ ops, PulsesThenExtends (clock 0) ops ∧
      boostActions off clock fling source durationMs rc = ops.map PowerAction.engine := by
  simp only [boostActions, pulses]
  generalize clamp _ 1 rc.pulseMaxMs = pulseMs
  generalize Deadline.atTime _ = untilTime
  by_cases hempty : OrdMap.isEmpty (without rc.set off) = true
  · rw [if_pos hempty]
    exact ⟨_, ⟨rc.pulse.filter (fun name => !off.contains name), pulseMs, none, rfl⟩, by
      simp [Function.comp_def]⟩
  · rw [if_neg hempty]
    exact ⟨_, ⟨rc.pulse.filter (fun name => !off.contains name), pulseMs,
      some (source, without rc.set off, untilTime), rfl⟩, by simp [Function.comp_def]⟩

theorem setBoost_extends (cfg : Config) (off : List String) (clock : Nat → Time)
    (durationMs : Int) (p : PowerState) :
    ∃ ops, PulsesThenExtends (clock 0) ops ∧
      setBoost cfg off clock durationMs p = ops.map PowerAction.engine := by
  have hnothing : ∃ ops, PulsesThenExtends (clock 0) ops ∧
      ([] : List PowerAction) = ops.map PowerAction.engine :=
    ⟨[], pulsesThenExtends_nil _, rfl⟩
  unfold setBoost
  split
  · exact hnothing
  · simp only
    generalize (decide (0 < durationMs) && (cfg.requests.find? "fling").isSome) = fling
    generalize (if fling = true then "fling" else "interaction") = source
    split
    · exact hnothing
    · split
      · exact hnothing
      · split
        · exact hnothing
        · exact boostActions_extend off clock fling source durationMs _

theorem boost_ops (cfg : Config) (off : List String) (hal : PowerHal) (clock : Nat → Time)
    (type : Boost) (durationMs : Int) :
    PulsesThenExtends (clock 0) (halCall cfg off hal (.setBoost clock type durationMs)).2 := by
  simp only [halCall]
  split
  · obtain ⟨ops, hops, hactions⟩ := setBoost_extends cfg off clock durationMs hal.flags
    simp only [hactions, runActions_engine]
    exact hops
  · exact pulsesThenExtends_nil _

theorem foldl_pulse_mRequests (names : List String) (pulseMs : Int) (s : Engine × σ) :
    ((names.map (fun name => EngineOp.pulse name pulseMs)).foldl
      (fun e op => op.exec fs e) s).1.mRequests = s.1.mRequests := by
  induction names generalizing s with
  | nil => rfl
  | cons name names ih =>
      simp only [List.map_cons, List.foldl_cons]
      rw [ih]
      exact EngineOp.exec_mRequests_of_not_calls fs s.2 rfl

theorem holdBoost (s : HoldRun σ) : HoldBoost fs source s := by
  intro cfg off hal clock type durationMs
  obtain ⟨names, pulseMs, request, hops⟩ := boost_ops cfg off hal clock type durationMs
  simp only [hops]
  constructor
  · intro op hop
    rcases List.mem_append.mp hop with hpulse | hset
    · obtain ⟨name, -, rfl⟩ := List.mem_map.mp hpulse
      trivial
    · obtain ⟨r, -, rfl⟩ := List.mem_map.mp hset
      exact fun _ => rfl
  · intro r hr hlive
    have hpulsed := foldl_pulse_mRequests fs names pulseMs s.engine
    rw [List.foldl_append]
    generalize (names.map (fun name => EngineOp.pulse name pulseMs)).foldl
      (fun e op => op.exec fs e) s.engine = pulsed at hpulsed ⊢
    rw [← hpulsed] at hr
    cases request with
    | none => exact ⟨r, hr, le_refl _⟩
    | some request =>
        obtain ⟨other, values, untilTime⟩ := request
        simp only [Option.toList_some, List.map_cons, List.map_nil, List.foldl_cons,
          List.foldl_nil]
        by_cases heq : other = source
        · subst heq
          have hkeep := (holdSet fs ⟨pulsed, 0, []⟩ values untilTime (clock 0)).1 r hr hlive
          exact ⟨_, hkeep, le_max_right _ _⟩
        · refine ⟨r, ?_, le_refl _⟩
          obtain ⟨e, w⟩ := pulsed
          have hset : ∀ values' untilTime' extend' now',
              EngineOp.setRequest other values untilTime true (clock 0) ≠
                .setRequest source values' untilTime' extend' now' := by
            intro values' untilTime' extend' now' hop
            cases hop
            exact heq rfl
          rcases exec_find?_other fs e w hset nofun nofun nofun with hsame | ⟨now, htime, hdrop⟩
          · rw [hsame]
            exact hr
          · cases htime
            rw [hdrop r hr, if_pos hlive]

/-- The hold that a boost makes ends no earlier than the boost asked. -/
theorem boost_stores (cfg : Config) (off : List String) (hal : PowerHal) (clock : Nat → Time)
    (type : Boost) (durationMs : Int) {values : ValueMap} {untilTime : Deadline}
    (hmem : .setRequest source values untilTime true (clock 0) ∈
      (halCall cfg off hal (.setBoost clock type durationMs)).2)
    (hlive : Deadline.atTime (clock 0) < untilTime) (s : Engine × σ) :
    ∃ r, ((halCall cfg off hal (.setBoost clock type durationMs)).2.foldl
        (fun e op => op.exec fs e) s).1.mRequests.find? source = some r ∧
      untilTime ≤ r.untilTime := by
  obtain ⟨names, pulseMs, request, hops⟩ := boost_ops cfg off hal clock type durationMs
  rw [hops] at hmem ⊢
  rw [List.foldl_append]
  generalize (names.map (fun name => EngineOp.pulse name pulseMs)).foldl
    (fun e op => op.exec fs e) s = pulsed
  rcases List.mem_append.mp hmem with hpulse | hset
  · obtain ⟨name, -, hname⟩ := List.mem_map.mp hpulse
    cases hname
  · obtain ⟨r, hr, hop⟩ := List.mem_map.mp hset
    rw [Option.mem_toList] at hr
    cases hr
    obtain ⟨hkeep, hfresh⟩ := holdSet fs ⟨pulsed, 0, []⟩ values untilTime (clock 0)
    simp only [Option.toList_some, List.map_cons, List.map_nil, hop, List.foldl_cons,
      List.foldl_nil]
    by_cases hold : ∃ r, pulsed.1.mRequests.find? source = some r ∧
        Deadline.atTime (clock 0) < r.untilTime
    · obtain ⟨r, hr, hrlive⟩ := hold
      exact ⟨_, hkeep r hr hrlive, le_max_left _ _⟩
    · have hstored := hfresh (fun r hr => not_lt.mp (fun hlt => hold ⟨r, hr, hlt⟩))
      rw [if_pos hlive] at hstored
      exact ⟨_, hstored, le_refl _⟩

theorem touchAfterFling (s : HoldRun σ) : TouchAfterFling fs source s := by
  intro cfg off hal clock type durationMs values untilTime off' hal' clock' type' durationMs'
    fling touch hmem hclock hlive
  have hstart : Deadline.atTime (clock 0) < untilTime :=
    lt_of_le_of_lt ((Deadline.atTime_le_atTime _ _).mpr hclock) hlive
  obtain ⟨r, hr, hend⟩ := boost_stores fs cfg off hal clock type durationMs hmem hstart s.engine
  rw [List.foldl_append]
  obtain ⟨r', hr', hend'⟩ := (holdBoost fs ⟨fling.foldl (fun e op => op.exec fs e) s.engine, 0, []⟩
    cfg off' hal' clock' type' durationMs').2 r hr (lt_of_lt_of_le hlive hend)
  exact ⟨r', hr', le_trans hend hend'⟩

end Boosts

/-- For every run with nondecreasing times in which the source is set with
`extend` only, every outcome of every read and write, and every operation on
other sources in between. -/
theorem extended_holds {σ : Type} (fs : Fs σ) (cfgs : List NodeConfig) (source : String)
    (s : HoldRun σ)
    (hreach : Reachable (HoldRunStart cfgs) (HoldRunStep fs source) s) :
    HoldStored source s ∧ HoldSet fs source s ∧ HoldBoost fs source s ∧
      TouchAfterFling fs source s := by
  refine ⟨?_, holdSet fs s, holdBoost fs s, touchAfterFling fs s⟩
  refine hreach.invariant (P := HoldStored source) ?_ ?_
  · intro s hs
    apply holdStored_of_nothing
    · rw [hs.2]
      rfl
    · rw [hs.1]
      rfl
  · intro s label t h hstep
    cases label with
    | op op =>
        obtain ⟨hextends, hnow, rfl⟩ := hstep
        exact holdStored_op fs h hextends hnow
    | env =>
        obtain ⟨hengine, hclock, hhistory⟩ := hstep
        constructor
        · intro r hr
          rw [hhistory]
          rw [hengine] at hr
          exact h.stored r hr
        · intro hnone g hg
          rw [hhistory] at hg
          rw [hengine] at hnone
          exact le_trans (h.missing hnone g hg)
            ((Deadline.atTime_le_atTime s.clock t.clock).mpr hclock)

/-- A fling of two seconds and a touch of half a second in it. -/
theorem extended_holds_touch :
    ∃ s, Reachable (HoldRunStart []) (HoldRunStep steadyFs "interaction") s ∧
      (s.engine.1.mRequests.find? "interaction").map Request.untilTime =
        some (Deadline.atTime 2000000000) ∧
      HoldStored "interaction" s ∧ HoldSet steadyFs "interaction" s ∧
      HoldBoost steadyFs "interaction" s ∧ TouchAfterFling steadyFs "interaction" s := by
  have hcreate : Reachable (HoldRunStart []) (HoldRunStep steadyFs "interaction")
      ⟨(Engine.create [], ()), 0, []⟩ := Reachable.init ⟨rfl, rfl⟩
  have hfling := Reachable.next hcreate (.op (.setRequest "interaction" OrdMap.empty
    (Deadline.atTime 2000000000) true 0)) ⟨fun _ => rfl, by simp [EngineOp.time], rfl⟩
  have htouch := Reachable.next hfling (.op (.setRequest "interaction" OrdMap.empty
    (Deadline.atTime 1500000000) true 1000000000)) ⟨fun _ => rfl, by simp [EngineOp.time], rfl⟩
  exact ⟨_, htouch, by decide, extended_holds steadyFs [] "interaction" _ htouch⟩

end MeizuM5c.Power
