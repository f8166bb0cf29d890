import MeizuM5c.Power.AdpfLevel
import MeizuM5c.Power.Hal

/-!
The off list, which every call of the HAL reads anew. The calls that make
requests of their own leave out the sources and nodes on it; ADPF does not know
the list. A run is a list of calls, each with the list in force at it.
-/

namespace MeizuM5c.Power

open Lib

/-- The members of the HAL and of ADPF. -/
structure PowerHal where
  flags : PowerState := {}
  adpf : Adpf

inductive PowerCall where
  | setMode (clock : Nat → Time) (type : Mode) (enabled : Bool)
  | setBoost (clock : Nat → Time) (type : Boost) (durationMs : Int)
  | hint (op : AdpfOp)

section Calls

variable (cfg : Config) (off : List String)

/-- `recomputeLocked`, with the call that it makes of the engine. -/
def recomputeCall (now : Time) (a : Adpf) : Adpf × List EngineOp :=
  (Adpf.applied a, (Adpf.engineCall cfg.adpf now a).toList)

/-- The actions of a call in their order: what they leave of ADPF, and the
operations of the engine that they come to. -/
def runActions : List PowerAction → Adpf → Adpf × List EngineOp
  | [], a => (a, [])
  | .engine op :: rest, a =>
      let (a, ops) := runActions rest a
      (a, op :: ops)
  | .suppress suppressed now :: rest, a =>
      let (a, call) := recomputeCall cfg now (Adpf.setSuppressed suppressed now a).1
      let (a, ops) := runActions rest a
      (a, call ++ ops)

/-- A call and the operations of the engine that it makes. There are no hint
sessions, and so no calls of them, unless ADPF is enabled. -/
def halCall (h : PowerHal) : PowerCall → PowerHal × List EngineOp
  | .setMode clock type enabled =>
      if type.toString ∈ cfg.modes then
        let (flags, actions) := setMode cfg off clock type enabled h.flags
        let (adpf, ops) := runActions cfg actions h.adpf
        (⟨flags, adpf⟩, ops)
      else (h, [])
  | .setBoost clock type durationMs =>
      if type = .interaction ∧ type.toString ∈ cfg.boosts then
        let (adpf, ops) := runActions cfg (setBoost cfg off clock durationMs h.flags) h.adpf
        ({ h with adpf }, ops)
      else (h, [])
  | .hint op =>
      if cfg.adpf.enabled then
        match op.update cfg.adpf h.adpf with
        | (adpf, none) => ({ h with adpf }, [])
        | (adpf, some now) =>
            let (adpf, ops) := recomputeCall cfg now adpf
            ({ h with adpf }, ops)
      else (h, [])

end Calls

/-- The operation makes no request of a source on the list, gives no value to a
node on it, and does not pulse one. -/
def EngineOp.Honours (off : List String) : EngineOp → Prop
  | .setRequest source values _ _ _ => source ∉ off ∧ ∀ node ∈ off, values.find? node = none
  | .pulse name _ => name ∉ off
  | _ => True

/-- ADPF as the call leaves it before it recomputes, if it does. -/
def recomputed (cfg : Config) (off : List String) (h : PowerHal) : PowerCall → Option Adpf
  | .setMode clock type enabled =>
      let flags := (setMode cfg off clock type enabled h.flags).1
      if type.toString ∈ cfg.modes ∧ type ∈ [.interactive, .displayInactive, .lowPower] then
        some { h.adpf with mSuppressed := flags.mScreenOff || flags.mLowPower }
      else none
  | .setBoost _ _ _ => none
  | .hint op =>
      if cfg.adpf.enabled ∧ ((op.update cfg.adpf h.adpf).2).isSome then
        some (op.update cfg.adpf h.adpf).1
      else none

/-- The highest level of the sessions that run after the call's own change is
not above 0, or it is one that the list allows. -/
def LevelAllowed (cfg : Config) (off : List String) (h : PowerHal) (call : PowerCall) : Prop :=
  ∀ a ∈ recomputed cfg off h call, ∀ level > 0,
    IsGreatest {l | ∃ session, Running a session ∧ session.level = l} level →
      "adpf" ∉ off ∧
        ∀ node ∈ off, (cfg.adpf.levels.getD (level - 1).toNat OrdMap.empty).find? node = none

/-- One call of a run, with the off list in force. -/
def halBody (cfg : Config) (c : List String × PowerCall) (h : PowerHal) :
    List EngineOp × PowerHal :=
  ((halCall cfg c.1 h c.2).2, (halCall cfg c.1 h c.2).1)

/-- Every call of the run honours the list in force at it. -/
def OffListLaw (cfg : Config) (calls : List (List String × PowerCall)) (h : PowerHal) : Prop :=
  ∀ v ∈ visits (halBody cfg) calls h, ∀ op ∈ (halCall cfg v.1.1 v.2 v.1.2).2, op.Honours v.1.1

section Own

variable {cfg : Config} {off : List String}

theorem without_find? (set : ValueMap) {node : String} (hnode : node ∈ off) :
    (without set off).find? node = none := by
  cases hfound : (without set off).find? node with
  | none => rfl
  | some value =>
      rw [without, OrdMap.find?_filter_eq_some_iff] at hfound
      simp [hnode] at hfound

/-- An action on the engine itself that honours the list. -/
def PowerAction.Honours (off : List String) : PowerAction → Prop
  | .engine op => op.Honours off
  | .suppress _ _ => False

theorem pulses_honour (durationMs : Int) (names : List String) :
    ∀ action ∈ pulses off durationMs names, action.Honours off := by
  intro action haction
  obtain ⟨name, hname, rfl⟩ := List.mem_map.mp haction
  have hallowed := (List.mem_filter.mp hname).2
  simpa [PowerAction.Honours, EngineOp.Honours] using hallowed

theorem setModeLaunch_honours (clock : Nat → Time) (enabled : Bool) (p : PowerState) :
    ∀ action ∈ setModeLaunch cfg off clock enabled p, action.Honours off := by
  unfold setModeLaunch
  split
  · exact nofun
  · split_ifs with hoff
    · intro action haction
      rw [List.mem_singleton.mp haction]
      trivial
    · intro action haction
      rcases List.mem_append.mp haction with hpulse | hset
      · exact pulses_honour _ _ action hpulse
      · rw [List.mem_singleton.mp hset]
        refine ⟨?_, fun node hnode => without_find? _ hnode⟩
        simpa using fun h => hoff (by simp [h])

theorem boostActions_honour (clock : Nat → Time) (fling : Bool) {source : String}
    (hsource : source ∉ off) (durationMs : Int) (rc : RequestConfig) :
    ∀ action ∈ boostActions off clock fling source durationMs rc, action.Honours off := by
  intro action haction
  simp only [boostActions] at haction
  rcases List.mem_append.mp haction with hpulse | hset
  · exact pulses_honour _ _ action hpulse
  · split at hset
    · cases hset
    · rw [List.mem_singleton.mp hset]
      exact ⟨hsource, fun node hnode => without_find? _ hnode⟩

theorem setBoost_honours (clock : Nat → Time) (durationMs : Int) (p : PowerState) :
    ∀ action ∈ setBoost cfg off clock durationMs p, action.Honours off := by
  unfold setBoost
  simp only
  generalize (decide (0 < durationMs) && (cfg.requests.find? "fling").isSome) = fling
  generalize (if fling = true then "fling" else "interaction") = source
  by_cases hquiet : (p.mScreenOff || p.mLowPower) = true
  · rw [if_pos hquiet]
    exact nofun
  · rw [if_neg hquiet]
    split
    · exact nofun
    · split_ifs with hoff hzero
      · exact nofun
      · exact nofun
      · exact boostActions_honour clock fling (by simpa using hoff) durationMs _

end Own

section Levels

variable {cfg : Config} {off : List String}

/-- The highest level of the running sessions, when it is above 0, is the one
that a recomputation finds. -/
theorem isGreatest_running_iff {a : Adpf} {level : Int} (hpos : 0 < level) :
    IsGreatest {l | ∃ session, Running a session ∧ session.level = l} level ↔
      level = Adpf.recomputeLevel a := by
  have hrecomputed := recomputeLevel_isGreatest a
  constructor
  · intro hgreatest
    refine IsGreatest.unique ⟨.inr hgreatest.1, ?_⟩ hrecomputed
    rintro l (hzero | hrunning)
    · rw [Set.mem_singleton_iff.mp hzero]
      exact hpos.le
    · exact hgreatest.2 hrunning
  · rintro rfl
    refine ⟨hrecomputed.1.resolve_left fun hzero => ?_, fun l hl => hrecomputed.2 (.inr hl)⟩
    exact hpos.ne' (Set.mem_singleton_iff.mp hzero)

/-- What a recomputation asks of the engine honours the list exactly when the
level that it finds is allowed. -/
theorem engineCall_honours_iff (now : Time) (a : Adpf) :
    (∀ op ∈ (Adpf.engineCall cfg.adpf now a).toList, op.Honours off) ↔
      ∀ level > 0, IsGreatest {l | ∃ session, Running a session ∧ session.level = l} level →
        "adpf" ∉ off ∧
          ∀ node ∈ off,
            (cfg.adpf.levels.getD (level - 1).toNat OrdMap.empty).find? node = none := by
  have hnonneg := recomputeLevel_nonneg a
  unfold Adpf.engineCall
  by_cases hzero : Adpf.recomputeLevel a = 0
  · refine iff_of_true ?_ ?_
    · simp only [hzero, if_true]
      split_ifs
      · intro op hop
        rw [Option.toList_some, List.mem_singleton] at hop
        rw [hop]
        trivial
      · exact nofun
    · intro level hpos hgreatest
      rw [isGreatest_running_iff hpos, hzero] at hgreatest
      exact absurd hgreatest hpos.ne'
  · simp only [hzero, if_false, Option.toList_some, List.mem_singleton, forall_eq]
    constructor
    · intro hhonours level hpos hgreatest
      rw [isGreatest_running_iff hpos] at hgreatest
      rw [hgreatest]
      exact hhonours
    · intro hallowed
      have hpos : Adpf.recomputeLevel a > 0 := by omega
      exact hallowed _ hpos ((isGreatest_running_iff hpos).mpr rfl)

end Levels

section Runs

variable (cfg : Config) (off : List String)

/-- Actions that do not reach ADPF are the operations of the call. -/
theorem runActions_honours {actions : List PowerAction}
    (hactions : ∀ action ∈ actions, action.Honours off) (a : Adpf) :
    ∀ op ∈ (runActions cfg actions a).2, op.Honours off := by
  induction actions with
  | nil => exact nofun
  | cons action rest ih =>
      have haction := hactions action List.mem_cons_self
      have hrest := ih fun action haction => hactions action (List.mem_cons_of_mem _ haction)
      cases action with
      | suppress suppressed now => exact absurd haction not_false
      | engine op => exact List.forall_mem_cons.mpr ⟨haction, hrest⟩

/-- The calls that reach ADPF clear requests and then recompute. -/
theorem runActions_suppress {ops : List EngineOp} (suppressed : Bool) (now : Time) (a : Adpf)
    (hops : ∀ op ∈ ops, op.Honours off) :
    (∀ op ∈ (runActions cfg (ops.map .engine ++ [.suppress suppressed now]) a).2,
        op.Honours off) ↔
      ∀ op ∈ (Adpf.engineCall cfg.adpf now { a with mSuppressed := suppressed }).toList,
        op.Honours off := by
  induction ops with
  | nil => simp [runActions, recomputeCall, Adpf.setSuppressed]
  | cons op ops ih =>
      have hrest := ih fun op hop => hops op (List.mem_cons_of_mem _ hop)
      simp only [List.map_cons, List.cons_append, runActions, List.forall_mem_cons, hrest]
      exact and_iff_right (hops op List.mem_cons_self)

/-- A call that recomputes honours the list exactly when the level is allowed. -/
private theorem levelAllowed_of_recomputed {h : PowerHal} {call : PowerCall} {a : Adpf}
    (hrecomputed : recomputed cfg off h call = some a) (now : Time) :
    (∀ op ∈ (Adpf.engineCall cfg.adpf now a).toList, op.Honours off) ↔
      LevelAllowed cfg off h call := by
  rw [engineCall_honours_iff, LevelAllowed, hrecomputed]
  simp only [Option.mem_some_iff, forall_eq']

private theorem levelAllowed_of_none {h : PowerHal} {call : PowerCall}
    (hrecomputed : recomputed cfg off h call = none) : LevelAllowed cfg off h call := by
  rw [LevelAllowed, hrecomputed]
  exact nofun

private theorem setModeScreen_honours_iff (h : PowerHal) (clock : Nat → Time) (screenOff : Bool) :
    (∀ op ∈ (runActions cfg (setModeScreen clock screenOff h.flags).2 h.adpf).2,
      op.Honours off) ↔
        ∀ op ∈ (Adpf.engineCall cfg.adpf (clock 1)
          { h.adpf with mSuppressed := screenOff || h.flags.mLowPower }).toList,
            op.Honours off := by
  have hclear : ∀ op ∈ [EngineOp.clearAll (clock 0)], op.Honours off := by
    simp [EngineOp.Honours]
  have hnothing : ∀ op ∈ ([] : List EngineOp), op.Honours off := nofun
  cases screenOff with
  | true => exact runActions_suppress cfg off _ (clock 1) h.adpf hclear
  | false => exact runActions_suppress cfg off _ (clock 1) h.adpf hnothing

private theorem setModeLowPower_honours_iff (h : PowerHal) (clock : Nat → Time) (enabled : Bool) :
    (∀ op ∈ (runActions cfg (setModeLowPower clock enabled h.flags).2 h.adpf).2,
      op.Honours off) ↔
        ∀ op ∈ (Adpf.engineCall cfg.adpf (clock 2)
          { h.adpf with mSuppressed := h.flags.mScreenOff || enabled }).toList,
            op.Honours off := by
  have hclear : ∀ op ∈ [EngineOp.clearRequest "interaction" (clock 0),
      EngineOp.clearRequest "fling" (clock 1)], op.Honours off := by
    simp [EngineOp.Honours]
  have hnothing : ∀ op ∈ ([] : List EngineOp), op.Honours off := nofun
  cases enabled with
  | true => exact runActions_suppress cfg off _ (clock 2) h.adpf hclear
  | false => exact runActions_suppress cfg off _ (clock 2) h.adpf hnothing

private theorem setMode_honours_iff (h : PowerHal) (clock : Nat → Time) (type : Mode)
    (enabled : Bool) (hmode : type.toString ∈ cfg.modes) :
    (∀ op ∈ (runActions cfg (setMode cfg off clock type enabled h.flags).2 h.adpf).2,
      op.Honours off) ↔ LevelAllowed cfg off h (.setMode clock type enabled) := by
  cases type with
  | launch =>
      refine iff_of_true (runActions_honours cfg off (setModeLaunch_honours clock enabled h.flags) _)
        (levelAllowed_of_none cfg off ?_)
      simp [recomputed]
  | interactive =>
      refine (setModeScreen_honours_iff cfg off h clock (!enabled)).trans
        (levelAllowed_of_recomputed cfg off ?_ (clock 1))
      simp [recomputed, hmode, setMode, setModeScreen]
  | displayInactive =>
      refine (setModeScreen_honours_iff cfg off h clock enabled).trans
        (levelAllowed_of_recomputed cfg off ?_ (clock 1))
      simp [recomputed, hmode, setMode, setModeScreen]
  | lowPower =>
      refine (setModeLowPower_honours_iff cfg off h clock enabled).trans
        (levelAllowed_of_recomputed cfg off ?_ (clock 2))
      simp [recomputed, hmode, setMode, setModeLowPower]
  | other name =>
      refine iff_of_true nofun (levelAllowed_of_none cfg off ?_)
      simp [recomputed]

theorem halCall_honours_iff (h : PowerHal) (call : PowerCall) :
    (∀ op ∈ (halCall cfg off h call).2, op.Honours off) ↔ LevelAllowed cfg off h call := by
  cases call with
  | setMode clock type enabled =>
      by_cases hmode : type.toString ∈ cfg.modes
      · simp only [halCall, if_pos hmode]
        exact setMode_honours_iff cfg off h clock type enabled hmode
      · simp only [halCall, if_neg hmode]
        refine iff_of_true nofun (levelAllowed_of_none cfg off ?_)
        simp [recomputed, hmode]
  | setBoost clock type durationMs =>
      refine iff_of_true ?_ (levelAllowed_of_none cfg off rfl)
      simp only [halCall]
      split_ifs
      · exact runActions_honours cfg off (setBoost_honours clock durationMs h.flags) h.adpf
      · exact nofun
  | hint op =>
      simp only [halCall]
      by_cases henabled : cfg.adpf.enabled = true
      · rw [if_pos henabled]
        rcases hupdate : op.update cfg.adpf h.adpf with ⟨a, _ | now⟩
        · refine iff_of_true nofun (levelAllowed_of_none cfg off ?_)
          simp [recomputed, hupdate]
        · refine levelAllowed_of_recomputed cfg off ?_ now
          simp [recomputed, henabled, hupdate]
      · rw [if_neg henabled]
        refine iff_of_true nofun (levelAllowed_of_none cfg off ?_)
        simp [recomputed, henabled]

/-- A run honours its off lists exactly when no call of it makes ADPF set a
level that the list in force does not allow. -/
theorem offListLaw_iff (calls : List (List String × PowerCall)) (h : PowerHal) :
    OffListLaw cfg calls h ↔
      ∀ v ∈ visits (halBody cfg) calls h, LevelAllowed cfg v.1.1 v.2 v.1.2 :=
  forall₂_congr fun v _ => halCall_honours_iff cfg v.1.1 v.2 v.1.2

/-- A device with one node, ADPF enabled with one level on it. -/
def oneLevel : Config where
  nodes := [{ name := "hps", path := "/proc/hps/num_base_perf_serv", defaultValue := "1" }]
  adpf :=
    { enabled := true, lowWater := fun _ _ => false, levels := [OrdMap.empty.insert "hps" "4"] }

/-- A session is opened, and reports a frame over its target; `off` is in force
throughout. -/
def reportRun (off : List String) : List (List String × PowerCall) :=
  [(off, .hint (.openSession 10 0)), (off, .hint (.report 1 [12] 0))]

/-- The report makes ADPF set its request, whatever the list says. -/
private theorem reportRun_sets (off : List String)
    (hlaw : OffListLaw oneLevel (reportRun off) { adpf := Adpf.create oneLevel.adpf }) :
    (EngineOp.setRequest "adpf" (OrdMap.empty.insert "hps" "4") (Deadline.atTime (milliseconds 150))
      false 0).Honours off :=
  hlaw _ (List.mem_cons_of_mem _ List.mem_cons_self) _ List.mem_cons_self

/-- Neither the source `adpf` nor a node of its levels can be switched off. -/
theorem offListLaw_adpf_ignored :
    ¬OffListLaw oneLevel (reportRun (offList "adpf" "")) { adpf := Adpf.create oneLevel.adpf } ∧
      ¬OffListLaw oneLevel (reportRun (offList "hps" ""))
        { adpf := Adpf.create oneLevel.adpf } := by
  constructor
  · intro hlaw
    exact (reportRun_sets _ hlaw).1 (by decide)
  · intro hlaw
    exact absurd ((reportRun_sets _ hlaw).2 "hps" (by decide)) (by decide)

end Runs

end MeizuM5c.Power
