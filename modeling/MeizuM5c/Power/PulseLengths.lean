import MeizuM5c.Power.OffList
import MeizuM5c.Power.ParseConfig

/-!
The lengths of pulses. A boost clamps the length that it asks for and a launch
only cuts it off, over times of the configuration that are parsed but not
compared with anything.
-/

namespace MeizuM5c.Power

open Lib

section Law

variable (cfg : Config)

def boostFling (durationMs : Int) : Bool :=
  decide (0 < durationMs) && (cfg.requests.find? "fling").isSome

def boostSource (durationMs : Int) : String :=
  if boostFling cfg durationMs then "fling" else "interaction"

/-- The request that `setBoost` carries out, if it gets past its checks. -/
def boostRequest (off : List String) (durationMs : Int) (p : PowerState) :
    Option RequestConfig :=
  if p.mScreenOff || p.mLowPower then none
  else
    match cfg.requests.find? (boostSource cfg durationMs) with
    | none => none
    | some rc =>
        if off.contains (boostSource cfg durationMs) then none
        else if durationMs ≤ 0 ∧ rc.ignoreZeroDuration then none
        else some rc

/-- The arguments of a call of `std::clamp`. -/
structure ClampCall where
  v : Int
  lo : Int
  hi : Int

/-- There is no such call when the request has no pulses. -/
def boostClamp (durationMs : Int) (rc : RequestConfig) : Option ClampCall :=
  if rc.pulse = [] then none
  else some ⟨if 0 < durationMs then durationMs else rc.pulseMs, 1, rc.pulseMaxMs⟩

def clampCall (off : List String) (h : PowerHal) : PowerCall → Option ClampCall
  | .setBoost _ type durationMs =>
      if type = .interaction ∧ type.toString ∈ cfg.boosts then
        (boostRequest cfg off durationMs h.flags).bind (boostClamp durationMs)
      else none
  | _ => none

/-- The request that the pulses of a call belong to. -/
def pulseRequest : PowerCall → Option RequestConfig
  | .setMode _ .launch _ => cfg.requests.find? "launch"
  | .setBoost _ .interaction durationMs => cfg.requests.find? (boostSource cfg durationMs)
  | _ => none

/-- The duration of a boost is an `int32_t`. -/
def PowerCall.InRange : PowerCall → Prop
  | .setBoost _ _ durationMs => -2147483648 ≤ durationMs ∧ durationMs ≤ 2147483647
  | _ => True

structure PulsesBounded (off : List String) (h : PowerHal) (call : PowerCall) : Prop where
  lengths : ∀ name durationMs, .pulse name durationMs ∈ (halCall cfg off h call).2 →
    ∃ rc, pulseRequest cfg call = some rc ∧ 1 ≤ durationMs ∧ durationMs ≤ rc.pulseMaxMs
  clamps : ∀ c, clampCall cfg off h call = some c → c.lo ≤ c.hi

/-- Every call of every run keeps the lengths of its pulses. -/
def PulseLaw : Prop :=
  ∀ calls : List (List String × PowerCall), (∀ c ∈ calls, c.2.InRange) →
    ∀ v ∈ visits (halBody cfg) calls { adpf := Adpf.create cfg.adpf },
      PulsesBounded cfg v.1.1 v.2 v.1.2

/-- A request whose pulses a call can come to has times of at least 1. -/
structure PulseTimes : Prop where
  fling : "INTERACTION" ∈ cfg.boosts → ∀ rc, cfg.requests.find? "fling" = some rc →
    rc.pulse ≠ [] → 1 ≤ rc.pulseMaxMs
  interaction : "INTERACTION" ∈ cfg.boosts →
    ∀ rc, cfg.requests.find? "interaction" = some rc → rc.pulse ≠ [] →
      (rc.ignoreZeroDuration = true → cfg.requests.find? "fling" = none) → 1 ≤ rc.pulseMaxMs
  launch : "LAUNCH" ∈ cfg.modes → ∀ rc, cfg.requests.find? "launch" = some rc →
    rc.pulse ≠ [] → 1 ≤ rc.pulseMs ∧ 1 ≤ rc.pulseMaxMs

end Law

section Calls

variable {cfg : Config} {off : List String}

theorem setBoost_eq (clock : Nat → Time) (durationMs : Int) (p : PowerState) :
    setBoost cfg off clock durationMs p = (boostRequest cfg off durationMs p).elim []
      (boostActions off clock (boostFling cfg durationMs) (boostSource cfg durationMs)
        durationMs) := by
  unfold setBoost boostRequest boostSource boostFling
  simp only
  generalize (decide (0 < durationMs) && (cfg.requests.find? "fling").isSome) = fling
  generalize (if fling = true then "fling" else "interaction") = source
  split
  · rfl
  · cases cfg.requests.find? source with
    | none => rfl
    | some rc =>
        simp only
        split
        · rfl
        · split
          · rfl
          · rfl

/-- The checks of `setBoost` leave a request of a source that it can get to. -/
theorem boostRequest_eq_some {durationMs : Int} {p : PowerState} {rc : RequestConfig}
    (h : boostRequest cfg off durationMs p = some rc) :
    cfg.requests.find? (boostSource cfg durationMs) = some rc ∧
      (durationMs ≤ 0 → rc.ignoreZeroDuration = false) := by
  unfold boostRequest at h
  split at h
  · cases h
  · split at h
    · cases h
    · rename_i found hfound
      split_ifs at h with hoff hzero
      cases h
      refine ⟨hfound, fun hle => ?_⟩
      simpa [hle] using hzero

theorem boostRequest_start {durationMs : Int} {rc : RequestConfig}
    (hfind : cfg.requests.find? (boostSource cfg durationMs) = some rc)
    (hzero : durationMs ≤ 0 → rc.ignoreZeroDuration = false) :
    boostRequest cfg [] durationMs {} = some rc := by
  unfold boostRequest
  simp only [hfind, Bool.or_self, Bool.false_eq_true, if_false, List.contains_nil]
  rw [if_neg]
  rintro ⟨hle, htrue⟩
  rw [hzero hle] at htrue
  cases htrue

theorem boostClamp_eq_some {durationMs : Int} {rc : RequestConfig} {c : ClampCall}
    (h : boostClamp durationMs rc = some c) :
    rc.pulse ≠ [] ∧ c.lo = 1 ∧ c.hi = rc.pulseMaxMs := by
  unfold boostClamp at h
  split at h
  · cases h
  · rename_i hne
    cases h
    exact ⟨hne, rfl, rfl⟩

theorem clamp_bounds {v lo hi : Int} (h : lo ≤ hi) : lo ≤ clamp v lo hi ∧ clamp v lo hi ≤ hi := by
  unfold clamp
  split_ifs <;> omega

theorem mem_pulses {durationMs ms : Int} {names : List String} {name : String}
    (h : .engine (.pulse name ms) ∈ pulses off durationMs names) :
    ms = durationMs ∧ name ∈ names := by
  obtain ⟨other, hother, heq⟩ := List.mem_map.mp h
  cases heq
  exact ⟨rfl, (List.mem_filter.mp hother).1⟩

/-- A boost pulses for the length that it clamped. -/
theorem mem_boostActions {clock : Nat → Time} {fling : Bool} {source : String}
    {durationMs ms : Int} {rc : RequestConfig} {name : String}
    (h : .engine (.pulse name ms) ∈ boostActions off clock fling source durationMs rc) :
    ∃ c, boostClamp durationMs rc = some c ∧ ms = clamp c.v c.lo c.hi := by
  simp only [boostActions] at h
  rcases List.mem_append.mp h with hpulse | hset
  · obtain ⟨hms, hname⟩ := mem_pulses hpulse
    have hne : rc.pulse ≠ [] := List.ne_nil_of_mem hname
    rw [boostClamp, if_neg hne]
    exact ⟨_, rfl, hms⟩
  · split at hset
    · cases hset
    · rw [List.mem_singleton] at hset
      cases hset

theorem mem_setModeLaunch {clock : Nat → Time} {enabled : Bool} {p : PowerState} {name : String}
    {ms : Int} (h : .engine (.pulse name ms) ∈ setModeLaunch cfg off clock enabled p) :
    ∃ rc, cfg.requests.find? "launch" = some rc ∧ rc.pulse ≠ [] ∧
      ms = min rc.pulseMs rc.pulseMaxMs := by
  unfold setModeLaunch at h
  split at h
  · cases h
  · rename_i rc hfind
    split_ifs at h
    · rw [List.mem_singleton] at h
      cases h
    · rcases List.mem_append.mp h with hpulse | hset
      · obtain ⟨hms, hname⟩ := mem_pulses hpulse
        exact ⟨rc, hfind, List.ne_nil_of_mem hname, hms⟩
      · rw [List.mem_singleton] at hset
        cases hset

theorem engineCall_no_pulse (now : Time) (a : Adpf) (name : String) (ms : Int) :
    .pulse name ms ∉ (Adpf.engineCall cfg.adpf now a).toList := by
  unfold Adpf.engineCall
  simp only
  split_ifs <;> simp

/-- A pulse that the actions come to is one of them: ADPF makes none. -/
theorem mem_runActions {actions : List PowerAction} {a : Adpf} {name : String} {ms : Int}
    (h : .pulse name ms ∈ (runActions cfg actions a).2) :
    .engine (.pulse name ms) ∈ actions := by
  induction actions generalizing a with
  | nil => cases h
  | cons action rest ih =>
      cases action with
      | engine op =>
          rcases List.mem_cons.mp h with rfl | hrest
          · exact List.mem_cons_self
          · exact List.mem_cons_of_mem _ (ih hrest)
      | suppress suppressed now =>
          rcases List.mem_append.mp h with hcall | hrest
          · exact absurd hcall (engineCall_no_pulse _ _ _ _)
          · exact List.mem_cons_of_mem _ (ih hrest)

theorem hint_no_pulse (off : List String) (h : PowerHal) (op : AdpfOp) (name : String) (ms : Int) :
    .pulse name ms ∉ (halCall cfg off h (.hint op)).2 := by
  simp only [halCall]
  by_cases henabled : cfg.adpf.enabled = true
  · rw [if_pos henabled]
    rcases hupdate : op.update cfg.adpf h.adpf with ⟨a, _ | now⟩
    · exact List.not_mem_nil
    · exact engineCall_no_pulse now a name ms
  · rw [if_neg henabled]
    exact List.not_mem_nil

theorem mem_setMode {clock : Nat → Time} {type : Mode} {enabled : Bool} {p : PowerState}
    {name : String} {ms : Int}
    (h : .engine (.pulse name ms) ∈ (setMode cfg off clock type enabled p).2) :
    type = .launch ∧ .engine (.pulse name ms) ∈ setModeLaunch cfg off clock enabled p := by
  have hscreen (screenOff : Bool) :
      .engine (.pulse name ms) ∉ (setModeScreen clock screenOff p).2 := by
    cases screenOff <;> simp [setModeScreen, updateAdpfSuppression]
  cases type with
  | launch => exact ⟨rfl, h⟩
  | interactive => exact absurd h (hscreen _)
  | displayInactive => exact absurd h (hscreen _)
  | lowPower =>
      have hlow : .engine (.pulse name ms) ∉ (setModeLowPower clock enabled p).2 := by
        cases enabled <;> simp [setModeLowPower, updateAdpfSuppression]
      exact absurd h hlow
  | other name => cases h

end Calls

section Lengths

variable {cfg : Config}

/-- Sound times bound the pulses of every boost. -/
theorem boost_bounded (htimes : PulseTimes cfg) (hboost : "INTERACTION" ∈ cfg.boosts)
    {off : List String} {durationMs : Int} {p : PowerState} {rc : RequestConfig} {c : ClampCall}
    (hrc : boostRequest cfg off durationMs p = some rc)
    (hc : boostClamp durationMs rc = some c) : 1 ≤ rc.pulseMaxMs := by
  obtain ⟨hfind, hzero⟩ := boostRequest_eq_some hrc
  have hne := (boostClamp_eq_some hc).1
  by_cases hfling : boostFling cfg durationMs = true
  · rw [boostSource, if_pos hfling] at hfind
    exact htimes.fling hboost rc hfind hne
  · rw [boostSource, if_neg hfling] at hfind
    refine htimes.interaction hboost rc hfind hne (fun hignore => ?_)
    have hpos : 0 < durationMs := by
      by_contra hle
      rw [hzero (not_lt.mp hle)] at hignore
      cases hignore
    simpa [boostFling, hpos] using hfling

theorem launch_bounded (htimes : PulseTimes cfg) (hmode : "LAUNCH" ∈ cfg.modes)
    {rc : RequestConfig} (hfind : cfg.requests.find? "launch" = some rc) (hne : rc.pulse ≠ []) :
    1 ≤ min rc.pulseMs rc.pulseMaxMs ∧ min rc.pulseMs rc.pulseMaxMs ≤ rc.pulseMaxMs := by
  obtain ⟨hms, hmax⟩ := htimes.launch hmode rc hfind hne
  exact ⟨le_min hms hmax, min_le_right _ _⟩

theorem pulsesBounded_of_times (htimes : PulseTimes cfg) (off : List String) (h : PowerHal)
    (call : PowerCall) : PulsesBounded cfg off h call := by
  cases call with
  | setMode clock type enabled =>
      constructor
      · intro name ms hmem
        by_cases hmode : type.toString ∈ cfg.modes
        · simp only [halCall, if_pos hmode] at hmem
          obtain ⟨rfl, hlaunch⟩ := mem_setMode (mem_runActions hmem)
          obtain ⟨rc, hfind, hne, rfl⟩ := mem_setModeLaunch hlaunch
          exact ⟨rc, hfind, launch_bounded htimes hmode hfind hne⟩
        · simp only [halCall, if_neg hmode] at hmem
          cases hmem
      · intro c hc
        cases hc
  | setBoost clock type durationMs =>
      by_cases hboost : type = .interaction ∧ type.toString ∈ cfg.boosts
      · obtain ⟨rfl, hsupported⟩ := hboost
        have hactions : setBoost cfg off clock durationMs h.flags = _ :=
          setBoost_eq clock durationMs h.flags
        cases hrc : boostRequest cfg off durationMs h.flags with
        | none =>
            rw [hrc] at hactions
            simp only [Option.elim] at hactions
            constructor
            · intro name ms hmem
              simp [halCall, hsupported, hactions, runActions] at hmem
            · intro c hc
              simp [clampCall, hrc] at hc
        | some rc =>
            rw [hrc] at hactions
            simp only [Option.elim] at hactions
            have hfind := (boostRequest_eq_some hrc).1
            constructor
            · intro name ms hmem
              simp only [halCall, hsupported, and_self, if_true, hactions] at hmem
              obtain ⟨c, hc, rfl⟩ := mem_boostActions (mem_runActions hmem)
              have hmax := boost_bounded htimes hsupported hrc hc
              obtain ⟨-, hlo, hhi⟩ := boostClamp_eq_some hc
              refine ⟨rc, hfind, ?_⟩
              rw [hlo, hhi]
              exact clamp_bounds hmax
            · intro c hc
              simp only [clampCall, hsupported, and_self, if_true, hrc, Option.bind_some] at hc
              have hmax := boost_bounded htimes hsupported hrc hc
              obtain ⟨-, hlo, hhi⟩ := boostClamp_eq_some hc
              rw [hlo, hhi]
              exact hmax
      · constructor
        · intro name ms hmem
          simp only [halCall, if_neg hboost] at hmem
          cases hmem
        · intro c hc
          simp only [clampCall, if_neg hboost] at hc
          cases hc
  | hint op =>
      constructor
      · intro name ms hmem
        exact absurd hmem (hint_no_pulse off h op name ms)
      · intro c hc
        cases hc

/-- The first call of a run. -/
theorem PulseLaw.first (h : PulseLaw cfg) {call : PowerCall} (hrange : call.InRange) :
    PulsesBounded cfg [] { adpf := Adpf.create cfg.adpf } call := by
  have hall : ∀ c ∈ [(([] : List String), call)], c.2.InRange := by
    intro c hc
    rw [List.mem_singleton.mp hc]
    exact hrange
  exact h [([], call)] hall _ List.mem_cons_self

/-- A boost with no duration or the shortest one tells what the clamp gets. -/
theorem PulseLaw.boost (h : PulseLaw cfg) (hboost : "INTERACTION" ∈ cfg.boosts)
    {durationMs : Int} (hrange : durationMs = 0 ∨ durationMs = 1) {rc : RequestConfig}
    (hfind : cfg.requests.find? (boostSource cfg durationMs) = some rc)
    (hzero : durationMs ≤ 0 → rc.ignoreZeroDuration = false) (hne : rc.pulse ≠ []) :
    1 ≤ rc.pulseMaxMs := by
  have hin : (PowerCall.setBoost (fun _ => 0) .interaction durationMs).InRange := by
    unfold PowerCall.InRange
    omega
  have hclamp : clampCall cfg [] { adpf := Adpf.create cfg.adpf }
      (.setBoost (fun _ => 0) .interaction durationMs) =
        some ⟨if 0 < durationMs then durationMs else rc.pulseMs, 1, rc.pulseMaxMs⟩ := by
    have hrc := boostRequest_start hfind hzero
    simp only [clampCall, Boost.toString, hboost, and_self, if_true, hrc, Option.bind_some,
      boostClamp, if_neg hne]
  exact (h.first hin).clamps _ hclamp

theorem PulseLaw.times (h : PulseLaw cfg) : PulseTimes cfg := by
  constructor
  · intro hboost rc hfind hne
    have hsource : boostSource cfg 1 = "fling" := by
      simp [boostSource, boostFling, hfind]
    exact h.boost hboost (Or.inr rfl) (by rw [hsource, hfind]) (by omega) hne
  · intro hboost rc hfind hne hreach
    by_cases hignore : rc.ignoreZeroDuration = true
    · have hsource : boostSource cfg 1 = "interaction" := by
        simp [boostSource, boostFling, hreach hignore]
      exact h.boost hboost (Or.inr rfl) (by rw [hsource, hfind]) (by omega) hne
    · have hsource : boostSource cfg 0 = "interaction" := by
        simp [boostSource, boostFling]
      exact h.boost hboost (Or.inl rfl) (by rw [hsource, hfind])
        (fun _ => Bool.eq_false_iff.mpr hignore) hne
  · intro hmode rc hfind hne
    obtain ⟨name, names, hnames⟩ := List.exists_cons_of_ne_nil hne
    have hin : (PowerCall.setMode (fun _ => 0) .launch true).InRange := trivial
    have hmem : .pulse name (min rc.pulseMs rc.pulseMaxMs) ∈
        (halCall cfg [] { adpf := Adpf.create cfg.adpf }
          (.setMode (fun _ => 0) .launch true)).2 := by
      simp [halCall, Mode.toString, hmode, setMode, setModeLaunch, hfind, pulses, hnames,
        runActions]
    obtain ⟨-, -, hlength, -⟩ := (h.first hin).lengths _ _ hmem
    exact le_min_iff.mp hlength

/-- For every configuration: the lengths of the pulses are kept in every run
exactly when no request that a run can come to has a time below 1. -/
theorem pulseLaw_iff (cfg : Config) : PulseLaw cfg ↔ PulseTimes cfg := by
  constructor
  · exact PulseLaw.times
  · exact fun htimes _ _ v _ => pulsesBounded_of_times htimes v.1.1 v.2 v.1.2

/-- A launch with a pulse and no length for it, as the parser accepts it. -/
def launchDocument : Json := .object [
  ("Nodes", .object [
    ("ia_pulse", .object [("Type", .string "pulse"),
      ("Path", .string "/sys/devices/system/cpu/cpufreq/interactive/boostpulse")])]),
  ("Requests", .object [("launch", .object [("MaxMs", .int 1500),
    ("Pulse", .array [.string "ia_pulse"])])]),
  ("Supported", .object [("Modes", .array [.string "LAUNCH"])])]

/-- The launch pulses for 0 ms. -/
theorem launchDocument_accepted_unbounded :
    ∃ result, parseConfig plainAccess (fun _ _ _ => false) (fun _ => .ok launchDocument) ""
        { adpf := defaultAdpf (fun _ _ _ => false) } = some result ∧
      result.returned = true ∧ ¬ PulseLaw result.out := by
  refine ⟨_, rfl, rfl, ?_⟩
  intro hlaw
  have hin : (PowerCall.setMode (fun _ => 0) .launch true).InRange := trivial
  obtain ⟨-, -, hlength, -⟩ := (hlaw.first hin).lengths "ia_pulse" 0 List.mem_cons_self
  exact absurd hlength (by decide)

end Lengths

end MeizuM5c.Power
