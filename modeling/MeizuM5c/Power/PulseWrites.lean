import Mathlib
import MeizuM5c.Lib.LastSome
import MeizuM5c.Power.ApplyWrites

/-!
The two writes of a pulse: the duration, when it is not the one that the engine
last wrote, and the trigger. The engine remembers the duration of a node in
`pulseUs`; the kernel remembers what was last written with success. A run is a
sequence of pulses from a new engine, with a log of the writes and whether they
succeeded.
-/

namespace MeizuM5c.Power

open Lib

/-- What a path holds: the value of the last write to it that succeeded. -/
def lastWritten (log : List Write) (path : String) : Option String :=
  lastSome (fun x => if x.path = path ∧ x.ok = true then some x.value else none) log

namespace Engine

section Law

variable {σ : Type} (fs : Fs σ)

/-- The node that a pulse of this name fires. -/
def pulseTarget (e : Engine) (name : String) : Option NodeState :=
  (e.mNodes.find? (fun node => node.cfg.name = name)).filter (fun node => node.cfg.type = .pulse)

/-- A call of `pulse`, its state and its log. -/
def pulseBody (call : String × Int) (s : Engine × σ × List Write) :
    Unit × Engine × σ × List Write :=
  ((), pulse fs.traced call.1 call.2 s.1 s.2)

/-- The calls of a run, each with the state and the log in front of it. -/
def pulseRun (cfgs : List NodeConfig) (calls : List (String × Int)) (w : σ) :
    List ((String × Int) × Engine × σ × List Write) :=
  visits (pulseBody fs) calls (create cfgs, w, [])

/-- What one call adds to the log. -/
def pulseWrites (call : String × Int) (s : Engine × σ × List Write) : List Write :=
  (pulse fs.traced call.1 call.2 s.1 s.2).2.2.drop s.2.2.length

/-- When the trigger was written, which is the last write of a call, the duration
path holds the requested length in microseconds; and a duration, which is written in
front of it, was not there already. -/
structure PulseHolds (node : NodeState) (durationMs : Int) (log writes : List Write) : Prop where
  fired : ∀ x, writes.getLast? = some x → x.ok = true →
    lastWritten (log ++ writes.dropLast) node.cfg.durationPath = some (toString (durationMs * 1000))
  rewritten : writes.dropLast ≠ [] →
    lastWritten log node.cfg.durationPath ≠ some (toString (durationMs * 1000))

/-- Every call of the run that fires a node fires it with its length. -/
def PulsesFired (cfgs : List NodeConfig) (calls : List (String × Int)) (w : σ) : Prop :=
  ∀ v ∈ pulseRun fs cfgs calls w, ∀ node, pulseTarget v.2.1 v.1.1 = some node →
    PulseHolds node v.1.2 v.2.2.2 (pulseWrites fs v.1 v.2)

/-- The duration is not written although it is new, and the trigger is. -/
def Misfires (node : NodeState) (us : Int) (w : σ) : Prop :=
  node.pulseUs ≠ some us ∧
    (fs.write node.cfg.durationPath (toString us) w).1.isOk = false ∧
    (fs.write node.cfg.path "1" (fs.write node.cfg.durationPath (toString us) w).2).1.isOk = true

/-- No call of the run misfires. -/
def NoMisfire (cfgs : List NodeConfig) (calls : List (String × Int)) (w : σ) : Prop :=
  ∀ v ∈ pulseRun fs cfgs calls w, ∀ node, pulseTarget v.2.1 v.1.1 = some node →
    ¬ Misfires fs node (v.1.2 * 1000) v.2.2.1

end Law

/-- The configured pulse nodes. -/
def pulseNodes (cfgs : List NodeConfig) : List NodeConfig :=
  cfgs.filter (fun cfg => cfg.type = .pulse)

/-- Every pulse node has a duration path of its own. -/
structure OwnDurations (cfgs : List NodeConfig) : Prop where
  present : ∀ cfg ∈ pulseNodes cfgs, cfg.durationPath ≠ ""
  distinct : ((pulseNodes cfgs).map NodeConfig.durationPath).Nodup

/-- No trigger is written where a duration is. -/
def TriggersApart (cfgs : List NodeConfig) : Prop :=
  ∀ cfg ∈ pulseNodes cfgs, ∀ other ∈ pulseNodes cfgs, cfg.path ≠ other.durationPath

section Writes

variable {σ : Type} (fs : Fs σ)

/-- The write of the duration, if there is one. -/
def durationWrite (node : NodeState) (us : Int) (w : σ) : Option Write :=
  if node.cfg.durationPath ≠ "" ∧ node.pulseUs ≠ some us then
    some ⟨node.cfg.durationPath, toString us,
      (fs.write node.cfg.durationPath (toString us) w).1.isOk⟩
  else none

theorem pulseDuration_traced (node : NodeState) (us : Int) (w : σ) (log : List Write) :
    pulseDuration fs.traced node us (w, log) =
      ((pulseDuration fs node us w).1, (pulseDuration fs node us w).2,
        log ++ (durationWrite fs node us w).toList) := by
  unfold pulseDuration durationWrite
  split_ifs
  · simp only [Fs.traced]
    rcases hwrite : fs.write node.cfg.durationPath (toString us) w with ⟨result, w'⟩
    cases result with
    | ok _ => rfl
    | error err => rfl
  · simp

/-- The write of the trigger. -/
def triggerWrite (node : NodeState) (us : Int) (w : σ) : Write :=
  ⟨node.cfg.path, "1", (fs.write node.cfg.path "1" (pulseDuration fs node us w).2).1.isOk⟩

theorem writeLocked_ok (node : NodeState) (value : String) (w : σ) :
    (writeLocked fs node value w).1.1 = (fs.write node.cfg.path value w).1.isOk := by
  unfold writeLocked
  rcases fs.write node.cfg.path value w with ⟨result, w'⟩
  cases result with
  | ok _ => rfl
  | error err =>
      simp only
      split_ifs <;> rfl

theorem pulseNode_traced (node : NodeState) (durationMs : Int) (w : σ) (log : List Write) :
    pulseNode fs.traced node durationMs (w, log) =
      ((pulseNode fs node durationMs w).1, (pulseNode fs node durationMs w).2,
        log ++ ((durationWrite fs node (durationMs * 1000) w).toList ++
          [triggerWrite fs node (durationMs * 1000) w])) := by
  have hcfg := (pulseDuration_spec fs node (durationMs * 1000) w).1
  simp only [pulseNode, pulseDuration_traced, writeLocked_traced, writeLocked_ok, hcfg,
    List.append_assoc, triggerWrite]

theorem writeLocked_pulseUs (node : NodeState) (value : String) (w : σ) :
    (writeLocked fs node value w).1.2.pulseUs = node.pulseUs := by
  unfold writeLocked
  rcases fs.write node.cfg.path value w with ⟨result, w'⟩
  cases result with
  | ok _ => rfl
  | error err =>
      simp only
      split_ifs <;> rfl

theorem pulseNode_cfg (node : NodeState) (durationMs : Int) (w : σ) :
    (pulseNode fs node durationMs w).1.cfg = node.cfg := by
  simp only [pulseNode, (writeLocked_spec fs _ "1" _).1, (pulseDuration_spec fs node _ w).1]

/-- The remembered duration is the one of the duration write, if it succeeded. -/
theorem pulseNode_pulseUs (node : NodeState) (durationMs : Int) (w : σ) :
    (pulseNode fs node durationMs w).1.pulseUs =
      if (durationWrite fs node (durationMs * 1000) w).any Write.ok then some (durationMs * 1000)
      else node.pulseUs := by
  simp only [pulseNode, writeLocked_pulseUs]
  unfold pulseDuration durationWrite
  by_cases hdue : node.cfg.durationPath ≠ "" ∧ node.pulseUs ≠ some (durationMs * 1000)
  · rw [if_pos hdue, if_pos hdue, Option.any_some]
    generalize fs.write node.cfg.durationPath (toString (durationMs * 1000)) w = answer
    obtain ⟨result, w'⟩ := answer
    cases result with
    | ok _ => rfl
    | error err => rfl
  · rw [if_neg hdue, if_neg hdue, Option.any_none, if_neg Bool.false_ne_true]

/-- A call fires the first node of its name, when that is a pulse node, or does
nothing. -/
theorem pulseFirst_cases (name : String) (durationMs : Int) (nodes : List NodeState) (w : σ)
    (log : List Write) :
    ((nodes.find? (fun node => node.cfg.name = name)).filter
        (fun node => node.cfg.type = .pulse) = none ∧
      pulseFirst fs.traced name durationMs nodes (w, log) = (nodes, w, log)) ∨
    ∃ before node after, nodes = before ++ node :: after ∧ node.cfg.type = .pulse ∧
      (nodes.find? (fun node => node.cfg.name = name)).filter
        (fun node => node.cfg.type = .pulse) = some node ∧
      pulseFirst fs.traced name durationMs nodes (w, log) =
        (before ++ (pulseNode fs node durationMs w).1 :: after,
          (pulseNode fs node durationMs w).2,
          log ++ ((durationWrite fs node (durationMs * 1000) w).toList ++
            [triggerWrite fs node (durationMs * 1000) w])) := by
  induction nodes with
  | nil => exact .inl ⟨rfl, rfl⟩
  | cons node rest ih =>
      unfold pulseFirst
      by_cases hname : node.cfg.name = name
      · rw [if_pos hname, List.find?_cons_of_pos (by simpa using hname)]
        by_cases htype : node.cfg.type = .pulse
        · right
          refine ⟨[], node, rest, rfl, htype, by simp [htype], ?_⟩
          rw [if_pos htype, pulseNode_traced]
          rfl
        · left
          rw [if_neg htype]
          exact ⟨by simp [htype], rfl⟩
      · rw [if_neg hname, List.find?_cons_of_neg (by simpa using hname)]
        rcases ih with ⟨hnone, hrun⟩ | ⟨before, found, after, hsplit, htype, hfound, hrun⟩
        · left
          rw [hrun]
          exact ⟨hnone, rfl⟩
        · right
          refine ⟨node :: before, found, after, by rw [hsplit]; rfl, htype, hfound, ?_⟩
          rw [hrun]
          rfl

end Writes

section Logs

variable {log writes : List Write} {path : String}

theorem lastWritten_append :
    lastWritten (log ++ writes) path = (lastWritten writes path).or (lastWritten log path) :=
  lastSome_append _ log writes

/-- Writes to other paths change nothing. -/
theorem lastWritten_elsewhere (h : ∀ x ∈ writes, x.path ≠ path) :
    lastWritten (log ++ writes) path = lastWritten log path := by
  have hnone : lastWritten writes path = none := by
    apply lastSome_eq_none
    intro x hx
    rw [if_neg (fun hboth => h x hx hboth.1)]
  rw [lastWritten_append, hnone, Option.none_or]

theorem lastWritten_concat (x : Write) :
    lastWritten (log ++ [x]) path =
      if x.path = path ∧ x.ok = true then some x.value else lastWritten log path := by
  rw [lastWritten_append, lastWritten, lastSome_cons, lastSome_nil, Option.none_or]
  split_ifs
  · rfl
  · rfl

end Logs

section Kept

variable {σ : Type} {fs : Fs σ} {cfgs : List NodeConfig}

/-- The engine remembers for every pulse node what its duration path holds. -/
structure Remembers (cfgs : List NodeConfig) (s : Engine × σ × List Write) : Prop where
  built : Built cfgs s.1
  held : ∀ node ∈ s.1.mNodes, node.cfg.type = .pulse →
    lastWritten s.2.2 node.cfg.durationPath = node.pulseUs.map toString

theorem remembers_create (w : σ) : Remembers cfgs (create cfgs, w, []) := by
  constructor
  · rfl
  · intro node hnode _
    obtain ⟨cfg, -, rfl⟩ := List.mem_map.mp hnode
    rfl

theorem Built.perm {e : Engine} (hbuilt : Built cfgs e) :
    (e.mNodes.map NodeState.cfg).Perm cfgs := by
  have hcfgs : e.mNodes.map NodeState.cfg = cfgs.insertionSort (fun a b => ¬ nodeBefore b a) := by
    rw [hbuilt]
    simp [create, Function.comp_def]
  rw [hcfgs]
  exact List.perm_insertionSort _ cfgs

theorem Built.mem_pulseNodes {e : Engine} (hbuilt : Built cfgs e) {node : NodeState}
    (hnode : node ∈ e.mNodes) (htype : node.cfg.type = .pulse) : node.cfg ∈ pulseNodes cfgs := by
  have hcfg : node.cfg ∈ cfgs := hbuilt.perm.subset (List.mem_map_of_mem hnode)
  exact List.mem_filter.mpr ⟨hcfg, by simpa using htype⟩

/-- The node that fires does not share its duration path with another. -/
theorem Built.durationPath_ne {e : Engine} (hbuilt : Built cfgs e) (hown : OwnDurations cfgs)
    {before after : List NodeState} {node other : NodeState}
    (hsplit : e.mNodes = before ++ node :: after) (htype : node.cfg.type = .pulse)
    (hother : other ∈ before ++ after) (hpulse : other.cfg.type = .pulse) :
    node.cfg.durationPath ≠ other.cfg.durationPath := by
  have hperm := (hbuilt.perm.filter (fun cfg => cfg.type = .pulse)).map NodeConfig.durationPath
  have hnodup := hperm.nodup_iff.mpr hown.distinct
  have hmiddle : (before ++ node :: after).Perm (node :: (before ++ after)) := List.perm_middle
  rw [hsplit, (((hmiddle.map NodeState.cfg).filter _).map _).nodup_iff] at hnodup
  rw [List.map_cons, List.filter_cons_of_pos (by simpa using htype), List.map_cons,
    List.nodup_cons] at hnodup
  intro heq
  apply hnodup.1
  rw [heq]
  apply List.mem_map_of_mem
  exact List.mem_filter.mpr ⟨List.mem_map_of_mem hother, by simpa using hpulse⟩

/-- The write of a duration goes to the duration path. -/
theorem durationWrite_path {node : NodeState} {us : Int} {w : σ} {x : Write}
    (hx : x ∈ (durationWrite fs node us w).toList) : x.path = node.cfg.durationPath := by
  rw [Option.mem_toList] at hx
  unfold durationWrite at hx
  split_ifs at hx
  cases hx
  rfl

variable (fs) in
/-- What the duration path holds in front of the trigger: the duration, if it was
written with success, or what was there. -/
theorem lastWritten_duration (node : NodeState) (us : Int) (w : σ) (log : List Write) :
    lastWritten (log ++ (durationWrite fs node us w).toList) node.cfg.durationPath =
      if (durationWrite fs node us w).any Write.ok then some (toString us)
      else lastWritten log node.cfg.durationPath := by
  unfold durationWrite
  by_cases hdue : node.cfg.durationPath ≠ "" ∧ node.pulseUs ≠ some us
  · rw [if_pos hdue, Option.toList_some, lastWritten_concat, Option.any_some]
    simp only [true_and]
  · rw [if_neg hdue, Option.toList_none, List.append_nil, Option.any_none,
      if_neg Bool.false_ne_true]

theorem remembers_pulse (hown : OwnDurations cfgs) (hap : TriggersApart cfgs)
    (call : String × Int) (s : Engine × σ × List Write) (hs : Remembers cfgs s) :
    Remembers cfgs (pulseBody fs call s).2 := by
  obtain ⟨name, durationMs⟩ := call
  obtain ⟨e, w, log⟩ := s
  have hbuilt' : Built cfgs (pulse fs.traced name durationMs e (w, log)).1 :=
    (pulseFirst_cfgs fs.traced name durationMs e.mNodes (w, log)).trans hs.built
  refine ⟨hbuilt', ?_⟩
  rcases pulseFirst_cases fs name durationMs e.mNodes w log with
    ⟨-, hrun⟩ | ⟨before, node, after, hsplit, htype, -, hrun⟩
  · simp only [pulseBody, pulse, hrun]
    exact hs.held
  · simp only [pulseBody, pulse, hrun]
    have hnode : node ∈ e.mNodes := by simp [hsplit]
    have hpaths := hap node.cfg (hs.built.mem_pulseNodes hnode htype)
    intro other hother hpulse
    have hcases : other ∈ before ++ after ∨ other = (pulseNode fs node durationMs w).1 := by
      simp only [List.mem_append, List.mem_cons] at hother ⊢
      tauto
    rw [← List.append_assoc]
    rcases hcases with hrest | rfl
    · have hmem : other ∈ e.mNodes := by
        simp only [hsplit, List.mem_append, List.mem_cons] at hrest ⊢
        tauto
      have hne := hs.built.durationPath_ne hown hsplit htype hrest hpulse
      have htrigger := hpaths other.cfg (hs.built.mem_pulseNodes hmem hpulse)
      rw [List.append_assoc, lastWritten_elsewhere]
      · exact hs.held other hmem hpulse
      · intro x hx
        rcases List.mem_append.mp hx with hx | hx
        · rw [durationWrite_path hx]
          exact hne
        · rw [List.mem_singleton.mp hx]
          exact htrigger
    · have htrigger := hpaths node.cfg (hs.built.mem_pulseNodes hnode htype)
      rw [pulseNode_cfg, pulseNode_pulseUs, lastWritten_elsewhere, lastWritten_duration,
        hs.held node hnode htype]
      · split_ifs
        · rfl
        · rfl
      · intro x hx
        rw [List.mem_singleton.mp hx]
        exact htrigger

variable (fs) in
/-- What a call that fires a node adds to the log. -/
theorem pulseWrites_fired {name : String} (durationMs : Int) {e : Engine} (w : σ)
    (log : List Write) {node : NodeState} (htarget : pulseTarget e name = some node) :
    pulseWrites fs (name, durationMs) (e, w, log) =
      (durationWrite fs node (durationMs * 1000) w).toList ++
        [triggerWrite fs node (durationMs * 1000) w] := by
  rcases pulseFirst_cases fs name durationMs e.mNodes w log with
    ⟨hnone, -⟩ | ⟨before, found, after, -, -, hfound, hrun⟩
  · rw [pulseTarget, hnone] at htarget
    cases htarget
  · rw [pulseTarget, hfound] at htarget
    cases htarget
    simp only [pulseWrites, pulse, hrun, List.drop_left]

theorem pulseTarget_mem {e : Engine} {name : String} {node : NodeState}
    (htarget : pulseTarget e name = some node) :
    node ∈ e.mNodes ∧ node.cfg.type = .pulse := by
  obtain ⟨hfind, htype⟩ := Option.filter_eq_some_iff.mp htarget
  exact ⟨List.mem_of_find?_eq_some hfind, by simpa using htype⟩

theorem pulseHolds_concat {node : NodeState} {durationMs : Int} {log : List Write}
    {duration : Option Write} {trigger : Write} :
    PulseHolds node durationMs log (duration.toList ++ [trigger]) ↔
      (trigger.ok = true → lastWritten (log ++ duration.toList) node.cfg.durationPath =
        some (toString (durationMs * 1000))) ∧
      (duration ≠ none →
        lastWritten log node.cfg.durationPath ≠ some (toString (durationMs * 1000))) := by
  have hlast : (duration.toList ++ [trigger]).getLast? = some trigger := List.getLast?_concat
  have hempty : duration.toList = [] ↔ duration = none := Option.toList_eq_nil_iff
  constructor
  · intro hlaw
    have hfired := hlaw.fired trigger hlast
    have hrewritten := hlaw.rewritten
    rw [List.dropLast_concat] at hfired hrewritten
    exact ⟨hfired, fun h => hrewritten (fun hnil => h (hempty.mp hnil))⟩
  · rintro ⟨hfired, hrewritten⟩
    constructor
    · intro x hx
      rw [hlast] at hx
      cases hx
      rw [List.dropLast_concat]
      exact hfired
    · rw [List.dropLast_concat]
      exact fun h => hrewritten (fun hnone => h (hempty.mpr hnone))

/-- With the memory right, a call is lawful unless it misfires. -/
theorem pulseHolds_iff {node : NodeState} {durationMs : Int} {w : σ} {log : List Write}
    (hpath : node.cfg.durationPath ≠ "")
    (hheld : lastWritten log node.cfg.durationPath = node.pulseUs.map toString) :
    PulseHolds node durationMs log ((durationWrite fs node (durationMs * 1000) w).toList ++
        [triggerWrite fs node (durationMs * 1000) w]) ↔
      ¬ Misfires fs node (durationMs * 1000) w := by
  have hsame : node.pulseUs.map toString = some (toString (durationMs * 1000)) ↔
      node.pulseUs = some (durationMs * 1000) :=
    Option.map_eq_some_iff.trans
      ⟨fun ⟨us, hold, hrepr⟩ => hold.trans (congrArg some (Int.repr_injective hrepr)),
        fun h => ⟨_, h, rfl⟩⟩
  rw [pulseHolds_concat, lastWritten_duration, hheld]
  unfold Misfires durationWrite triggerWrite pulseDuration
  by_cases hdue : node.pulseUs = some (durationMs * 1000)
  · have hskip : ¬ (node.cfg.durationPath ≠ "" ∧ node.pulseUs ≠ some (durationMs * 1000)) :=
      fun h => h.2 hdue
    rw [if_neg hskip, if_neg hskip]
    constructor
    · intro _ hmisfire
      exact hmisfire.1 hdue
    · intro _
      exact ⟨fun _ => hsame.mpr hdue, fun h => absurd rfl h⟩
  · have hboth : node.cfg.durationPath ≠ "" ∧ node.pulseUs ≠ some (durationMs * 1000) :=
      ⟨hpath, hdue⟩
    rw [if_pos hboth, if_pos hboth, Option.any_some]
    generalize fs.write node.cfg.durationPath (toString (durationMs * 1000)) w = answer
    obtain ⟨result, w'⟩ := answer
    cases result with
    | ok _ =>
        constructor
        · intro _ hmisfire
          cases hmisfire.2.1
        · intro _
          exact ⟨fun _ => rfl, fun _ h => hdue (hsame.mp h)⟩
    | error err =>
        constructor
        · intro hlaw hmisfire
          exact hdue (hsame.mp (hlaw.1 hmisfire.2.2))
        · intro hfine
          exact ⟨fun htrigger => absurd ⟨hdue, rfl, htrigger⟩ hfine,
            fun _ h => hdue (hsame.mp h)⟩

end Kept

/-- Every pulse goes out with its length exactly when no duration fails in front of a
trigger that does not. -/
theorem pulsesFired_iff {σ : Type} (fs : Fs σ) (cfgs : List NodeConfig)
    (calls : List (String × Int)) (w : σ) (hown : OwnDurations cfgs) (hap : TriggersApart cfgs) :
    PulsesFired fs cfgs calls w ↔ NoMisfire fs cfgs calls w := by
  have hkept : ∀ v ∈ pulseRun fs cfgs calls w, Remembers cfgs v.2 :=
    (visits_kept (fun call _ s hs => remembers_pulse hown hap call s hs)
      (remembers_create w)).1
  have hcall : ∀ v ∈ pulseRun fs cfgs calls w, ∀ node, pulseTarget v.2.1 v.1.1 = some node →
      (PulseHolds node v.1.2 v.2.2.2 (pulseWrites fs v.1 v.2) ↔
        ¬ Misfires fs node (v.1.2 * 1000) v.2.2.1) := by
    intro v hv node htarget
    have hs := hkept v hv
    obtain ⟨hnode, htype⟩ := pulseTarget_mem htarget
    have hpath := hown.present node.cfg (hs.built.mem_pulseNodes hnode htype)
    have hwrites := pulseWrites_fired fs v.1.2 v.2.2.1 v.2.2.2 htarget
    rw [hwrites]
    exact pulseHolds_iff hpath (hs.held node hnode htype)
  constructor
  · intro hlaw v hv node htarget
    exact (hcall v hv node htarget).mp (hlaw v hv node htarget)
  · intro hfine v hv node htarget
    exact (hcall v hv node htarget).mpr (hfine v hv node htarget)

/-- A pulse node that nobody refuses, or whose duration is refused. -/
def vibrator : NodeConfig where
  name := "vibrator"
  type := .pulse
  path := "/sys/class/leds/vibrator/activate"
  durationPath := "/sys/class/leds/vibrator/duration"

def refusing (refused : List String) : Fs Unit where
  read := fun _ w => (none, w)
  write := fun path _ w => (if path ∈ refused then .error EACCES else .ok (), w)

theorem ownDurations_vibrator : OwnDurations [vibrator] := by
  constructor
  · decide
  · decide

theorem triggersApart_vibrator : TriggersApart [vibrator] := by
  unfold TriggersApart
  decide

theorem noMisfire_refusing_nil (calls : List (String × Int)) :
    NoMisfire (refusing []) [vibrator] calls () := by
  intro v _ node _ hmisfire
  cases hmisfire.2.1

/-- Two lengths in turn. -/
theorem pulsesFired_vibrator :
    PulsesFired (refusing []) [vibrator] [("vibrator", 30), ("vibrator", 30), ("vibrator", 50)] () :=
  (pulsesFired_iff (refusing []) [vibrator] _ () ownDurations_vibrator
    triggersApart_vibrator).mpr (noMisfire_refusing_nil _)

/-- The vibrator goes off although its duration was refused. -/
theorem pulsesFired_refused :
    OwnDurations [vibrator] ∧
      ¬ PulsesFired (refusing [vibrator.durationPath]) [vibrator] [("vibrator", 30)] () := by
  refine ⟨ownDurations_vibrator, ?_⟩
  intro hlaw
  have hfirst := hlaw _ List.mem_cons_self _ rfl
  have hheld := hfirst.fired ⟨vibrator.path, "1", true⟩ (by decide) rfl
  exact absurd hheld (by decide)

end Engine

end MeizuM5c.Power
