import Mathlib.Logic.Function.Basic
import MeizuM5c.Power.EngineRun

/-!
Nodes with `Release::Capture`. The host is a table of file contents that any
writer may change between two operations; it logs what the engine reads and
writes. A hold of a node is a maximal period in which some request names it,
and `HoldState.value` remembers what the node held when the current hold
began. The law compares that value with what the engine puts back.
-/

namespace MeizuM5c.Power

open Lib

inductive Access where
  | read (path content : String)
  | write (path value : String)
  deriving DecidableEq, Repr

structure Host where
  content : String → String
  log : List Access := []

/-- A file system on which every read and every write succeeds. -/
def hostFs : Fs Host where
  read := fun path w =>
    (some (w.content path), { w with log := w.log ++ [.read path (w.content path)] })
  write := fun path value w =>
    (.ok (), { content := Function.update w.content path value
               log := w.log ++ [.write path value] })

/-- Some request names the node. -/
def Held (requests : OrdMap String Request) (cfg : NodeConfig) : Prop :=
  Engine.tokensFor requests cfg.name ≠ []

instance (requests : OrdMap String Request) (cfg : NodeConfig) :
    Decidable (Held requests cfg) :=
  inferInstanceAs (Decidable (Engine.tokensFor requests cfg.name ≠ []))

/-- The engine and its host, with the trimmed content that the node had when
its current hold began. -/
structure HoldState where
  sys : Engine × Host
  value : Option String := none

/-- The operation visits node `i` in the state `node` on the host `w`, with
the requests `live` left. -/
def Visits (i : Nat) (op : EngineOp) (s : Engine × Host) (live : OrdMap String Request)
    (node : NodeState) (w : Host) : Prop :=
  ∃ e now, op.calls s.1 = some (e, now) ∧ live = Engine.dropExpired e.mRequests now ∧
    (Engine.applyVisits hostFs e now s.2)[i]? = some (node, w)

/-- What the host has logged once the loop has passed the node. -/
def passLog (live : OrdMap String Request) (node : NodeState) (w : Host) : List Access :=
  (Engine.applyNode hostFs live node w).2.log

def holdTarget (cfg : NodeConfig) (live : OrdMap String Request) : String :=
  Engine.valueTarget cfg (Engine.tokensFor live cfg.name)

def holdStarts (cfg : NodeConfig) (s t : Engine × Host) : Prop :=
  ¬ Held s.1.mRequests cfg ∧ Held t.1.mRequests cfg

def holdEnds (cfg : NodeConfig) (s t : Engine × Host) : Prop :=
  Held s.1.mRequests cfg ∧ ¬ Held t.1.mRequests cfg

instance (cfg : NodeConfig) (s t : Engine × Host) : Decidable (holdStarts cfg s t) :=
  inferInstanceAs (Decidable (_ ∧ _))

instance (cfg : NodeConfig) (s t : Engine × Host) : Decidable (holdEnds cfg s t) :=
  inferInstanceAs (Decidable (_ ∧ _))

/-- A hold begins by reading the node, and writes its target unless the node
has it; it ends with the value that the node had at its beginning. -/
def HoldLaw (cfg : NodeConfig) (i : Nat) (op : EngineOp) (s : HoldState) : Prop :=
  (holdStarts cfg s.sys (op.exec hostFs s.sys) →
    ∃ live node w, Visits i op s.sys live node w ∧
      (passLog live node w = w.log ++ [.read cfg.path (w.content cfg.path),
          .write cfg.path (holdTarget cfg live)] ∨
        (passLog live node w = w.log ++ [.read cfg.path (w.content cfg.path)] ∧
          trim (w.content cfg.path) = holdTarget cfg live))) ∧
  (holdEnds cfg s.sys (op.exec hostFs s.sys) →
    ∃ live node w value, Visits i op s.sys live node w ∧ s.value = some value ∧
      (passLog live node w = w.log ++ [.write cfg.path value] ∨
        (passLog live node w = w.log ∧ trim (w.content cfg.path) = value)))

/-- A hold begins on a node without a captured value, and what was written
last is not its target unless the node has it; it ends on a node whose last
written value is not the captured one unless the node has it. -/
def HoldCondition (cfg : NodeConfig) (i : Nat) (op : EngineOp) (s : HoldState) : Prop :=
  ∀ live node w, Visits i op s.sys live node w →
    (holdStarts cfg s.sys (op.exec hostFs s.sys) → node.captured = none ∧
      (node.written ≠ some (holdTarget cfg live) ∨
        trim (w.content cfg.path) = holdTarget cfg live)) ∧
    (holdEnds cfg s.sys (op.exec hostFs s.sys) →
      node.written ≠ node.captured ∨ some (trim (w.content cfg.path)) = node.captured)

/-- An operation that begins a hold sets the value to what the node has when
the loop reaches it. -/
def holdValue (cfg : NodeConfig) (i : Nat) (op : EngineOp) (s : HoldState) : Option String :=
  if holdStarts cfg s.sys (op.exec hostFs s.sys) then do
    let (e, now) ← op.calls s.sys.1
    let (_, w) ← (Engine.applyVisits hostFs e now s.sys.2)[i]?
    return trim (w.content cfg.path)
  else s.value

/-- A step of a run: an operation, or other writers that change the host. -/
def HoldStep (cfg : NodeConfig) (i : Nat) (s : HoldState) : EngineLabel → HoldState → Prop
  | .op op, t => t = ⟨op.exec hostFs s.sys, holdValue cfg i op s⟩
  | .env, t => t.sys.1 = s.sys.1 ∧ t.value = s.value

/-- A run all of whose operations so far met the condition. -/
def HoldStepWhen (cfg : NodeConfig) (i : Nat) (s : HoldState) (label : EngineLabel)
    (t : HoldState) : Prop :=
  HoldStep cfg i s label t ∧ ∀ op, label = .op op → HoldCondition cfg i op s

/-- Node `i` of the created engine is the capture node `cfg`. -/
structure HoldStart (cfgs : List NodeConfig) (cfg : NodeConfig) (i : Nat) (s : HoldState) :
    Prop where
  created : s.sys.1 = Engine.create cfgs
  node : (Engine.create cfgs).mNodes[i]? = some { cfg := cfg }

section OnePass

variable (live : OrdMap String Request) (node : NodeState) (w : Host)

/-- A pass with a target leaves the captured value alone, and writes the
target unless it was the last value written. -/
theorem applyNode_of_target {target : String} {mid : NodeState} {after : Host}
    (htype : node.cfg.type = .value)
    (htarget : Engine.targetLocked hostFs live node w = ((some target, mid), after)) :
    (Engine.applyNode hostFs live node w).1.1.captured = mid.captured ∧
      passLog live node w = after.log ++
        (if mid.written = some target then [] else [.write mid.cfg.path target]) := by
  have hpulse : node.cfg.type ≠ .pulse := by
    rw [htype]
    decide
  unfold passLog
  simp only [Engine.applyNode, if_neg hpulse, htarget]
  by_cases hwritten : mid.written = some target
  · rw [if_pos hwritten, if_pos hwritten]
    exact ⟨rfl, (List.append_nil _).symm⟩
  · rw [if_neg hwritten, if_neg hwritten]
    exact ⟨rfl, rfl⟩

/-- The target within a hold, behind the capture. -/
theorem targetLocked_held (htype : node.cfg.type = .value) (hheld : Held live node.cfg)
    {mid : NodeState} {after : Host}
    (hcapture : Engine.captureLocked hostFs node w = (some mid, after)) :
    Engine.targetLocked hostFs live node w =
      ((some (Engine.valueTarget mid.cfg (Engine.tokensFor live node.cfg.name)), mid), after) := by
  have hempty : (Engine.tokensFor live node.cfg.name).isEmpty = false := by
    simpa [Held] using hheld
  simp only [Engine.targetLocked, htype, hempty, hcapture]
  rfl

/-- The first pass of a hold reads the node and captures what it read. -/
theorem applyNode_first_pass (htype : node.cfg.type = .value)
    (hrelease : node.cfg.release = .capture) (hheld : Held live node.cfg)
    (hcaptured : node.captured = none) :
    (Engine.applyNode hostFs live node w).1.1.captured =
        some (trim (w.content node.cfg.path)) ∧
      passLog live node w = w.log ++ .read node.cfg.path (w.content node.cfg.path) ::
        (if node.written = some (holdTarget node.cfg live) then []
          else [.write node.cfg.path (holdTarget node.cfg live)]) := by
  have hcapture : Engine.captureLocked hostFs node w =
      (some { node with captured := some (trim (w.content node.cfg.path)) },
        { w with log := w.log ++ [.read node.cfg.path (w.content node.cfg.path)] }) := by
    rw [Engine.captureLocked, if_pos ⟨hrelease, hcaptured⟩]
    rfl
  obtain ⟨hafter, hlog⟩ := applyNode_of_target live node w htype
    (targetLocked_held live node w htype hheld hcapture)
  refine ⟨hafter, ?_⟩
  rw [hlog, List.append_assoc]
  rfl

/-- A later pass of a hold keeps the captured value and reads nothing. -/
theorem applyNode_later_pass (htype : node.cfg.type = .value)
    (hheld : Held live node.cfg) {value : String} (hcaptured : node.captured = some value) :
    (Engine.applyNode hostFs live node w).1.1.captured = some value ∧
      passLog live node w = w.log ++
        (if node.written = some (holdTarget node.cfg live) then []
          else [.write node.cfg.path (holdTarget node.cfg live)]) := by
  have hcapture : Engine.captureLocked hostFs node w = (some node, w) := by
    rw [Engine.captureLocked, if_neg]
    rintro ⟨_, hnone⟩
    rw [hcaptured] at hnone
    cases hnone
  obtain ⟨hafter, hlog⟩ := applyNode_of_target live node w htype
    (targetLocked_held live node w htype hheld hcapture)
  exact ⟨hafter.trans hcaptured, hlog⟩

/-- The pass after a hold writes the captured value unless it was the last
value written. -/
theorem passLog_release (htype : node.cfg.type = .value)
    (hrelease : node.cfg.release = .capture) (hheld : ¬ Held live node.cfg)
    {value : String} (hcaptured : node.captured = some value) :
    passLog live node w = w.log ++
      (if node.written = some value then [] else [.write node.cfg.path value]) := by
  have hempty : (Engine.tokensFor live node.cfg.name).isEmpty = true := by
    simpa [Held] using hheld
  have htarget : Engine.targetLocked hostFs live node w = (Engine.releasedValue node, w) := by
    simp only [Engine.targetLocked, htype, hempty]
    rfl
  rw [Engine.releasedValue, hrelease] at htarget
  simp only [hcaptured] at htarget
  by_cases hwritten : node.written = some value
  · -- put back already: there is no target
    rw [if_pos hwritten] at htarget
    rw [if_pos hwritten, List.append_nil, passLog, Engine.applyNode, htarget, htype]
    rfl
  · rw [if_neg hwritten] at htarget
    exact (applyNode_of_target live node w htype htarget).2

end OnePass

/-- The invariant of a run that met the condition so far: within a hold, the
captured value is the one the node had when the hold began. -/
def HoldInvariant (cfg : NodeConfig) (i : Nat) (s : HoldState) : Prop :=
  ∃ node, s.sys.1.mNodes[i]? = some node ∧ node.cfg = cfg ∧
    (Held s.sys.1.mRequests cfg → s.value ≠ none ∧ node.captured = s.value)

theorem Engine.pulseFirst_getElem? {σ : Type} (fs : Fs σ) (name : String) (durationMs : Int)
    (nodes : List NodeState) (w : σ) {i : Nat} {node : NodeState}
    (hnode : nodes[i]? = some node) (htype : node.cfg.type ≠ .pulse) :
    (pulseFirst fs name durationMs nodes w).1[i]? = some node := by
  induction nodes generalizing i w with
  | nil => cases hnode
  | cons first rest ih =>
      unfold pulseFirst
      cases i with
      | zero =>
          cases hnode
          split_ifs <;> rfl
      | succ i =>
          split_ifs
          · exact hnode
          · exact hnode
          · exact ih w hnode

/-- An operation visits every node, unless it is a pulse or does nothing. -/
theorem visits_or_same {cfg : NodeConfig} (htype : cfg.type = .value) {i : Nat}
    (op : EngineOp) (s : Engine × Host) {node : NodeState}
    (hnode : s.1.mNodes[i]? = some node) (hcfg : node.cfg = cfg) :
    ((op.exec hostFs s).1.mRequests = s.1.mRequests ∧
        (op.exec hostFs s).1.mNodes[i]? = some node ∧
        ∀ live visited w, ¬ Visits i op s live visited w) ∨
      ∃ live visited w, Visits i op s live visited w ∧ visited.cfg = cfg ∧
        visited.captured = node.captured ∧ (op.exec hostFs s).1.mRequests = live ∧
        (op.exec hostFs s).1.mNodes[i]? =
          some (Engine.applyNode hostFs live visited w).1.1 := by
  obtain ⟨e, host⟩ := s
  cases hcalls : op.calls e with
  | none =>
      left
      have hno : ∀ live visited w, ¬ Visits i op (e, host) live visited w := by
        rintro live visited w ⟨e', now, hcall, _⟩
        simp [hcalls] at hcall
      rcases EngineOp.exec_of_not_calls hostFs host hcalls with h | ⟨name, durationMs, h⟩
      · rw [h]
        exact ⟨rfl, hnode, hno⟩
      · rw [h]
        refine ⟨rfl, ?_, hno⟩
        exact Engine.pulseFirst_getElem? hostFs name durationMs e.mNodes host hnode
          (by rw [hcfg, htype]; decide)
  | some call =>
      right
      obtain ⟨e', now⟩ := call
      obtain ⟨visited, hvisited, hvcfg, hvcaptured⟩ :
          ∃ visited, e'.mNodes[i]? = some visited ∧ visited.cfg = node.cfg ∧
            visited.captured = node.captured := by
        rcases EngineOp.calls_mNodes hcalls with h | h
        · exact ⟨node, by rw [h]; exact hnode, rfl, rfl⟩
        · exact ⟨{ node with written := none }, by simp [h, hnode], rfl, rfl⟩
      have hfst : ((Engine.applyVisits hostFs e' now host)[i]?).map Prod.fst = some visited := by
        rw [← List.getElem?_map, Engine.applyVisits, visits_map_fst, hvisited]
      obtain ⟨⟨visited', w⟩, hvisit, rfl⟩ := Option.map_eq_some_iff.mp hfst
      refine ⟨_, visited', w, ⟨e', now, hcalls, rfl, hvisit⟩, hvcfg.trans hcfg, hvcaptured, ?_, ?_⟩
      · rw [EngineOp.exec_of_calls hostFs host hcalls]
        rfl
      · rw [EngineOp.exec_of_calls hostFs host hcalls]
        simp [Engine.applyLocked_mNodes, hvisit]

theorem Visits.unique {i : Nat} {op : EngineOp} {s : Engine × Host}
    {live live' : OrdMap String Request} {node node' : NodeState} {w w' : Host}
    (h : Visits i op s live node w) (h' : Visits i op s live' node' w') :
    live = live' ∧ node = node' ∧ w = w' := by
  obtain ⟨e, now, hcalls, rfl, hvisit⟩ := h
  obtain ⟨e', now', hcalls', rfl, hvisit'⟩ := h'
  rw [hcalls] at hcalls'
  cases hcalls'
  rw [hvisit] at hvisit'
  cases hvisit'
  exact ⟨rfl, rfl, rfl⟩

theorem Visits.holdValue {cfg : NodeConfig} {i : Nat} {op : EngineOp} {s : HoldState}
    {live : OrdMap String Request} {node : NodeState} {w : Host}
    (h : Visits i op s.sys live node w)
    (hstart : holdStarts cfg s.sys (op.exec hostFs s.sys)) :
    holdValue cfg i op s = some (trim (w.content cfg.path)) := by
  obtain ⟨e, now, hcalls, rfl, hvisit⟩ := h
  unfold Power.holdValue
  rw [if_pos hstart, hcalls]
  simp [hvisit]

private theorem read_write_iff {log : List Access} {path content target : String}
    {written : Option String} :
    (log ++ Access.read path content ::
          (if written = some target then [] else [Access.write path target]) =
          log ++ [Access.read path content, Access.write path target] ∨
        (log ++ Access.read path content ::
            (if written = some target then [] else [Access.write path target]) =
          log ++ [Access.read path content] ∧ trim content = target)) ↔
      written ≠ some target ∨ trim content = target := by
  split_ifs with h <;> simp [h]

private theorem write_back_iff {log : List Access} {path content value : String}
    {written : Option String} :
    (log ++ (if written = some value then [] else [Access.write path value]) =
          log ++ [.write path value] ∨
        (log ++ (if written = some value then [] else [Access.write path value]) = log ∧
          trim content = value)) ↔
      written ≠ some value ∨ trim content = value := by
  split_ifs with h <;> simp [h]

/-- In a state of the invariant the condition is exactly what an operation
needs to obey the law. -/
theorem holdLaw_iff_of_invariant {cfg : NodeConfig} (htype : cfg.type = .value)
    (hrelease : cfg.release = .capture) {i : Nat} (op : EngineOp) (s : HoldState)
    (hinv : HoldInvariant cfg i s) : HoldLaw cfg i op s ↔ HoldCondition cfg i op s := by
  obtain ⟨node, hnode, hcfg, hheld⟩ := hinv
  unfold HoldLaw HoldCondition holdStarts holdEnds
  rcases visits_or_same htype op s.sys hnode hcfg with
    ⟨hrequests, _, hno⟩ | ⟨live, visited, w, hvisits, rfl, hcaptured, hrequests, _⟩
  · -- neither a beginning nor an end
    rw [hrequests]
    constructor
    · intro _ live visited w hvisits
      exact absurd hvisits (hno live visited w)
    · intro _
      exact ⟨fun h => absurd h.2 h.1, fun h => absurd h.1 h.2⟩
  · rw [hrequests]
    have hunique : ∀ {P : OrdMap String Request → NodeState → Host → Prop},
        (∃ live node w, Visits i op s.sys live node w ∧ P live node w) ↔ P live visited w := by
      intro P
      constructor
      · rintro ⟨live', node', w', hvisits', h⟩
        obtain ⟨rfl, rfl, rfl⟩ := hvisits.unique hvisits'
        exact h
      · exact fun h => ⟨live, visited, w, hvisits, h⟩
    have hunique' : ∀ {P : OrdMap String Request → NodeState → Host → Prop},
        (∀ live node w, Visits i op s.sys live node w → P live node w) ↔ P live visited w := by
      intro P
      constructor
      · exact fun h => h live visited w hvisits
      · intro h live' node' w' hvisits'
        obtain ⟨rfl, rfl, rfl⟩ := hvisits.unique hvisits'
        exact h
    simp only [hunique', exists_and_left, hunique]
    refine and_congr ?_ ?_
    · refine imp_congr_right ?_
      rintro ⟨_, hlive⟩
      cases hvc : visited.captured with
      | none =>
          obtain ⟨_, hlog⟩ := applyNode_first_pass live visited w htype hrelease hlive hvc
          rw [hlog, read_write_iff]
          simp
      | some value =>
          -- no read: the captured value of an earlier hold is still there
          obtain ⟨_, hlog⟩ := applyNode_later_pass live visited w htype hlive hvc
          rw [hlog]
          split_ifs <;> simp
    · refine imp_congr_right ?_
      rintro ⟨hbefore, hlive⟩
      obtain ⟨hvalue, hnodec⟩ := hheld hbefore
      obtain ⟨value, hvalue⟩ := Option.ne_none_iff_exists'.mp hvalue
      have hvc : visited.captured = some value := by rw [hcaptured, hnodec, hvalue]
      have hlog := passLog_release live visited w htype hrelease hlive hvc
      rw [hvc, hvalue]
      simp only [Option.some.injEq, exists_eq_left', hlog, write_back_iff]

/-- An operation that meets the condition keeps the invariant. -/
theorem holdInvariant_op {cfg : NodeConfig} (htype : cfg.type = .value)
    (hrelease : cfg.release = .capture) {i : Nat} {op : EngineOp} {s t : HoldState}
    (hinv : HoldInvariant cfg i s) (hstep : HoldStep cfg i s (.op op) t)
    (hcond : HoldCondition cfg i op s) : HoldInvariant cfg i t := by
  obtain ⟨node, hnode, hcfg, hheld⟩ := hinv
  have hkeeps : ¬ holdStarts cfg s.sys (op.exec hostFs s.sys) → t.value = s.value := by
    intro h
    rw [hstep, holdValue, if_neg h]
  have hsys : t.sys = op.exec hostFs s.sys := by rw [hstep]
  unfold HoldInvariant
  rw [hsys]
  rcases visits_or_same htype op s.sys hnode hcfg with
    ⟨hrequests, hnode', _⟩ | ⟨live, visited, w, hvisits, rfl, hcaptured, hrequests, hnode'⟩
  · refine ⟨node, hnode', hcfg, ?_⟩
    rw [hrequests, hkeeps (fun h => by unfold holdStarts at h; rw [hrequests] at h; exact h.1 h.2)]
    exact hheld
  · refine ⟨_, hnode', ?_, ?_⟩
    · exact Engine.applyNode_cfg hostFs live visited w
    · intro hlive
      rw [hrequests] at hlive
      by_cases hbefore : Held s.sys.1.mRequests visited.cfg
      · obtain ⟨hvalue, hnodec⟩ := hheld hbefore
        rw [hkeeps (fun h => h.1 hbefore)]
        obtain ⟨value, hvalue'⟩ := Option.ne_none_iff_exists'.mp hvalue
        have hvc : visited.captured = some value := by rw [hcaptured, hnodec, hvalue']
        refine ⟨hvalue, ?_⟩
        rw [hvalue', (applyNode_later_pass live visited w htype hlive hvc).1]
      · have hstart : holdStarts visited.cfg s.sys (op.exec hostFs s.sys) :=
          ⟨hbefore, by rw [hrequests]; exact hlive⟩
        have hvc := ((hcond live visited w hvisits).1 hstart).1
        have hvalue : t.value = some (trim (w.content visited.cfg.path)) := by
          rw [hstep]
          exact hvisits.holdValue hstart
        rw [hvalue]
        exact ⟨by simp, (applyNode_first_pass live visited w htype hrelease hlive hvc).1⟩

/-- In every run whose operations met the condition so far, the next
operation obeys the law if and only if it meets the condition too. -/
theorem capture_hold_law_iff (cfgs : List NodeConfig) (cfg : NodeConfig) (i : Nat)
    (s : HoldState) (hcfg : cfg.type = .value ∧ cfg.release = .capture)
    (hreach : Reachable (HoldStart cfgs cfg i) (HoldStepWhen cfg i) s) (op : EngineOp) :
    HoldLaw cfg i op s ↔ HoldCondition cfg i op s := by
  refine holdLaw_iff_of_invariant hcfg.1 hcfg.2 op s ?_
  refine hreach.invariant (P := HoldInvariant cfg i) ?_ ?_
  · intro s hs
    refine ⟨{ cfg := cfg }, by rw [hs.created]; exact hs.node, rfl, ?_⟩
    intro hheld
    rw [hs.created] at hheld
    exact absurd rfl hheld
  · rintro s label t hinv ⟨hstep, hcond⟩
    cases label with
    | op op => exact holdInvariant_op hcfg.1 hcfg.2 hinv hstep (hcond op rfl)
    | env =>
        unfold HoldInvariant
        rw [hstep.1, hstep.2]
        exact hinv

/-- The switch of the hotplug strategy, as `ParseNode` builds it. -/
def hpsNode : NodeConfig where
  name := "hps"
  path := "/proc/hps/enabled"
  release := .capture

def hpsHold (now : Time) : EngineOp :=
  .setRequest "launch" (OrdMap.empty.insert "hps" "0") (Deadline.atTime 1500000000) false now

def HoldState.exec (op : EngineOp) (s : HoldState) : HoldState :=
  ⟨op.exec hostFs s.sys, holdValue hpsNode 0 op s⟩

def switchedOn : HoldState := ⟨(Engine.create [hpsNode], { content := fun _ => "1\n" }), none⟩

/-- The first hold of a fresh engine meets the condition when it begins and
when it ends, and so the switch is put back. -/
theorem capture_hold_law_first :
    ∃ s, Reachable (HoldStart [hpsNode] hpsNode 0) (HoldStepWhen hpsNode 0) s ∧
      holdEnds hpsNode s.sys ((EngineOp.clearRequest "launch" 1).exec hostFs s.sys) ∧
      HoldCondition hpsNode 0 (.clearRequest "launch" 1) s ∧
      HoldLaw hpsNode 0 (.clearRequest "launch" 1) s := by
  have hbegin : HoldCondition hpsNode 0 (hpsHold 0) switchedOn := by
    rintro live node w ⟨e, now, hcalls, _, hvisit⟩
    have hfresh : ((Engine.applyVisits hostFs e now switchedOn.sys.2)[0]?).map
        (fun v => (v.1.captured, v.1.written)) = some (none, none) := by
      cases hcalls
      decide
    simp only [hvisit, Option.map_some, Option.some.injEq, Prod.mk.injEq] at hfresh
    refine ⟨fun _ => ⟨hfresh.1, Or.inl ?_⟩, fun h => absurd h (by decide)⟩
    simp [hfresh.2]
  have hreach : Reachable (HoldStart [hpsNode] hpsNode 0) (HoldStepWhen hpsNode 0)
      (HoldState.exec (hpsHold 0) switchedOn) :=
    Reachable.step (a := .op (hpsHold 0)) (Reachable.init ⟨rfl, rfl⟩)
      ⟨rfl, fun op hop => by cases hop; exact hbegin⟩
  have hend : HoldCondition hpsNode 0 (.clearRequest "launch" 1)
      (HoldState.exec (hpsHold 0) switchedOn) := by
    rintro live node w ⟨e, now, hcalls, _, hvisit⟩
    have hheld : ((Engine.applyVisits hostFs e now
        (HoldState.exec (hpsHold 0) switchedOn).sys.2)[0]?).map
        (fun v => (v.1.captured, v.1.written)) = some (some "1", some "0") := by
      cases hcalls
      decide
    simp only [hvisit, Option.map_some, Option.some.injEq, Prod.mk.injEq] at hheld
    refine ⟨fun h => absurd h (by decide), fun _ => Or.inl ?_⟩
    rw [hheld.1, hheld.2]
    decide
  exact ⟨_, hreach, by decide, hend,
    (capture_hold_law_iff [hpsNode] hpsNode 0 _ ⟨rfl, rfl⟩ hreach _).mpr hend⟩

/-- The switch reads as on; a hold turns it off and ends. -/
def afterFirstHold : HoldState :=
  HoldState.exec (.clearRequest "launch" 1) (HoldState.exec (hpsHold 0) switchedOn)

/-- A boot script turns the switch off for good, and a second hold begins. -/
def withinSecondHold : HoldState :=
  HoldState.exec (hpsHold 2)
    ⟨(afterFirstHold.sys.1, { content := fun _ => "0\n" }), afterFirstHold.value⟩

/-- Two holds with no pass of the worker between them: the end of the second
one turns the switch on, because the value captured for the first one is
still there. -/
theorem capture_hold_law_stale :
    Reachable (HoldStart [hpsNode] hpsNode 0) (HoldStep hpsNode 0) withinSecondHold ∧
      withinSecondHold.value = some "0" ∧
      ((EngineOp.clearRequest "launch" 3).exec hostFs withinSecondHold.sys).2.log.getLast? =
        some (.write hpsNode.path "1") ∧
      ¬ HoldLaw hpsNode 0 (.clearRequest "launch" 3) withinSecondHold := by
  have hstart : Reachable (HoldStart [hpsNode] hpsNode 0) (HoldStep hpsNode 0) switchedOn :=
    Reachable.init ⟨rfl, rfl⟩
  have hfirst : Reachable (HoldStart [hpsNode] hpsNode 0) (HoldStep hpsNode 0)
      afterFirstHold :=
    Reachable.step (a := .op (.clearRequest "launch" 1))
      (Reachable.step (a := .op (hpsHold 0)) hstart rfl) rfl
  have hgap : Reachable (HoldStart [hpsNode] hpsNode 0) (HoldStep hpsNode 0)
      ⟨(afterFirstHold.sys.1, { content := fun _ => "0\n" }), afterFirstHold.value⟩ :=
    Reachable.step (a := .env) hfirst ⟨rfl, rfl⟩
  refine ⟨Reachable.step (a := .op (hpsHold 2)) hgap rfl, by decide, by decide, ?_⟩
  intro hlaw
  obtain ⟨live, node, w, value, ⟨e, now, hcalls, hlive, hvisit⟩, hvalue, hback⟩ :=
    hlaw.2 (by decide)
  have hpass : ((Engine.applyVisits hostFs e now withinSecondHold.sys.2)[0]?).map
      (fun v => (passLog live v.1 v.2, v.2.log)) =
        some ([.write hpsNode.path "0", .write hpsNode.path "1"],
          [.write hpsNode.path "0"]) := by
    subst hlive
    cases hcalls
    decide
  have hzero : value = "0" := Option.some.inj (hvalue.symm.trans (by decide))
  simp only [hvisit, Option.map_some, Option.some.injEq, Prod.mk.injEq] at hpass
  rw [hpass.1, hpass.2, hzero] at hback
  exact absurd hback (by simp)

end MeizuM5c.Power
