import MeizuM5c.Power.PulseWrites

/-!
The writes of a whole run, in the order in which the file system has seen them. What the
nodes remember of their own writes is checked against this log: each of their attempts is in
it, in their order, and what else is in it are the durations of the pulses.
-/

namespace MeizuM5c.Power

open Lib

namespace Engine

/-- The attempts that a node remembers, as the file system sees them, the oldest first. -/
def history (node : NodeState) : List Write :=
  node.attempts.reverse.map (fun a => ⟨node.cfg.path, a.value, a.ok⟩)

/-- The log of a run has the attempts of every node in their order, and apart from them only
durations of pulses. -/
structure Recorded (nodes : List NodeState) (log : List Write) : Prop where
  ordered : ∀ node ∈ nodes, (history node).Sublist log
  complete : ∃ durations : List Write,
    (∀ x ∈ durations, ∃ node ∈ nodes, x.path = node.cfg.durationPath) ∧
      log.Perm (durations ++ nodes.flatMap history)

/-- No other node writes to the path of this one. -/
def Unshared (nodes : List NodeState) (node : NodeState) : Prop :=
  nodes.countP (fun other => other.cfg.path = node.cfg.path) = 1 ∧
    ∀ other ∈ nodes, other.cfg.durationPath ≠ node.cfg.path

/-- What is cached for a path is what was last written to it, and this write succeeded. -/
def CacheLogged (nodes : List NodeState) (log : List Write) : Prop :=
  ∀ node ∈ nodes, Unshared nodes node → ∀ v, node.written = some v →
    (log.filter (fun x => x.path = node.cfg.path)).getLast? = some ⟨node.cfg.path, v, true⟩

section Recorded

variable {before after nodes : List NodeState} {node node' : NodeState} {log : List Write}

theorem history_path {x : Write} (h : x ∈ history node) : x.path = node.cfg.path := by
  obtain ⟨a, -, rfl⟩ := List.mem_map.mp h
  rfl

/-- A node is touched: it may write a duration, and then to its own path. -/
theorem Recorded.touch (h : Recorded (before ++ node :: after) log)
    (hcfg : node'.cfg = node.cfg) {durations own : List Write}
    (hdurations : ∀ x ∈ durations, x.path = node.cfg.durationPath)
    (hown : history node' = history node ++ own) :
    Recorded (before ++ node' :: after) (log ++ (durations ++ own)) := by
  have hnode : (history node).Sublist log := h.ordered node (by simp)
  obtain ⟨earlier, hearlier, hperm⟩ := h.complete
  constructor
  · intro other hother
    rcases List.mem_append.mp hother with hbefore | hafter
    · exact (h.ordered other (by simp [hbefore])).trans (List.sublist_append_left _ _)
    · rcases List.mem_cons.mp hafter with rfl | hrest
      · rw [hown]
        exact hnode.append (List.sublist_append_right _ _)
      · exact (h.ordered other (by simp [hrest])).trans (List.sublist_append_left _ _)
  · refine ⟨earlier ++ durations, ?_, ?_⟩
    · intro x hx
      rcases List.mem_append.mp hx with hx | hx
      · obtain ⟨other, hother, hpath⟩ := hearlier x hx
        rcases List.mem_append.mp hother with hbefore | hafter
        · exact ⟨other, by simp [hbefore], hpath⟩
        · rcases List.mem_cons.mp hafter with rfl | hrest
          · exact ⟨node', by simp, by rw [hpath, hcfg]⟩
          · exact ⟨other, by simp [hrest], hpath⟩
      · exact ⟨node', by simp, by rw [hdurations x hx, hcfg]⟩
    · apply List.perm_iff_count.mpr
      intro x
      have hcount := hperm.count_eq x
      simp only [List.count_append, List.flatMap_append, List.flatMap_cons, hown] at hcount ⊢
      omega

/-- A step that writes nothing. -/
theorem Recorded.same (h : Recorded nodes log) {nodes' : List NodeState}
    (hcfgs : nodes'.map NodeState.cfg = nodes.map NodeState.cfg)
    (hhistory : nodes'.map history = nodes.map history) : Recorded nodes' log := by
  constructor
  · intro node hnode
    have hmem : history node ∈ nodes.map history := hhistory ▸ List.mem_map_of_mem hnode
    obtain ⟨old, hold, hsame⟩ := List.mem_map.mp hmem
    rw [← hsame]
    exact h.ordered old hold
  · obtain ⟨durations, hdurations, hperm⟩ := h.complete
    refine ⟨durations, ?_, ?_⟩
    · intro x hx
      obtain ⟨old, hold, hpath⟩ := hdurations x hx
      have hmem : old.cfg ∈ nodes'.map NodeState.cfg := hcfgs ▸ List.mem_map_of_mem hold
      obtain ⟨node, hnode, hsame⟩ := List.mem_map.mp hmem
      exact ⟨node, hnode, by rw [hpath, hsame]⟩
    · rw [List.flatMap_def, hhistory, ← List.flatMap_def]
      exact hperm

/-- The log of a path that no other node writes to is the history of its node. -/
theorem Recorded.filter_eq (h : Recorded nodes log) (hnode : node ∈ nodes)
    (hunshared : Unshared nodes node) :
    log.filter (fun x => x.path = node.cfg.path) = history node := by
  obtain ⟨honly, hdurationPaths⟩ := hunshared
  obtain ⟨durations, hdurations, hperm⟩ := h.complete
  have howned : (history node).filter (fun x => x.path = node.cfg.path) = history node :=
    List.filter_eq_self.mpr (fun x hx => by simpa using history_path hx)
  have hsublist : (history node).Sublist (log.filter (fun x => x.path = node.cfg.path)) := by
    have hfilter := (h.ordered node hnode).filter (fun x => decide (x.path = node.cfg.path))
    rw [howned] at hfilter
    exact hfilter
  have hforeign : durations.filter (fun x => x.path = node.cfg.path) = [] := by
    apply List.filter_eq_nil_iff.mpr
    intro x hx hpath
    obtain ⟨other, hother, hother'⟩ := hdurations x hx
    exact hdurationPaths other hother (by rw [← hother']; simpa using hpath)
  obtain ⟨front, back, rfl⟩ := List.append_of_mem hnode
  rw [List.countP_append, List.countP_cons_of_pos (by simp)] at honly
  have hothers : ∀ l : List NodeState, l.countP (fun o => o.cfg.path = node.cfg.path) = 0 →
      (l.flatMap history).filter (fun x => x.path = node.cfg.path) = [] := by
    intro l hl
    apply List.filter_eq_nil_iff.mpr
    intro x hx hpath
    obtain ⟨other, hother, hin⟩ := List.mem_flatMap.mp hx
    rw [decide_eq_true_eq, history_path hin] at hpath
    exact List.countP_eq_zero.mp hl other hother (by simpa using hpath)
  have hlength := (hperm.filter (fun x => decide (x.path = node.cfg.path))).length_eq
  rw [List.filter_append, hforeign, List.flatMap_append, List.flatMap_cons, List.filter_append,
    List.filter_append, hothers front (by omega), hothers back (by omega), howned] at hlength
  exact (hsublist.eq_of_length (by simpa using hlength.symm)).symm

end Recorded

section Touches

variable {σ : Type} (fs : Fs σ)

theorem history_of_attempts {node node' : NodeState} (hcfg : node'.cfg = node.cfg)
    (hattempts : node'.attempts = node.attempts) : history node' = history node := by
  rw [history, hcfg, hattempts, history]

/-- A write attempt is remembered with the file system's answer. -/
theorem writeLocked_history (node : NodeState) (value : String) (w : σ) :
    history (writeLocked fs node value w).1.2 =
      history node ++ [⟨node.cfg.path, value, (writeLocked fs node value w).1.1⟩] := by
  obtain ⟨hcfg, -, -, hattempts, -, -⟩ := writeLocked_spec fs node value w
  rw [history, hcfg, hattempts, List.reverse_cons, List.map_append, history]
  rfl

theorem applyNode_history (requests : OrdMap String Request) (node : NodeState) (w : σ) :
    history (applyNode fs requests node w).1.1 =
      history node ++ (issued fs requests node w).toList := by
  by_cases htype : node.cfg.type = .pulse
  · simp [applyNode, issued, htype]
  · obtain ⟨hcfg, hattempts, -, -⟩ := targetLocked_spec fs requests node w
    unfold applyNode issued
    rw [if_neg htype, if_neg htype]
    cases htarget : targetLocked fs requests node w with
    | mk result w' =>
        obtain ⟨target, mid⟩ := result
        rw [htarget] at hcfg hattempts
        have hmid : history mid = history node := history_of_attempts hcfg hattempts
        cases target with
        | none => simp [hmid]
        | some t =>
            simp only
            split_ifs
            · simp [hmid]
            · rw [writeLocked_history, hmid]
              rfl

theorem pulseNode_history (node : NodeState) (durationMs : Int) (w : σ) :
    history (pulseNode fs node durationMs w).1 =
      history node ++ [triggerWrite fs node (durationMs * 1000) w] := by
  obtain ⟨hcfg, -, -, hattempts, -⟩ := pulseDuration_spec fs node (durationMs * 1000) w
  rw [pulseNode, writeLocked_history, writeLocked_ok, history_of_attempts hcfg hattempts, hcfg,
    triggerWrite]

/-- The loop of `applyLocked`. -/
theorem threadMap_recorded (requests : OrdMap String Request) (before nodes : List NodeState)
    {w : σ} {log : List Write} (h : Recorded (before ++ nodes) log) :
    Recorded (before ++ (threadMap (applyNode fs requests) nodes w).1.map Prod.fst)
      (log ++ (visits (applyNode fs requests) nodes w).filterMap
        (fun v => issued fs requests v.1 v.2)) := by
  induction nodes generalizing before w log with
  | nil => simpa [threadMap, visits] using h
  | cons node rest ih =>
      have hnone : ∀ x ∈ ([] : List Write), x.path = node.cfg.durationPath := by simp
      have htouch := h.touch (applyNode_cfg fs requests node w) hnone
        (applyNode_history fs requests node w)
      rw [List.append_cons] at htouch
      have hrest := ih _ htouch (w := (applyNode fs requests node w).2)
      rw [visits, List.filterMap_cons]
      cases hissued : issued fs requests node w with
      | none => simpa [threadMap, hissued] using hrest
      | some x => simpa [threadMap, hissued] using hrest

/-- The loop of `findLocked` and what `pulse` does at the node that it finds. -/
theorem pulseFirst_recorded (name : String) (durationMs : Int) (nodes : List NodeState) (w : σ)
    (log : List Write) : ∃ writes,
      pulseFirst fs.traced name durationMs nodes (w, log) =
        ((pulseFirst fs name durationMs nodes w).1, (pulseFirst fs name durationMs nodes w).2,
          log ++ writes) ∧
      ∀ before, Recorded (before ++ nodes) log →
        Recorded (before ++ (pulseFirst fs name durationMs nodes w).1) (log ++ writes) := by
  induction nodes with
  | nil => exact ⟨[], by simp [pulseFirst], by simp [pulseFirst]⟩
  | cons node rest ih =>
      unfold pulseFirst
      by_cases hname : node.cfg.name = name
      · rw [if_pos hname, if_pos hname]
        by_cases htype : node.cfg.type = .pulse
        · rw [if_pos htype, if_pos htype, pulseNode_traced]
          refine ⟨_, rfl, ?_⟩
          intro before h
          apply h.touch (pulseNode_cfg fs node durationMs w) _
            (pulseNode_history fs node durationMs w)
          intro x hx
          unfold durationWrite at hx
          split_ifs at hx
          · rw [List.mem_singleton.mp hx]
          · cases hx
        · rw [if_neg htype, if_neg htype]
          exact ⟨[], by simp, by simp⟩
      · rw [if_neg hname, if_neg hname]
        obtain ⟨writes, hrun, hrecorded⟩ := ih
        rw [hrun]
        refine ⟨writes, rfl, ?_⟩
        intro before h
        have hrest := hrecorded (before ++ [node]) (by simpa using h)
        simpa using hrest

end Touches

end Engine

section Runs

open Engine

variable {σ : Type} {fs : Fs σ}

/-- Every operation runs under the log as it does without it. -/
theorem EngineOp.exec_recorded (op : EngineOp) (fs : Fs σ) (e : Engine) (w : σ) (log : List Write) :
    ∃ writes, op.exec fs.traced (e, w, log) =
        ((op.exec fs (e, w)).1, (op.exec fs (e, w)).2, log ++ writes) ∧
      (Recorded e.mNodes log → Recorded (op.exec fs (e, w)).1.mNodes (log ++ writes)) := by
  cases hcalls : op.calls e with
  | some call =>
      obtain ⟨e', now⟩ := call
      have hloop := threadMap_logged (applyNode_traced fs (dropExpired e'.mRequests now))
        e'.mNodes w log
      rw [exec_of_calls fs w hcalls, exec_of_calls fs.traced (w, log) hcalls]
      simp only [applyLocked, hloop]
      refine ⟨_, rfl, ?_⟩
      intro h
      apply threadMap_recorded fs _ []
      rcases calls_mNodes hcalls with hsame | hreset
      · rw [hsame]
        exact h
      · rw [hreset]
        exact h.same (by simp) (by simp [history])
  | none =>
      cases op with
      | clearRequest source now =>
          have hfound : e.mRequests.find? source = none := by
            by_contra hfound
            rw [EngineOp.calls, if_neg hfound] at hcalls
            cases hcalls
          simp only [exec, Engine.clearRequest, if_pos hfound]
          exact ⟨[], by simp, by simp⟩
      | clearAll now =>
          have hempty : e.mRequests.isEmpty := by
            by_contra hempty
            rw [EngineOp.calls, if_neg hempty] at hcalls
            cases hcalls
          simp only [exec, Engine.clearAll, if_pos hempty]
          exact ⟨[], by simp, by simp⟩
      | pulse name durationMs =>
          obtain ⟨writes, hrun, hrecorded⟩ :=
            pulseFirst_recorded fs name durationMs e.mNodes w log
          simp only [exec, Engine.pulse, hrun]
          exact ⟨writes, rfl, hrecorded []⟩
      | reset now => cases hcalls
      | setRequest source values untilTime extend now => cases hcalls
      | apply now => cases hcalls

/-- A run under the log. Whatever else happens to the files does not go through
`Fs::write`. -/
def LoggedStep (fs : Fs σ) (s : Engine × σ × List Write) :
    EngineLabel → Engine × σ × List Write → Prop
  | .op op, t => t = op.exec fs.traced s
  | .env, t => t.1 = s.1 ∧ t.2.2 = s.2.2

def LoggedStart (cfgs : List NodeConfig) (s : Engine × σ × List Write) : Prop :=
  s.1 = Engine.create cfgs ∧ s.2.2 = []

/-- In every run the nodes remember what the file system has seen, and what is cached for a
path of its own is the last thing written to it. -/
structure LogLaw (fs : Fs σ) (cfgs : List NodeConfig) (s : Engine × σ) : Prop where
  runs : ∃ log, Reachable (LoggedStart cfgs) (LoggedStep fs) (s.1, s.2, log)
  recorded : ∀ log, Reachable (LoggedStart cfgs) (LoggedStep fs) (s.1, s.2, log) →
    Recorded s.1.mNodes log
  cached : ∀ log, Reachable (LoggedStart cfgs) (LoggedStep fs) (s.1, s.2, log) →
    CacheLogged s.1.mNodes log

variable {cfgs : List NodeConfig}

/-- Every run has a log. -/
theorem exists_log {s : Engine × σ} (h : Reachable (EngineStart cfgs) (EngineStep fs) s) :
    ∃ log, Reachable (LoggedStart cfgs) (LoggedStep fs) (s.1, s.2, log) := by
  induction h with
  | init hstart => exact ⟨[], .init ⟨hstart, rfl⟩⟩
  | @step s t label _ hstep ih =>
      obtain ⟨log, hlog⟩ := ih
      cases label with
      | op op =>
          obtain ⟨writes, hexec, -⟩ := op.exec_recorded fs s.1 s.2 log
          refine ⟨log ++ writes, hlog.next (.op op) ?_⟩
          rw [hstep]
          exact hexec.symm
      | env => exact ⟨log, hlog.next .env ⟨hstep, rfl⟩⟩

theorem recorded_create (cfgs : List NodeConfig) : Recorded (Engine.create cfgs).mNodes [] := by
  have hfresh : ∀ node ∈ (Engine.create cfgs).mNodes, history node = [] := by
    intro node hnode
    obtain ⟨cfg, -, rfl⟩ := List.mem_map.mp hnode
    rfl
  constructor
  · intro node hnode
    rw [hfresh node hnode]
  · refine ⟨[], by simp, ?_⟩
    rw [List.nil_append, List.flatMap_eq_nil_iff.mpr hfresh]

theorem recorded_of_reachable {s : Engine × σ × List Write}
    (h : Reachable (LoggedStart cfgs) (LoggedStep fs) s) : Recorded s.1.mNodes s.2.2 := by
  refine h.invariant (P := fun s => Recorded s.1.mNodes s.2.2) ?_ ?_
  · rintro ⟨e, w, log⟩ ⟨hcreate, hempty⟩
    simp only at hcreate hempty ⊢
    rw [hcreate, hempty]
    exact recorded_create cfgs
  · rintro ⟨e, w, log⟩ label t hrecorded hstep
    cases label with
    | op op =>
        obtain ⟨writes, hexec, hkept⟩ := op.exec_recorded fs e w log
        rw [hstep, hexec]
        exact hkept hrecorded
    | env =>
        rw [hstep.1, hstep.2]
        exact hrecorded

/-- What explains the cache by the node's own history explains it by the log. -/
theorem Engine.Recorded.cacheLogged {e : Engine} {log : List Write} (h : Recorded e.mNodes log)
    (hexplained : CacheExplained e) : CacheLogged e.mNodes log := by
  intro node hnode hunshared v hv
  have hlast := hexplained node hnode v hv
  rw [h.filter_eq hnode hunshared, history, List.getLast?_map, List.getLast?_reverse, hlast]
  rfl

theorem logLaw {s : Engine × σ} (h : Reachable (EngineStart cfgs) (EngineStep fs) s)
    (hexplained : CacheExplained s.1) : LogLaw fs cfgs s where
  runs := exists_log h
  recorded := fun _ hlog => recorded_of_reachable hlog
  cached := fun _ hlog => (recorded_of_reachable hlog).cacheLogged hexplained

end Runs

/-- For every list of node configurations, every run of the operations, every
`now` and every outcome of every read and write. -/
theorem engine_run_invariant {σ : Type} (fs : Fs σ) (cfgs : List NodeConfig)
    (s : Engine × σ) (hreach : Reachable (EngineStart cfgs) (EngineStep fs) s) :
    CacheExplained s.1 ∧ LogLaw fs cfgs s ∧ ∀ op, AppliedLaw fs op s := by
  have hexplained := cacheExplained_of_reachable hreach
  exact ⟨hexplained, logLaw hreach hexplained, fun op => appliedLaw fs op s⟩

/-- The law holds in the state that a reset and a launch request reach, where
the boost has been written. -/
theorem engine_run_invariant_launch :
    ∃ s, Reachable (EngineStart [iaBoost]) (EngineStep steadyFs) s ∧
      s.1.mNodes.map NodeState.written = [some "1"] ∧
      CacheExplained s.1 ∧ LogLaw steadyFs [iaBoost] s ∧ ∀ op, AppliedLaw steadyFs op s := by
  have hcreate : Reachable (EngineStart [iaBoost]) (EngineStep steadyFs)
      (Engine.create [iaBoost], ()) := Reachable.init rfl
  have hreset := Reachable.step hcreate
    (show EngineStep steadyFs _ (.op (.reset 0)) _ from rfl)
  have hlaunch := Reachable.step hreset
    (show EngineStep steadyFs _ (.op (.setRequest "launch"
      (OrdMap.empty.insert "ia_boost" "1") (Deadline.atTime 1500000000) false 0)) _ from rfl)
  exact ⟨_, hlaunch, by decide, engine_run_invariant steadyFs [iaBoost] _ hlaunch⟩

end MeizuM5c.Power
