import MeizuM5c.Power.EngineRun

/-!
The start-up retry of `applyLocked`: within `kRetryWindow` of the reset, a
node whose first write has not landed should be tried again after
`kRetryPeriod`. A cpufreq floor whose files cannot be read yet never reaches
its write, so it does not count as pending; the theorem below says exactly
when the retry is scheduled all the same.
-/

namespace MeizuM5c.Power

open Lib

/-- The node has a value to hold while nothing asks for it. -/
def HasReleased (cfg : NodeConfig) : Prop :=
  cfg.type = .cpufreqFloor ∨ cfg.type = .ppmFloor ∨
    (cfg.type = .value ∧ cfg.release = .default)

def NeverWritten (node : NodeState) : Prop := ∀ a ∈ node.attempts, a.ok = false

/-- An operation that calls `applyLocked(now)` inside the window gets a time
within `kRetryPeriod` back while some released value has not been written. -/
def RetryLaw {σ : Type} (fs : Fs σ) (now0 : Time) (op : EngineOp) (s : Engine × σ) : Prop :=
  ∀ e now, op.calls s.1 = some (e, now) → now < now0 + Engine.kRetryWindow →
    (∃ node ∈ (op.exec fs s).1.mNodes, HasReleased node.cfg ∧ NeverWritten node) →
    (Engine.applyLocked fs e now s.2).1.1 ≤ Deadline.atTime (now + Engine.kRetryPeriod)

/-- The loop reaches an unwritten cpufreq floor whose ceiling cannot be read,
or whose released value is unknown and cannot be read either. -/
def LeftOut {σ : Type} (fs : Fs σ) (visit : NodeState × σ) : Prop :=
  visit.1.cfg.type = .cpufreqFloor ∧ NeverWritten visit.1 ∧
    ((Engine.readKhz fs visit.1.cfg.maxPath visit.2).1 = none ∨
      (visit.1.releasedKhz = none ∧
        (Engine.readKhz fs visit.1.cfg.minInfoPath
          (Engine.readKhz fs visit.1.cfg.maxPath visit.2).2).1 = none))

/-- The loop reaches a node that was never written and whose target is not
cached, and the file system refuses the target. -/
def FirstWriteRefused {σ : Type} (fs : Fs σ) (requests : OrdMap String Request)
    (visit : NodeState × σ) : Prop :=
  visit.1.writes = 0 ∧ ∃ value err,
    (Engine.targetLocked fs requests visit.1 visit.2).1.1 = some value ∧
      visit.1.written ≠ some value ∧
      (fs.write visit.1.cfg.path value
        (Engine.targetLocked fs requests visit.1 visit.2).2).1 = .error err

/-- No cpufreq floor is left out, or the retry is scheduled for another
reason: a refused first write, or a request that ends soon. -/
def RetryCondition {σ : Type} (fs : Fs σ) (now0 : Time) (op : EngineOp) (s : Engine × σ) :
    Prop :=
  ∀ e now, op.calls s.1 = some (e, now) → now < now0 + Engine.kRetryWindow →
    (∃ visit ∈ Engine.applyVisits fs e now s.2, LeftOut fs visit) →
    (∃ visit ∈ Engine.applyVisits fs e now s.2,
      FirstWriteRefused fs (Engine.dropExpired e.mRequests now) visit) ∨
    ∃ entry ∈ (Engine.dropExpired e.mRequests now).entries,
      entry.2.untilTime ≤ Deadline.atTime (now + Engine.kRetryPeriod)

/-- The states of a run after `reset(now0)`; a later reset does not move the
window back. -/
def RetryStart {σ : Type} (fs : Fs σ) (cfgs : List NodeConfig) (now0 : Time)
    (s : Engine × σ) : Prop :=
  ∃ w, s = Engine.reset fs now0 (Engine.create cfgs) w

def RetryStep {σ : Type} (fs : Fs σ) (now0 : Time) (s : Engine × σ) (label : EngineLabel)
    (t : Engine × σ) : Prop :=
  EngineStep fs s label t ∧ ∀ now, label = .op (.reset now) → now0 ≤ now

/-- `op` is called in state `s` of a run that starts with `reset(now0)`; the
reset itself is the first operation. -/
def RetryRun {σ : Type} (fs : Fs σ) (cfgs : List NodeConfig) (now0 : Time)
    (s : Engine × σ) (op : EngineOp) : Prop :=
  (s.1 = Engine.create cfgs ∧ op = .reset now0) ∨
    (Reachable (RetryStart fs cfgs now0) (RetryStep fs now0) s ∧
      ∀ now, op = .reset now → now0 ≤ now)

section Node

variable {σ : Type} (fs : Fs σ)

/-- An unwritten node has a zero counter and nothing cached. -/
def NodeCounted (node : NodeState) : Prop :=
  Engine.NodeExplained node ∧ (NeverWritten node → node.writes = 0)

theorem NodeCounted.written_none {node : NodeState} (h : NodeCounted node)
    (hnever : NeverWritten node) : node.written = none := by
  cases hwritten : node.written with
  | none => rfl
  | some v =>
      have hhead := h.1.1 v hwritten
      have hok := hnever ⟨v, true⟩ (List.mem_of_head? hhead)
      cases hok

theorem nodeCounted_kept : Engine.KeptByNodes fs NodeCounted where
  write := by
    intro node value w h
    refine ⟨(Engine.nodeExplained_kept fs).write node value w h.1, ?_⟩
    obtain ⟨_, _, _, hattempts, _, hwrites⟩ := Engine.writeLocked_spec fs node value w
    intro hnever
    rw [NeverWritten, hattempts] at hnever
    have hfailed : (Engine.writeLocked fs node value w).1.1 = false :=
      hnever _ List.mem_cons_self
    rw [hwrites, hfailed]
    exact h.2 (fun a ha => hnever a (List.mem_cons_of_mem _ ha))
  target := by
    intro requests node w h
    refine ⟨(Engine.nodeExplained_kept fs).target requests node w h.1, ?_⟩
    obtain ⟨_, hattempts, hwrites, _⟩ := Engine.targetLocked_spec fs requests node w
    rw [NeverWritten, hattempts, hwrites]
    exact h.2
  duration := by
    intro node us w h
    refine ⟨(Engine.nodeExplained_kept fs).duration node us w h.1, ?_⟩
    obtain ⟨_, _, _, hattempts, hwrites⟩ := Engine.pulseDuration_spec fs node us w
    rw [NeverWritten, hattempts, hwrites]
    exact h.2
  reset := fun node h => ⟨Engine.NodeExplained.of_written_none rfl, h.2⟩

/-- A released value can be computed unless the node is left out. -/
theorem target_of_not_leftOut (requests : OrdMap String Request) (node : NodeState) (w : σ)
    (hreleased : HasReleased node.cfg) (hnever : NeverWritten node)
    (hleft : ¬ LeftOut fs (node, w)) :
    ∃ t, (Engine.targetLocked fs requests node w).1.1 = some t := by
  unfold Engine.targetLocked
  rcases hreleased with htype | htype | ⟨htype, hrelease⟩
  · simp only [htype]
    cases hceiling : Engine.readKhz fs node.cfg.maxPath w with
    | mk ceiling w' =>
        cases ceiling with
        | none => exact absurd ⟨htype, hnever, Or.inl (by rw [hceiling])⟩ hleft
        | some c =>
            simp only
            cases hknown : node.releasedKhz with
            | some r => exact ⟨_, rfl⟩
            | none =>
                cases hread : (Engine.readKhz fs node.cfg.minInfoPath w').1 with
                | some r => exact ⟨Engine.cpufreqTarget r c (Engine.tokensFor requests node.cfg.name), by simp⟩
                | none =>
                    refine absurd ⟨htype, hnever, Or.inr ⟨hknown, ?_⟩⟩ hleft
                    rw [hceiling]
                    exact hread
  · simp only [htype]
    exact ⟨_, rfl⟩
  · simp only [htype]
    split
    · exact ⟨node.cfg.defaultValue, by simp [Engine.releasedValue, hrelease]⟩
    · exact ⟨Engine.valueTarget node.cfg (Engine.tokensFor requests node.cfg.name),
        by simp [Engine.captureLocked, hrelease]⟩

/-- A node that is left out has no target and keeps its history. -/
theorem applyNode_of_leftOut (requests : OrdMap String Request) (node : NodeState) (w : σ)
    (hleft : LeftOut fs (node, w)) :
    HasReleased (Engine.applyNode fs requests node w).1.1.cfg ∧
      NeverWritten (Engine.applyNode fs requests node w).1.1 := by
  obtain ⟨htype, hnever, hfiles⟩ := hleft
  simp only at htype hnever hfiles
  have htarget : (Engine.targetLocked fs requests node w).1.1 = none := by
    unfold Engine.targetLocked
    simp only [htype]
    cases hceiling : Engine.readKhz fs node.cfg.maxPath w with
    | mk ceiling w' =>
        cases ceiling with
        | none => rfl
        | some c =>
            rcases hfiles with h | ⟨hknown, hread⟩
            · rw [hceiling] at h
              cases h
            · rw [hceiling] at hread
              simp only [hknown] at hread ⊢
              simp only [hread]
  obtain ⟨hcfg, hattempts, _, _⟩ := Engine.targetLocked_spec fs requests node w
  rw [Engine.applyNode_of_target_none fs requests node w (by rw [htype]; simp) htarget]
  refine ⟨?_, ?_⟩
  · rw [hcfg]
    exact Or.inl htype
  · rw [NeverWritten, hattempts]
    exact hnever

theorem writeLocked_refused_iff (node : NodeState) (value : String) (w : σ) :
    (Engine.writeLocked fs node value w).1.1 = false ↔
      ∃ err, (fs.write node.cfg.path value w).1 = .error err := by
  unfold Engine.writeLocked
  cases hwrite : fs.write node.cfg.path value w with
  | mk result w' =>
      cases result with
      | ok _ => simp
      | error err =>
          simp only
          split_ifs <;> simp

/-- The pending flag is raised exactly by a refused first write. -/
theorem applyNode_pending_iff (requests : OrdMap String Request) (node : NodeState) (w : σ) :
    (Engine.applyNode fs requests node w).1.2 = true ↔
      FirstWriteRefused fs requests (node, w) := by
  unfold FirstWriteRefused
  simp only
  by_cases htype : node.cfg.type = .pulse
  · have hpass : (Engine.applyNode fs requests node w).1 = (node, false) := by
      unfold Engine.applyNode
      rw [if_pos htype]
    have htarget : (Engine.targetLocked fs requests node w).1.1 = none := by
      simp [Engine.targetLocked, htype]
    simp [hpass, htarget]
  · obtain ⟨hcfg, _, hwrites, hwritten⟩ := Engine.targetLocked_spec fs requests node w
    cases htarget : (Engine.targetLocked fs requests node w).1.1 with
    | none =>
        rw [Engine.applyNode_of_target_none fs requests node w htype htarget]
        simp
    | some t =>
        have hsame : (Engine.targetLocked fs requests node w).1.2.written = node.written := by
          rcases hwritten with h | ⟨h, _⟩
          · exact h
          · rw [htarget] at h
            cases h
        rw [Engine.applyNode_of_target_some fs requests node w htype htarget, hsame]
        split
        · rename_i hheld
          simp [hheld]
        · rename_i hheld
          obtain ⟨_, _, _, _, _, hwrites'⟩ := Engine.writeLocked_spec fs
            (Engine.targetLocked fs requests node w).1.2 t
            (Engine.targetLocked fs requests node w).2
          have hrefused := writeLocked_refused_iff fs
            (Engine.targetLocked fs requests node w).1.2 t
            (Engine.targetLocked fs requests node w).2
          rw [hcfg] at hrefused
          simp only [Option.some.injEq, exists_and_left, exists_eq_left', ← hrefused]
          rw [hwrites', hwrites]
          cases hok : (Engine.writeLocked fs (Engine.targetLocked fs requests node w).1.2 t
            (Engine.targetLocked fs requests node w).2).1.1 <;> simp [hheld]

/-- A node that is still unwritten after the pass was left out or refused. -/
theorem applyNode_still_unwritten (requests : OrdMap String Request) (node : NodeState)
    (w : σ) (hcounted : NodeCounted node)
    (hreleased : HasReleased (Engine.applyNode fs requests node w).1.1.cfg)
    (hnever : NeverWritten (Engine.applyNode fs requests node w).1.1) :
    LeftOut fs (node, w) ∨ (Engine.applyNode fs requests node w).1.2 = true := by
  by_cases hleft : LeftOut fs (node, w)
  · exact Or.inl hleft
  right
  by_cases htype : node.cfg.type = .pulse
  · have hpass : (Engine.applyNode fs requests node w).1 = (node, false) := by
      unfold Engine.applyNode
      rw [if_pos htype]
    rw [hpass] at hreleased
    rcases hreleased with h | h | ⟨h, _⟩ <;> exact absurd (htype.symm.trans h) (by simp)
  obtain ⟨hcfg, hattempts, hwrites, hwritten⟩ := Engine.targetLocked_spec fs requests node w
  cases htarget : (Engine.targetLocked fs requests node w).1.1 with
  | none =>
      rw [Engine.applyNode_of_target_none fs requests node w htype htarget] at hreleased hnever
      rw [hcfg] at hreleased
      rw [NeverWritten, hattempts] at hnever
      obtain ⟨t, ht⟩ := target_of_not_leftOut fs requests node w hreleased hnever hleft
      rw [htarget] at ht
      cases ht
  | some t =>
      have hpass := Engine.applyNode_of_target_some fs requests node w htype htarget
      simp only at hpass
      have hold : NeverWritten node := by
        rw [hpass] at hnever
        split at hnever
        · rw [NeverWritten, hattempts] at hnever
          exact hnever
        · rw [NeverWritten, (Engine.writeLocked_spec fs _ t _).2.2.2.1, hattempts] at hnever
          exact fun a ha => hnever a (List.mem_cons_of_mem _ ha)
      have hmid : (Engine.targetLocked fs requests node w).1.2.written = none := by
        rcases hwritten with h | ⟨_, h⟩
        · rw [h]
          exact hcounted.written_none hold
        · exact h
      rw [hmid, if_neg (by simp)] at hpass
      obtain ⟨_, _, _, hattempts', _, hwrites'⟩ := Engine.writeLocked_spec fs
        (Engine.targetLocked fs requests node w).1.2 t
        (Engine.targetLocked fs requests node w).2
      rw [hpass, NeverWritten, hattempts'] at hnever
      have hfailed : (Engine.writeLocked fs (Engine.targetLocked fs requests node w).1.2 t
          (Engine.targetLocked fs requests node w).2).1.1 = false :=
        hnever _ List.mem_cons_self
      rw [hpass, hwrites', hfailed, hwrites, hcounted.2 hold]
      simp

end Node

/-- When `applyLocked` returns a time within the retry period. -/
theorem applyLocked_le_iff {σ : Type} (fs : Fs σ) (e : Engine) (now : Time) (w : σ) :
    (Engine.applyLocked fs e now w).1.1 ≤ Deadline.atTime (now + Engine.kRetryPeriod) ↔
      (now < e.mRetryUntil ∧ ∃ visit ∈ Engine.applyVisits fs e now w,
        FirstWriteRefused fs (Engine.dropExpired e.mRequests now) visit) ∨
      ∃ entry ∈ (Engine.dropExpired e.mRequests now).entries,
        entry.2.untilTime ≤ Deadline.atTime (now + Engine.kRetryPeriod) := by
  have hpending : ((threadMap (Engine.applyNode fs (Engine.dropExpired e.mRequests now))
      e.mNodes w).1.any Prod.snd = true) ↔ ∃ visit ∈ Engine.applyVisits fs e now w,
        FirstWriteRefused fs (Engine.dropExpired e.mRequests now) visit := by
    rw [threadMap_fst, List.any_map, List.any_eq_true]
    simp only [Function.comp_apply, applyNode_pending_iff, Engine.applyVisits]
  have hnext : Engine.nextDeadline (Engine.dropExpired e.mRequests now) ≤
      Deadline.atTime (now + Engine.kRetryPeriod) ↔
      ∃ entry ∈ (Engine.dropExpired e.mRequests now).entries,
        entry.2.untilTime ≤ Deadline.atTime (now + Engine.kRetryPeriod) := by
    rw [← not_lt, Engine.nextDeadline, lt_foldl_min_iff]
    simp
  simp only [Engine.applyLocked]
  split
  · rename_i h
    exact iff_of_true (min_le_right _ _) (Or.inl ⟨h.2, hpending.mp h.1⟩)
  · rename_i h
    rw [hnext]
    constructor
    · exact Or.inr
    · rintro (⟨hwindow, hrefused⟩ | hsoon)
      · exact absurd ⟨hpending.mpr hrefused, hwindow⟩ h
      · exact hsoon

theorem calls_mRetryUntil {op : EngineOp} {e e' : Engine} {now now0 : Time}
    (hcalls : op.calls e = some (e', now)) (hop : ∀ t, op = .reset t → now0 ≤ t)
    (he : (∃ t, op = .reset t) ∨ now0 + Engine.kRetryWindow ≤ e.mRetryUntil) :
    now0 + Engine.kRetryWindow ≤ e'.mRetryUntil := by
  cases op with
  | reset t =>
      cases hcalls
      exact Int.add_le_add_right (hop _ rfl) _
  | setRequest source values untilTime extend t =>
      cases hcalls
      simpa using he
  | clearRequest source t =>
      simp only [EngineOp.calls] at hcalls
      split at hcalls
      · cases hcalls
      · cases hcalls
        simpa using he
  | clearAll t =>
      simp only [EngineOp.calls] at hcalls
      split at hcalls
      · cases hcalls
      · cases hcalls
        simpa using he
  | pulse name durationMs => cases hcalls
  | apply t =>
      cases hcalls
      simpa using he

/-- One operation: the law holds exactly under the condition. -/
theorem retryLaw_iff_of_invariant {σ : Type} (fs : Fs σ) (now0 : Time) (op : EngineOp)
    (s : Engine × σ) (hnodes : ∀ node ∈ s.1.mNodes, NodeCounted node)
    (hop : ∀ t, op = .reset t → now0 ≤ t)
    (hwindow : (∃ t, op = .reset t) ∨ now0 + Engine.kRetryWindow ≤ s.1.mRetryUntil) :
    RetryLaw fs now0 op s ↔ RetryCondition fs now0 op s := by
  obtain ⟨e₀, w⟩ := s
  unfold RetryLaw RetryCondition
  refine forall₄_congr ?_
  intro e now hcalls hnow
  have huntil := calls_mRetryUntil hcalls hop hwindow
  have hcounted : ∀ node ∈ e.mNodes, NodeCounted node :=
    EngineOp.calls_kept (nodeCounted_kept fs) hcalls hnodes
  rw [applyLocked_le_iff, EngineOp.exec_of_calls fs w hcalls]
  simp only [Engine.applyLocked_mNodes, List.mem_map]
  have hwin : now < e.mRetryUntil := lt_of_lt_of_le hnow huntil
  constructor
  · rintro hlaw ⟨⟨node, w'⟩, hvisit, hleft⟩
    obtain ⟨hreleased, hnever⟩ := applyNode_of_leftOut fs
      (Engine.dropExpired e.mRequests now) node w' hleft
    rcases hlaw ⟨_, ⟨(node, w'), hvisit, rfl⟩, hreleased, hnever⟩ with ⟨_, h⟩ | h
    · exact Or.inl h
    · exact Or.inr h
  · rintro hcond ⟨_, ⟨⟨node, w'⟩, hvisit, rfl⟩, hreleased, hnever⟩
    have hnode : node ∈ e.mNodes := by
      have hmem := List.mem_map_of_mem (f := Prod.fst) hvisit
      simpa [Engine.applyVisits] using hmem
    rcases applyNode_still_unwritten fs _ node w' (hcounted node hnode) hreleased hnever with
      hleft | hpending
    · rcases hcond ⟨(node, w'), hvisit, hleft⟩ with h | h
      · exact Or.inl ⟨hwin, h⟩
      · exact Or.inr h
    · exact Or.inl ⟨hwin, (node, w'), hvisit, (applyNode_pending_iff fs _ node w').mp hpending⟩

theorem exec_mRetryUntil {σ : Type} (fs : Fs σ) (op : EngineOp) (e : Engine) (w : σ)
    {now0 : Time} (hop : ∀ t, op = .reset t → now0 ≤ t)
    (he : now0 + Engine.kRetryWindow ≤ e.mRetryUntil) :
    now0 + Engine.kRetryWindow ≤ (op.exec fs (e, w)).1.mRetryUntil := by
  cases hcalls : op.calls e with
  | none =>
      rcases EngineOp.exec_of_not_calls fs w hcalls with h | ⟨name, durationMs, h⟩
      · rw [h]
        exact he
      · rw [h]
        exact he
  | some call =>
      obtain ⟨e', now⟩ := call
      have huntil := calls_mRetryUntil hcalls hop (Or.inr he)
      rw [EngineOp.exec_of_calls fs w hcalls]
      exact huntil

theorem create_counted (cfgs : List NodeConfig) :
    ∀ node ∈ (Engine.create cfgs).mNodes, NodeCounted node := by
  intro node hnode
  simp only [Engine.create, List.mem_map] at hnode
  obtain ⟨cfg, _, rfl⟩ := hnode
  exact ⟨Engine.NodeExplained.of_written_none rfl, fun _ => rfl⟩

/-- In every run that starts with `reset(now0)` and for every operation of
it, the retry is scheduled exactly when no unwritten cpufreq floor is left
out, or another node or request brings the next pass soon enough. -/
theorem startup_retry_iff {σ : Type} (fs : Fs σ) (cfgs : List NodeConfig) (now0 : Time)
    (s : Engine × σ) (op : EngineOp) (hrun : RetryRun fs cfgs now0 s op) :
    RetryLaw fs now0 op s ↔ RetryCondition fs now0 op s := by
  rcases hrun with ⟨hcreate, rfl⟩ | ⟨hreach, hop⟩
  · refine retryLaw_iff_of_invariant fs now0 _ s ?_ ?_ (Or.inl ⟨now0, rfl⟩)
    · rw [hcreate]
      exact create_counted cfgs
    · intro t ht
      cases ht
      exact le_rfl
  · have hinv : (∀ node ∈ s.1.mNodes, NodeCounted node) ∧
        now0 + Engine.kRetryWindow ≤ s.1.mRetryUntil := by
      refine hreach.invariant (P := fun s => (∀ node ∈ s.1.mNodes, NodeCounted node) ∧
        now0 + Engine.kRetryWindow ≤ s.1.mRetryUntil) ?_ ?_
      · rintro s ⟨w, rfl⟩
        refine ⟨?_, le_rfl⟩
        exact EngineOp.exec_kept (nodeCounted_kept fs) (.reset now0) _ w (create_counted cfgs)
      · rintro s label t ⟨hnodes, huntil⟩ ⟨hstep, hlabel⟩
        cases label with
        | op op =>
            rw [hstep]
            exact ⟨EngineOp.exec_kept (nodeCounted_kept fs) op s.1 s.2 hnodes,
              exec_mRetryUntil fs op s.1 s.2 (fun t ht => hlabel t (by rw [ht])) huntil⟩
        | env =>
            rw [hstep]
            exact ⟨hnodes, huntil⟩
    exact retryLaw_iff_of_invariant fs now0 op s hinv.1 hop (Or.inr hinv.2)

/-- A file system on which none of the engine's nodes exists yet. -/
def absentFs : Fs Unit where
  read := fun _ w => (none, w)
  write := fun _ _ w => (.error ENOENT, w)

/-- A cpufreq floor as `ParseNode` builds it. -/
def cpufreqNode : NodeConfig where
  name := "cpu0"
  type := .cpufreqFloor
  path := "/sys/devices/system/cpu/cpufreq/policy0/scaling_min_freq"
  maxPath := "/sys/devices/system/cpu/cpufreq/policy0/scaling_max_freq"
  minInfoPath := "/sys/devices/system/cpu/cpufreq/policy0/cpuinfo_min_freq"

/-- The worker's first pass over an absent policy directory schedules no
retry: it returns `time_point::max()`. -/
theorem startup_retry_misses_absent_policy :
    ∃ s, RetryRun absentFs [cpufreqNode] 0 s (.apply 0) ∧
      ¬ RetryLaw absentFs 0 (.apply 0) s := by
  refine ⟨Engine.reset absentFs 0 (Engine.create [cpufreqNode]) (),
    Or.inr ⟨Reachable.init ⟨(), rfl⟩, by simp⟩, ?_⟩
  intro hlaw
  have hnever : NeverWritten { cfg := cpufreqNode } := by
    simp [NeverWritten]
  have hlate := hlaw _ _ rfl (by decide) ⟨_, List.mem_cons_self, Or.inl rfl, hnever⟩
  exact absurd hlate (by decide)

/-- Once the directory is there and only the write is still refused, the
condition holds and the retry is scheduled. -/
theorem startup_retry_iff_refused :
    let fs : Fs Unit := { steadyFs with write := fun _ _ w => (.error EACCES, w) }
    let s := Engine.reset fs 0 (Engine.create [cpufreqNode]) ()
    RetryRun fs [cpufreqNode] 0 s (.apply 0) ∧ RetryCondition fs 0 (.apply 0) s ∧
      RetryLaw fs 0 (.apply 0) s := by
  intro fs s
  have hrun : RetryRun fs [cpufreqNode] 0 s (.apply 0) :=
    Or.inr ⟨Reachable.init ⟨(), rfl⟩, by simp⟩
  have hcond : RetryCondition fs 0 (.apply 0) s := by
    intro e now hcalls _ _
    cases hcalls
    exact Or.inl ⟨_, List.mem_cons_self, by decide, "0", EACCES, by decide, by decide, rfl⟩
  exact ⟨hrun, hcond, (startup_retry_iff fs [cpufreqNode] 0 s (.apply 0) hrun).mpr hcond⟩

end MeizuM5c.Power
