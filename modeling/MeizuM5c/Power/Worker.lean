import MeizuM5c.Power.EngineRun

/-!
The worker thread of the engine (`Engine::loop`) against the public
operations of other threads. The worker holds the mutex from the moment it
wakes until it waits again, so no other thread steps while it is `running`;
`wait` and `wait_until` re-check their predicate under the same mutex.
-/

namespace MeizuM5c.Power

open Lib

inductive Worker where
  | notStarted
  | running
  | waiting (deadline : Deadline)
  | exited
  deriving DecidableEq

structure EngineSystem (σ : Type) where
  engine : Engine
  fs : σ
  worker : Worker

inductive WorkerLabel where
  | op (op : EngineOp)
  | env
  | stop
  | start
  | iterate (now : Time)
  | wake (now : Time)

namespace EngineSystem

variable {σ : Type} (fs : Fs σ)

/-- What follows the wait in the loop: `mDirty = false`, then the test of
`while (!mStop)`. -/
def afterWait (s : EngineSystem σ) : EngineSystem σ :=
  { s with
    engine := { s.engine with mDirty := false }
    worker := if s.engine.mStop then .exited else .running }

/-- The loop body up to the wait. A predicate that holds already makes the
wait return at once. -/
def iterate (now : Time) (s : EngineSystem σ) : EngineSystem σ :=
  match Engine.applyLocked fs s.engine now s.fs with
  | ((next, e), w) =>
      if e.mStop || e.mDirty then afterWait { engine := e, fs := w, worker := .running }
      else { engine := e, fs := w, worker := .waiting next }

/-- `reset` is run before `start` and not again, as in `main`. -/
def Step (s : EngineSystem σ) : WorkerLabel → EngineSystem σ → Prop
  | .op op, t => s.worker ≠ .running ∧ (∀ now, op ≠ .reset now) ∧
      t = { s with engine := (op.exec fs (s.engine, s.fs)).1
                   fs := (op.exec fs (s.engine, s.fs)).2 }
  | .env, t => t.engine = s.engine ∧ t.worker = s.worker
  | .stop, t => s.worker ≠ .running ∧ t = { s with engine := { s.engine with mStop := true } }
  | .start, t => s.worker = .notStarted ∧
      t = { s with worker := if s.engine.mStop then .exited else .running }
  | .iterate now, t => s.worker = .running ∧ t = iterate fs now s
  | .wake now, t => ∃ deadline, s.worker = .waiting deadline ∧
      (s.engine.mStop = true ∨ s.engine.mDirty = true ∨ deadline ≤ Deadline.atTime now) ∧
      t = afterWait s

def Start (cfgs : List NodeConfig) (s : EngineSystem σ) : Prop :=
  s.worker = .notStarted ∧ ∃ now w,
    (s.engine, s.fs) = Engine.reset fs now (Engine.create cfgs) w

/-- A clean wait does not pass the deadline of any request. -/
def WaitCovers (s : EngineSystem σ) : Prop :=
  ∀ deadline, s.worker = .waiting deadline → s.engine.mDirty = false →
    ∀ entry ∈ s.engine.mRequests.entries, deadline ≤ entry.2.untilTime

end EngineSystem

/-- The returned deadline is not later than that of any remaining request. -/
theorem applyLocked_le_untilTime {σ : Type} (fs : Fs σ) (e : Engine) (now : Time) (w : σ) :
    ∀ entry ∈ (Engine.applyLocked fs e now w).1.2.mRequests.entries,
      (Engine.applyLocked fs e now w).1.1 ≤ entry.2.untilTime := by
  intro entry hentry
  have hnext : Engine.nextDeadline (Engine.dropExpired e.mRequests now) ≤ entry.2.untilTime :=
    ((le_foldl_min_iff _ _ _ _).mp le_rfl).2 entry hentry
  simp only [Engine.applyLocked]
  split
  · exact (min_le_left _ _).trans hnext
  · exact hnext

/-- The returned deadline lies in the future. -/
theorem lt_applyLocked {σ : Type} (fs : Fs σ) (e : Engine) (now : Time) (w : σ) :
    Deadline.atTime now < (Engine.applyLocked fs e now w).1.1 := by
  have hnext : Deadline.atTime now <
      Engine.nextDeadline (Engine.dropExpired e.mRequests now) := by
    refine (lt_foldl_min_iff _ _ _ _).mpr ⟨Deadline.atTime_lt_never now, ?_⟩
    intro entry hentry
    exact ((Engine.mem_dropExpired _ _ _).mp hentry).2
  simp only [Engine.applyLocked]
  split
  · refine lt_min hnext ?_
    simp [Engine.kRetryPeriod, milliseconds_of_range]
  · exact hnext

/-- An operation other than `reset` adds a request only together with the
dirty flag. -/
theorem exec_requests_of_clean {σ : Type} (fs : Fs σ) (op : EngineOp) (e : Engine) (w : σ)
    (hreset : ∀ now, op ≠ .reset now) (hclean : (op.exec fs (e, w)).1.mDirty = false) :
    e.mDirty = false ∧ ∀ entry ∈ (op.exec fs (e, w)).1.mRequests.entries,
      entry ∈ e.mRequests.entries := by
  cases hcalls : op.calls e with
  | none =>
      rcases EngineOp.exec_of_not_calls fs w hcalls with h | ⟨name, durationMs, h⟩
      · rw [h] at hclean ⊢
        exact ⟨hclean, fun _ h => h⟩
      · rw [h] at hclean ⊢
        exact ⟨hclean, fun _ h => h⟩
  | some call =>
      obtain ⟨e', now⟩ := call
      rw [EngineOp.exec_of_calls fs w hcalls] at hclean ⊢
      simp only [Bool.or_eq_false_iff] at hclean
      cases op with
      | apply now =>
          cases hcalls
          refine ⟨hclean.2, ?_⟩
          intro entry hentry
          exact ((Engine.mem_dropExpired _ _ _).mp hentry).1
      | reset now => exact absurd rfl (hreset now)
      | setRequest source values untilTime extend now => cases hclean.1
      | clearRequest source now => cases hclean.1
      | clearAll now => cases hclean.1
      | pulse name durationMs => cases hcalls

theorem EngineSystem.iterate_waitCovers {σ : Type} (fs : Fs σ) (now : Time)
    (s : EngineSystem σ) : (EngineSystem.iterate fs now s).WaitCovers := by
  intro deadline hwait _ entry hentry
  unfold EngineSystem.iterate at hwait hentry
  simp only at hwait hentry
  split at hwait
  · simp only [EngineSystem.afterWait] at hwait
    split at hwait <;> cases hwait
  · rename_i hcalm
    rw [if_neg hcalm] at hentry
    cases hwait
    exact applyLocked_le_untilTime fs s.engine now s.fs entry hentry

/-- One step of any thread keeps the wait covering every request. -/
theorem EngineSystem.step_waitCovers {σ : Type} (fs : Fs σ) (s t : EngineSystem σ)
    (label : WorkerLabel) (h : s.WaitCovers) (hstep : s.Step fs label t) : t.WaitCovers := by
  cases label with
  | op op =>
      obtain ⟨_, hreset, rfl⟩ := hstep
      intro deadline hwait hclean entry hentry
      obtain ⟨hclean', hsubset⟩ := exec_requests_of_clean fs op s.engine s.fs hreset hclean
      exact h deadline hwait hclean' entry (hsubset entry hentry)
  | env =>
      obtain ⟨hengine, hworker⟩ := hstep
      intro deadline hwait hclean entry hentry
      rw [hengine] at hclean hentry
      rw [hworker] at hwait
      exact h deadline hwait hclean entry hentry
  | stop =>
      obtain ⟨_, rfl⟩ := hstep
      exact h
  | start =>
      obtain ⟨_, rfl⟩ := hstep
      intro deadline hwait
      simp only at hwait
      split at hwait <;> cases hwait
  | iterate now =>
      obtain ⟨_, rfl⟩ := hstep
      exact iterate_waitCovers fs now s
  | wake now =>
      obtain ⟨_, _, _, rfl⟩ := hstep
      intro deadline hwait
      simp only [EngineSystem.afterWait] at hwait
      split at hwait <;> cases hwait

/-- In every reachable state a clean wait ends no later than any request, and
every deadline the worker computes lies in the future. -/
theorem worker_never_oversleeps {σ : Type} (fs : Fs σ) (cfgs : List NodeConfig)
    (s : EngineSystem σ)
    (hreach : Reachable (EngineSystem.Start fs cfgs) (EngineSystem.Step fs) s) :
    s.WaitCovers ∧ ∀ (e : Engine) (now : Time) (w : σ),
      Deadline.atTime now < (Engine.applyLocked fs e now w).1.1 := by
  refine ⟨?_, lt_applyLocked fs⟩
  refine hreach.invariant (P := EngineSystem.WaitCovers) ?_ ?_
  · intro s hs deadline hwait
    rw [hs.1] at hwait
    cases hwait
  · intro s label t hs hstep
    exact EngineSystem.step_waitCovers fs s t label hs hstep

/-- A launch request that arrives during an unbounded wait: the worker wakes
and waits for exactly the end of the request. -/
theorem worker_never_oversleeps_launch :
    ∃ s, Reachable (EngineSystem.Start steadyFs [iaBoost]) (EngineSystem.Step steadyFs) s ∧
      s.worker = .waiting (Deadline.atTime 1500000000) ∧ s.engine.mDirty = false ∧
      s.engine.mRequests.entries.map Prod.fst = ["launch"] ∧ s.WaitCovers := by
  have h0 : Reachable (EngineSystem.Start steadyFs [iaBoost]) (EngineSystem.Step steadyFs)
      { engine := (Engine.reset steadyFs 0 (Engine.create [iaBoost]) ()).1
        fs := ()
        worker := .notStarted } := Reachable.init ⟨rfl, 0, (), rfl⟩
  have h1 := Reachable.step h0
    (show EngineSystem.Step steadyFs _ .start _ from ⟨rfl, rfl⟩)
  have h2 := Reachable.step h1
    (show EngineSystem.Step steadyFs _ (.iterate 0) _ from ⟨rfl, rfl⟩)
  have h3 := Reachable.step h2
    (show EngineSystem.Step steadyFs _ (.op (.setRequest "launch"
      (OrdMap.empty.insert "ia_boost" "1") (Deadline.atTime 1500000000) false 0)) _ from
      ⟨by decide, by simp, rfl⟩)
  have h4 := Reachable.step h3
    (show EngineSystem.Step steadyFs _ (.wake 1) _ from
      ⟨Deadline.never, rfl, Or.inr (Or.inl rfl), rfl⟩)
  have h5 := Reachable.step h4
    (show EngineSystem.Step steadyFs _ (.iterate 1) _ from ⟨rfl, rfl⟩)
  exact ⟨_, h5, by decide, by decide, by decide,
    (worker_never_oversleeps steadyFs [iaBoost] _ h5).1⟩

end MeizuM5c.Power
