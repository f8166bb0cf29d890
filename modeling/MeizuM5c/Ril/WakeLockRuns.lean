import MeizuM5c.Ril.WakeLock

/-!
When the wake lock is held. In a run in which `calloc` never gives the block of the last
timeout again the lock is held only while a timeout that is not cancelled is on its way.
-/

namespace MeizuM5c.Ril.Events

open Lib

section Effects

variable {w w' : WakeLock} {fuel n : Nat} {now : Timeval}

def timeoutInfo : UserCallbackInfo :=
  { pCallback := .wakeTimeout, userParam := 0, cid := channelId (-1) }

/-- The blocks after the last timeout has been cancelled. -/
def cancelled (last : Option Nat) (infos : Nat → Option UserCallbackInfo) :
    Nat → Option UserCallbackInfo :=
  match last with
  | none => infos
  | some l => Function.update infos l ((infos l).map (fun info => { info with userParam := 1 }))

theorem cancelLast_eq (w : WakeLock) :
    w.cancelLast = { w with callbacks := { w.callbacks with
      infos := cancelled w.sLastWakeTimeoutInfo w.callbacks.infos } } := by
  unfold WakeLock.cancelLast cancelled
  cases hlast : w.sLastWakeTimeoutInfo with
  | none =>
      cases w
      simp only at hlast
      rw [hlast]
  | some last => rfl

theorem cancelLast_reachable (h : Reachable CallbackInitial CallbackStep w.callbacks) :
    Reachable CallbackInitial CallbackStep w.cancelLast.callbacks := by
  unfold WakeLock.cancelLast
  cases w.sLastWakeTimeoutInfo with
  | none => exact h
  | some last => exact h.next (.setParam last 1) ⟨trivial, 0, rfl⟩

theorem request_fields {c c' : Callbacks} {callback : Callback} {param : Nat}
    {relativeTime : Option Timeval} {cid : Int}
    (h : c.internalRequestTimedCallback fuel n callback param relativeTime cid now = some c') :
    c'.infos = Function.update c.infos n (some ⟨callback, param, channelId cid⟩) ∧
      c'.running = c.running ∧ c'.done = c.done := by
  unfold Callbacks.internalRequestTimedCallback at h
  simp only [Option.bind_eq_bind, Option.bind_eq_some_iff] at h
  obtain ⟨r₁, -, r₂, -, hc⟩ := h
  rw [← Option.some.inj hc]
  exact ⟨rfl, rfl, rfl⟩

/-- The next timeout has been asked for and the last one cancelled. -/
structure Renewed (c : Callbacks) (last : Option Nat) (n : Nat) (c' : Callbacks) : Prop where
  unused : c.infos n = none
  infos : c'.infos = cancelled last (Function.update c.infos n (some timeoutInfo))
  running : c'.running = c.running
  done : c'.done = c.done
  reachable : Reachable CallbackInitial CallbackStep c → Reachable CallbackInitial CallbackStep c'

theorem renewed {c : Callbacks} (w₁ : WakeLock) (hgives : Gives c (some n) now)
    (hrequest : c.internalRequestTimedCallback fuel n .wakeTimeout 0 (some TIMEVAL_WAKE_TIMEOUT)
      (-1) now = some w₁.callbacks) :
    ∃ c', w₁.cancelLast = { w₁ with callbacks := c' } ∧
      Renewed c w₁.sLastWakeTimeoutInfo n c' := by
  have hallowed := hgives n rfl
  obtain ⟨hinfos, hrunning, hdone⟩ := request_fields hrequest
  refine ⟨w₁.cancelLast.callbacks, by rw [cancelLast_eq], hallowed.1, ?_, ?_, ?_, ?_⟩
  · rw [cancelLast_eq]
    simp only
    rw [hinfos]
    rfl
  · rw [cancelLast_eq]
    exact hrunning
  · rw [cancelLast_eq]
    exact hdone
  · intro hreach
    exact cancelLast_reachable (hreach.next _ ⟨hallowed, fuel, hrequest⟩)

theorem grab_eq (hv : w.version ≥ 13) (hgives : Gives w.callbacks (some n) now)
    (h : w.grabPartialWakeLock fuel (some n) now = some w') :
    ∃ c', w' = { w with callbacks := c', held := true, sWakelockCount := w.sWakelockCount + 1,
                        lost := false, sLastWakeTimeoutInfo := some n } ∧
      Renewed w.callbacks w.sLastWakeTimeoutInfo n c' := by
  unfold WakeLock.grabPartialWakeLock WakeLock.requestTimeout at h
  rw [if_pos hv] at h
  simp only [Option.bind_eq_bind, Option.bind_eq_some_iff] at h
  obtain ⟨w₁, ⟨c₁, hrequest, hw₁⟩, hw'⟩ := h
  rw [← Option.some.inj hw₁] at hw'
  let w₂ : WakeLock := { w with callbacks := c₁, held := true, lost := false,
                                sWakelockCount := w.sWakelockCount + 1 }
  obtain ⟨c', hcancel, hrenewed⟩ := renewed w₂ hgives hrequest
  refine ⟨c', ?_, hrenewed⟩
  rw [← Option.some.inj hw']
  exact congrArg (fun w : WakeLock => { w with sLastWakeTimeoutInfo := some n }) hcancel

theorem schedule_eq (hv : w.version < 13) (hgives : Gives w.callbacks (some n) now)
    (h : w.scheduleTimeout fuel (some n) now = some w') :
    ∃ c', w' = { w with callbacks := c', sLastWakeTimeoutInfo := some n } ∧
      Renewed w.callbacks w.sLastWakeTimeoutInfo n c' := by
  unfold WakeLock.scheduleTimeout WakeLock.requestTimeout at h
  rw [if_pos hv] at h
  simp only [Option.bind_eq_bind, Option.bind_eq_some_iff] at h
  obtain ⟨w₁, ⟨c₁, hrequest, hw₁⟩, hw'⟩ := h
  rw [← Option.some.inj hw₁] at hw'
  let w₂ : WakeLock := { w with callbacks := c₁ }
  obtain ⟨c', hcancel, hrenewed⟩ := renewed w₂ hgives hrequest
  refine ⟨c', ?_, hrenewed⟩
  rw [← Option.some.inj hw']
  exact congrArg (fun w : WakeLock => { w with sLastWakeTimeoutInfo := some n }) hcancel

/-- What the framework's acknowledgement, or the error path, leaves. -/
theorem release_eq (w : WakeLock) :
    (w.version ≥ 13 ∧ w.sWakelockCount > 1 ∧
      w.releaseWakeLock = { w with sWakelockCount := w.sWakelockCount - 1 }) ∨
    (w.version < 13 ∧ w.releaseWakeLock = { w with held := false }) ∨
    ∃ c', w.version ≥ 13 ∧
      w.releaseWakeLock = { w with callbacks := c', held := false, sWakelockCount := 0 } ∧
      c'.running = w.callbacks.running ∧ c'.done = w.callbacks.done ∧
      c'.infos = cancelled w.sLastWakeTimeoutInfo w.callbacks.infos ∧
      (Reachable CallbackInitial CallbackStep w.callbacks →
        Reachable CallbackInitial CallbackStep c') := by
  unfold WakeLock.releaseWakeLock
  split_ifs with hv hcount
  · exact .inl ⟨hv, hcount, rfl⟩
  · right
    right
    let w₁ : WakeLock := { w with sWakelockCount := 0, held := false }
    refine ⟨w₁.cancelLast.callbacks, hv, ?_, ?_, ?_, ?_, ?_⟩
    · rw [cancelLast_eq]
    · rw [cancelLast_eq]
    · rw [cancelLast_eq]
    · rw [cancelLast_eq]
    · exact fun hreach => cancelLast_reachable (w := w₁) hreach
  · exact .inr (.inl ⟨not_le.mp hv, rfl⟩)

/-- A timeout that is not cancelled gives the lock back. -/
theorem call_eq (callback : Callback) (param : Nat) (w : WakeLock) :
    w.call callback param = if callback = .wakeTimeout ∧ param = 0 then
      { w with held := false, sWakelockCount := if w.version ≥ 13 then 0 else w.sWakelockCount }
      else w := by
  unfold WakeLock.call
  cases callback with
  | vendor f => simp
  | wakeTimeout =>
      unfold WakeLock.wakeTimeoutCallback WakeLock.releaseWakeLock
      by_cases hv : w.version ≥ 13
      · by_cases hp : param = 0
        · simp [hv, hp]
        · simp [hv, hp]
      · by_cases hp : param = 0
        · simp [hv, hp]
        · simp [hv, hp]

/-- A channel's number is never negative, so that librilmtk is given every callback. -/
theorem userTimerCallback_eq (h : w.userTimerCallback fuel n = some w') :
    w' = { w with callbacks := w.callbacks.enqueue n } := by
  unfold WakeLock.userTimerCallback at h
  simp only [Option.bind_eq_bind, Option.bind_eq_some_iff] at h
  obtain ⟨info, -, h⟩ := h
  have hchannel : RIL_URC ≤ info.cid := Nat.zero_le info.cid
  rw [if_pos hchannel] at h
  exact (Option.some.inj h).symm

theorem finish_eq {param : Nat} (h : w.finish n param = some w') :
    ∃ info, w.callbacks.infos n = some info ∧
      ((info.pCallback = .wakeTimeout ∧ param = 0 ∧
        w' = { w with callbacks := w.callbacks.finish n param, held := false,
                      sWakelockCount := if w.version ≥ 13 then 0 else w.sWakelockCount }) ∨
      (¬ (info.pCallback = .wakeTimeout ∧ param = 0) ∧
        w' = { w with callbacks := w.callbacks.finish n param })) := by
  unfold WakeLock.finish at h
  simp only [Option.bind_eq_bind, Option.bind_eq_some_iff, call_eq] at h
  obtain ⟨info, hinfo, hw'⟩ := h
  refine ⟨info, hinfo, ?_⟩
  rw [← Option.some.inj hw']
  by_cases hback : info.pCallback = .wakeTimeout ∧ param = 0
  · left
    refine ⟨hback.1, hback.2, ?_⟩
    rw [if_pos hback]
  · right
    refine ⟨hback, ?_⟩
    rw [if_neg hback]

theorem cancelled_of_ne {last : Option Nat} (h : last ≠ some n)
    (infos : Nat → Option UserCallbackInfo) : cancelled last infos n = infos n := by
  unfold cancelled
  cases last with
  | none => rfl
  | some l =>
      simp only
      rw [Function.update_of_ne]
      exact fun heq => h (congrArg some heq.symm)

theorem cancelled_eq_some {last : Option Nat} {infos : Nat → Option UserCallbackInfo}
    {info' : UserCallbackInfo} (h : cancelled last infos n = some info') :
    ∃ info, infos n = some info ∧ info'.pCallback = info.pCallback ∧
      (last ≠ some n ∧ info' = info ∨ last = some n ∧ info'.userParam = 1) := by
  by_cases hlast : last = some n
  · unfold cancelled at h
    simp only [hlast, Function.update_self, Option.map_eq_some_iff] at h
    obtain ⟨info, hinfo, rfl⟩ := h
    exact ⟨info, hinfo, rfl, .inr ⟨hlast, rfl⟩⟩
  · rw [cancelled_of_ne hlast] at h
    exact ⟨info', h, rfl, .inl ⟨hlast, rfl⟩⟩

end Effects

/-- What a step can do, with the block that `calloc` gives. -/
inductive WakeEffect (w : WakeLock) : Option Nat → WakeLock → Prop
  | beside (a : CallbackAction) (fuel : Nat) (c' : Callbacks) (hbeside : a.beside = true)
      (hallowed : Allowed w.callbacks a) (hrun : perform fuel w.callbacks a = some c') :
      WakeEffect w (w.allocated (.callbacks a)) { w with callbacks := c' }
  | enqueued (n : Nat) (hthread : w.callbacks.thread = .userTimer n) :
      WakeEffect w none { w with callbacks := w.callbacks.enqueue n }
  | timedOut (n : Nat) (hrunning : (n, 0) ∈ w.callbacks.running) (info : UserCallbackInfo)
      (hinfo : w.callbacks.infos n = some info) (hcallback : info.pCallback = .wakeTimeout)
      (count : Nat) (hcount : w.version ≥ 13 → count = 0) :
      WakeEffect w none { w with callbacks := w.callbacks.finish n 0, held := false,
                                 sWakelockCount := count }
  | finished (n param : Nat) (hrunning : (n, param) ∈ w.callbacks.running)
      (info : UserCallbackInfo) (hinfo : w.callbacks.infos n = some info)
      (hnot : ¬ (info.pCallback = .wakeTimeout ∧ param = 0)) :
      WakeEffect w none { w with callbacks := w.callbacks.finish n param }
  | grabbed (hv : w.version ≥ 13) (n senders : Nat) (c' : Callbacks)
      (hrenewed : Renewed w.callbacks w.sLastWakeTimeoutInfo n c') :
      WakeEffect w (some n)
        { w with callbacks := c', held := true, sWakelockCount := w.sWakelockCount + 1,
                 lost := false, sLastWakeTimeoutInfo := some n, senders }
  | notGrabbed (hv : w.version ≥ 13) (senders : Nat) :
      WakeEffect w none { w with held := false, lost := true, senders }
  | begun (hv : w.version < 13) :
      WakeEffect w none { w with held := true, senders := w.senders + 1 }
  | ended (hv : w.version ≥ 13) : WakeEffect w none { w with senders := w.senders - 1 }
  | scheduled (hv : w.version < 13) (n : Nat) (c' : Callbacks)
      (hrenewed : Renewed w.callbacks w.sLastWakeTimeoutInfo n c') :
      WakeEffect w (some n)
        { w with callbacks := c', sLastWakeTimeoutInfo := some n, senders := w.senders - 1 }
  | released (hv : w.version < 13) (senders : Nat) :
      WakeEffect w none { w with held := false, senders }
  | acknowledged (hv : w.version ≥ 13) (hcount : w.sWakelockCount > 1) :
      WakeEffect w none { w with sWakelockCount := w.sWakelockCount - 1 }
  | releasedLast (hv : w.version ≥ 13) (c' : Callbacks)
      (hinfos : c'.infos = cancelled w.sLastWakeTimeoutInfo w.callbacks.infos)
      (hrunning : c'.running = w.callbacks.running) (hdone : c'.done = w.callbacks.done)
      (hreach : Reachable CallbackInitial CallbackStep w.callbacks →
        Reachable CallbackInitial CallbackStep c') :
      WakeEffect w none { w with callbacks := c', held := false, sWakelockCount := 0 }

theorem release_effect (w : WakeLock) : WakeEffect w none w.releaseWakeLock := by
  rcases release_eq w with ⟨hv, hcount, heq⟩ | ⟨hv, heq⟩ |
    ⟨c', hv, heq, hrunning, hdone, hinfos, hreach⟩
  · rw [heq]
    exact .acknowledged hv hcount
  · rw [heq]
    exact .released hv w.senders
  · rw [heq]
    exact .releasedLast hv c' hinfos hrunning hdone hreach

theorem wake_effect {w w' : WakeLock} {a : WakeAction} (h : WakeStep w a w') :
    WakeEffect w (w.allocated a) w' := by
  obtain ⟨hallowed, fuel, hrun⟩ := h
  cases a with
  | callbacks a =>
      unfold WakeLock.perform at hrun
      simp only [Option.bind_eq_bind, Option.bind_eq_some_iff, Option.some.injEq] at hrun
      obtain ⟨c', hrun, rfl⟩ := hrun
      exact .beside a fuel c' hallowed.1 hallowed.2 hrun
  | userTimerCallback n =>
      rw [userTimerCallback_eq hrun]
      exact .enqueued n hallowed
  | finish n param =>
      obtain ⟨info, hinfo, ⟨hcallback, rfl, rfl⟩ | ⟨hnot, rfl⟩⟩ := finish_eq hrun
      · exact .timedOut n hallowed info hinfo hcallback _ (fun hv => if_pos hv)
      · exact .finished n param hallowed info hinfo hnot
  | grab pInfo now =>
      obtain ⟨hv, hgives⟩ := hallowed
      cases pInfo with
      | none =>
          change w.grabPartialWakeLock fuel none now = some w' at hrun
          unfold WakeLock.grabPartialWakeLock at hrun
          rw [if_pos hv] at hrun
          rw [← Option.some.inj hrun]
          exact .notGrabbed hv w.senders
      | some n =>
          obtain ⟨c', rfl, hrenewed⟩ := grab_eq hv hgives hrun
          exact .grabbed hv n w.senders c' hrenewed
  | beginSend pInfo now =>
      unfold WakeLock.perform at hrun
      simp only [Option.bind_eq_bind, Option.bind_eq_some_iff, Option.some.injEq] at hrun
      obtain ⟨w₁, hgrab, rfl⟩ := hrun
      unfold WakeLock.allocated
      by_cases hv : w.version ≥ 13
      · simp only [if_pos hv]
        cases pInfo with
        | none =>
            unfold WakeLock.grabPartialWakeLock at hgrab
            rw [if_pos hv] at hgrab
            rw [← Option.some.inj hgrab]
            exact .notGrabbed hv (w.senders + 1)
        | some n =>
            obtain ⟨c', rfl, hrenewed⟩ := grab_eq hv hallowed hgrab
            exact .grabbed hv n (w.senders + 1) c' hrenewed
      · simp only [if_neg hv]
        unfold WakeLock.grabPartialWakeLock at hgrab
        rw [if_neg hv] at hgrab
        rw [← Option.some.inj hgrab]
        exact .begun (not_le.mp hv)
  | endSend pInfo now =>
      obtain ⟨-, hgives⟩ := hallowed
      unfold WakeLock.perform at hrun
      simp only [Option.bind_eq_bind, Option.bind_eq_some_iff, Option.some.injEq] at hrun
      obtain ⟨w₁, hschedule, rfl⟩ := hrun
      unfold WakeLock.allocated
      by_cases hv : w.version < 13
      · simp only [if_pos hv]
        cases pInfo with
        | none =>
            unfold WakeLock.scheduleTimeout WakeLock.releaseWakeLock at hschedule
            rw [if_pos hv, if_neg (not_le.mpr hv)] at hschedule
            rw [← Option.some.inj hschedule]
            exact .released hv (w.senders - 1)
        | some n =>
            obtain ⟨c', rfl, hrenewed⟩ := schedule_eq hv hgives hschedule
            exact .scheduled hv n c' hrenewed
      · simp only [if_neg hv]
        unfold WakeLock.scheduleTimeout at hschedule
        rw [if_neg hv] at hschedule
        rw [← Option.some.inj hschedule]
        exact .ended (not_lt.mp hv)
  | release =>
      rw [← Option.some.inj hrun]
      exact release_effect w

section Runs

variable {w w' : WakeLock} {a : WakeAction} {block : Option Nat}

/-- The wake lock makes use of the timed callbacks as any client does. -/
theorem callbacks_reachable (h : Reachable WakeInitial WakeStep w) :
    Reachable CallbackInitial CallbackStep w.callbacks := by
  apply h.invariant (P := fun w => Reachable CallbackInitial CallbackStep w.callbacks)
  · rintro w ⟨callbacks, version, hinitial, rfl⟩
    exact .init hinitial
  · intro w a w' hreach hstep
    have heffect := wake_effect hstep
    generalize w.allocated a = block at heffect
    cases heffect with
    | beside b fuel c' hbeside hallowed hrun => exact hreach.next b ⟨hallowed, fuel, hrun⟩
    | enqueued n hthread => exact hreach.next (.enqueue n) ⟨hthread, 0, rfl⟩
    | timedOut n hrunning info hinfo hcallback count hcount =>
        exact hreach.next (.finish n 0) ⟨hrunning, 0, rfl⟩
    | finished n param hrunning info hinfo hnot =>
        exact hreach.next (.finish n param) ⟨hrunning, 0, rfl⟩
    | grabbed hv n senders c' hrenewed => exact hrenewed.reachable hreach
    | scheduled hv n c' hrenewed => exact hrenewed.reachable hreach
    | releasedLast hv c' hinfos hrunning hdone hreach' => exact hreach' hreach
    | _ => exact hreach

theorem held_eq (h : Reachable WakeInitial WakeStep w) :
    w.version ≥ 13 → w.held = (decide (0 < w.sWakelockCount) && !w.lost) := by
  apply h.invariant
    (P := fun w => w.version ≥ 13 → w.held = (decide (0 < w.sWakelockCount) && !w.lost))
  · rintro w ⟨callbacks, version, -, rfl⟩ -
    rfl
  · intro w a w' hheld hstep
    have heffect := wake_effect hstep
    generalize w.allocated a = block at heffect
    cases heffect with
    | beside b fuel c' hbeside hallowed hrun => exact hheld
    | enqueued n hthread => exact hheld
    | timedOut n hrunning info hinfo hcallback count hcount =>
        intro hv
        simp [hcount hv]
    | finished n param hrunning info hinfo hnot => exact hheld
    | grabbed hv n senders c' hrenewed =>
        intro _
        simp
    | notGrabbed hv senders =>
        intro _
        simp
    | begun hv => exact fun hle => absurd hv (not_lt.mpr hle)
    | ended hv => exact hheld
    | scheduled hv n c' hrenewed => exact fun hle => absurd hv (not_lt.mpr hle)
    | released hv senders => exact fun hle => absurd hv (not_lt.mpr hle)
    | acknowledged hv hcount =>
        intro _
        have hpos : 0 < w.sWakelockCount := by omega
        have hstill : 0 < w.sWakelockCount - 1 := by omega
        simp only
        rw [hheld hv, decide_eq_true hpos, decide_eq_true hstill]
    | releasedLast hv c' hinfos hrunning hdone hreach =>
        intro _
        simp

/-- What the loop, librilmtk and the vendor do to the blocks. -/
theorem beside_blocks {c c' : Callbacks} {b : CallbackAction} {fuel : Nat}
    (hbeside : b.beside = true) (h : perform fuel c b = some c') :
    (c'.infos = c.infos ∧ c'.running = c.running ∧ c'.done = c.done) ∨
    (∃ n f p tv cid now, b = .request n (.vendor f) p tv cid now ∧
      c'.infos = Function.update c.infos n (some ⟨.vendor f, p, channelId cid⟩) ∧
      c'.running = c.running ∧ c'.done = c.done) ∨
    (∃ n info, b = .run n ∧ c.infos n = some info ∧ c'.infos = c.infos ∧
      c'.running = c.running ++ [(n, info.userParam)] ∧ c'.done = c.done) ∨
    ∃ n, b = .release n ∧ c'.infos = Function.update c.infos n none ∧
      c'.running = c.running ∧ c'.done = c.done.erase n := by
  cases b with
  | openPipe fd =>
      rw [← Option.some.inj h]
      exact .inl ⟨rfl, rfl, rfl⟩
  | addWakeup fd =>
      unfold perform Callbacks.addWakeup at h
      simp only [Option.bind_eq_bind, Option.bind_eq_some_iff] at h
      obtain ⟨r₁, -, r₂, -, hc⟩ := h
      rw [← Option.some.inj hc]
      exact .inl ⟨rfl, rfl, rfl⟩
  | request n callback p tv cid now =>
      cases callback with
      | wakeTimeout => cases hbeside
      | vendor f =>
          obtain ⟨hinfos, hrunning, hdone⟩ := request_fields h
          exact .inr (.inl ⟨n, f, p, tv, cid, now, rfl, hinfos, hrunning, hdone⟩)
  | triggerEvLoop =>
      rw [← Option.some.inj h]
      exact .inl ⟨rfl, rfl, rfl⟩
  | loop a =>
      unfold perform Callbacks.loopStep at h
      simp only [Option.bind_eq_bind, Option.bind_eq_some_iff] at h
      obtain ⟨r', -, hc⟩ := h
      rw [← Option.some.inj hc]
      exact .inl ⟨rfl, rfl, rfl⟩
  | processWakeupCallback =>
      rw [← Option.some.inj h]
      exact .inl ⟨rfl, rfl, rfl⟩
  | run n =>
      unfold perform Callbacks.run at h
      simp only [Option.bind_eq_bind, Option.bind_eq_some_iff] at h
      obtain ⟨info, hinfo, hc⟩ := h
      rw [← Option.some.inj hc]
      exact .inr (.inr (.inl ⟨n, info, rfl, hinfo, rfl, rfl, rfl⟩))
  | release n =>
      unfold perform Callbacks.release at h
      simp only [Option.bind_eq_bind, Option.bind_eq_some_iff] at h
      obtain ⟨r', -, hc⟩ := h
      rw [← Option.some.inj hc]
      exact .inr (.inr (.inr ⟨n, rfl, rfl, rfl, rfl⟩))
  | enqueue n => cases hbeside
  | finish n param => cases hbeside
  | setParam n param => cases hbeside

/-- The blocks that librilmtk calls and has called are in use, and no block is both. -/
theorem callbacks_live {c : Callbacks} (h : Reachable CallbackInitial CallbackStep c) :
    (∀ n p, (n, p) ∈ c.running → c.infos n ≠ none ∧ n ∉ c.done ∧ n ∉ c.queue) ∧
      (∀ n ∈ c.done, c.infos n ≠ none) ∧ ∀ n ∈ c.queue, n ∉ c.done := by
  obtain ⟨timers, pending, hkept⟩ := reachable_kept h
  have hplaced := hkept.placed
  unfold places at hplaced
  have hlast := (List.nodup_append.mp (List.nodup_append.mp hplaced).2.1).2.1
  obtain ⟨-, hrest, hqueue⟩ := List.nodup_append.mp hlast
  obtain ⟨-, -, hrunning⟩ := List.nodup_append.mp hrest
  have hlive : ∀ n ∈ places c (timers ++ pending), c.infos n ≠ none := by
    intro n hn hnone
    have hsome := (hkept.live n).mpr hn
    rw [hnone] at hsome
    cases hsome
  refine ⟨?_, ?_, ?_⟩
  · intro n p hp
    have hfst : n ∈ c.running.map Prod.fst := List.mem_map_of_mem hp
    have hin : n ∈ places c (timers ++ pending) := by
      unfold places
      simp only [List.mem_append]
      exact .inr (.inr (.inr (.inl hfst)))
    refine ⟨hlive n hin, ?_, ?_⟩
    · exact fun hdone => hrunning n hfst n hdone rfl
    · exact fun hq => hqueue n hq n (List.mem_append_left _ hfst) rfl
  · exact fun n hn => hlive n (by simp [places, hn])
  · exact fun n hn hdone => hqueue n hn n (List.mem_append_right _ hdone) rfl

theorem fresh_reachable (h : Reachable WakeInitial FreshStep w) :
    Reachable WakeInitial WakeStep w := by
  apply h.invariant (P := fun w => Reachable WakeInitial WakeStep w)
  · exact fun w hw => .init hw
  · exact fun w a w' hreach hstep => hreach.next a hstep.1

end Runs

/-- The last timeout is a timeout as long as its block is in use, and the lock is held by a
message that is being sent, or until that timeout, which is not cancelled. -/
structure Awaited (w : WakeLock) : Prop where
  running : ∀ n p info, (n, p) ∈ w.callbacks.running → w.callbacks.infos n = some info →
    info.userParam = p ∨ info.userParam = 1
  own : ∀ n info, w.sLastWakeTimeoutInfo = some n → w.callbacks.infos n = some info →
    info.pCallback = .wakeTimeout
  held : w.held = true → (w.version < 13 ∧ 0 < w.senders) ∨
    ∃ n info, w.sLastWakeTimeoutInfo = some n ∧ w.callbacks.infos n = some info ∧
      info.userParam = 0 ∧ n ∉ w.callbacks.done

section Fresh

variable {w : WakeLock} {c' : Callbacks} {n : Nat}

/-- The blocks may have been cancelled. -/
theorem Awaited.cancel (h : Awaited w)
    (hinfos : c'.infos = cancelled w.sLastWakeTimeoutInfo w.callbacks.infos)
    (hrunning : c'.running = w.callbacks.running) (count : Nat) :
    Awaited { w with callbacks := c', held := false, sWakelockCount := count } := by
  refine ⟨?_, ?_, ?_⟩
  · intro m p info' hm hinfo'
    simp only [hrunning] at hm
    simp only [hinfos] at hinfo'
    obtain ⟨info, hinfo, -, ⟨-, rfl⟩ | ⟨-, hone⟩⟩ := cancelled_eq_some hinfo'
    · exact h.running m p info' hm hinfo
    · exact .inr hone
  · intro m info' hm hinfo'
    simp only [hinfos] at hinfo'
    obtain ⟨info, hinfo, hcallback, -⟩ := cancelled_eq_some hinfo'
    rw [hcallback]
    exact h.own m info hm hinfo
  · exact fun hheld => absurd hheld (by simp)

/-- A new timeout takes the place of the last one, in another block. -/
theorem Awaited.renew (h : Awaited w) (hreach : Reachable CallbackInitial CallbackStep w.callbacks)
    (hrenewed : Renewed w.callbacks w.sLastWakeTimeoutInfo n c')
    (hfresh : w.sLastWakeTimeoutInfo ≠ some n) (count senders : Nat) (held lost : Bool) :
    Awaited { w with callbacks := c', sLastWakeTimeoutInfo := some n, sWakelockCount := count,
                     senders, held, lost } := by
  obtain ⟨hlive, hdone, -⟩ := callbacks_live hreach
  have hnew : c'.infos n = some timeoutInfo := by
    rw [hrenewed.infos, cancelled_of_ne hfresh, Function.update_self]
  refine ⟨?_, ?_, ?_⟩
  · intro m p info' hm hinfo'
    simp only [hrenewed.running] at hm
    have hne : m ≠ n := by
      rintro rfl
      exact (hlive m p hm).1 hrenewed.unused
    simp only [hrenewed.infos] at hinfo'
    obtain ⟨info, hinfo, -, hsame⟩ := cancelled_eq_some hinfo'
    rw [Function.update_of_ne hne] at hinfo
    rcases hsame with ⟨-, rfl⟩ | ⟨-, hone⟩
    · exact h.running m p info' hm hinfo
    · exact .inr hone
  · intro m info' hm hinfo'
    simp only [← Option.some.inj hm, hnew] at hinfo'
    rw [← Option.some.inj hinfo']
    rfl
  · intro _
    right
    refine ⟨n, timeoutInfo, rfl, hnew, rfl, ?_⟩
    simp only [hrenewed.done]
    exact fun hn => hdone n hn hrenewed.unused

/-- The loop, librilmtk and the vendor leave the last timeout alone. -/
theorem Awaited.beside (h : Awaited w) (hreach : Reachable CallbackInitial CallbackStep w.callbacks)
    {b : CallbackAction} {fuel : Nat} (hbeside : b.beside = true) (hallowed : Allowed w.callbacks b)
    (hrun : perform fuel w.callbacks b = some c')
    (hfresh : ∀ n, w.allocated (.callbacks b) = some n → w.sLastWakeTimeoutInfo ≠ some n) :
    Awaited { w with callbacks := c' } := by
  obtain ⟨hlive, hdone, hqueue⟩ := callbacks_live hreach
  rcases beside_blocks hbeside hrun with ⟨hinfos, hrunning, hends⟩ |
    ⟨n, f, p, tv, cid, now, rfl, hinfos, hrunning, hends⟩ |
    ⟨n, info, rfl, hinfo, hinfos, hrunning, hends⟩ | ⟨n, rfl, hinfos, hrunning, hends⟩
  · refine ⟨?_, ?_, ?_⟩
    · simp only [hinfos, hrunning]
      exact h.running
    · simp only [hinfos]
      exact h.own
    · simp only [hinfos, hends]
      exact h.held
  · -- the vendor's block is not in use, nor that of the last timeout
    have hunused : w.callbacks.infos n = none := hallowed.1
    have hother : w.sLastWakeTimeoutInfo ≠ some n := hfresh n rfl
    refine ⟨?_, ?_, ?_⟩
    · intro m q info hm hinfo
      simp only [hrunning] at hm
      have hne : m ≠ n := by
        rintro rfl
        exact (hlive m q hm).1 hunused
      simp only [hinfos, Function.update_of_ne hne] at hinfo
      exact h.running m q info hm hinfo
    · intro m info hm hinfo
      have hne : m ≠ n := by
        rintro rfl
        exact hother hm
      simp only [hinfos, Function.update_of_ne hne] at hinfo
      exact h.own m info hm hinfo
    · intro hheld
      rcases h.held hheld with hsender | ⟨m, info, hm, hinfo, hzero, hout⟩
      · exact .inl hsender
      · right
        have hne : m ≠ n := by
          rintro rfl
          exact hother hm
        refine ⟨m, info, hm, ?_, hzero, ?_⟩
        · simp only [hinfos, Function.update_of_ne hne]
          exact hinfo
        · simp only [hends]
          exact hout
  · refine ⟨?_, ?_, ?_⟩
    · intro m q info' hm hinfo'
      simp only [hrunning] at hm
      simp only [hinfos] at hinfo'
      rcases List.mem_append.mp hm with hm | hm
      · exact h.running m q info' hm hinfo'
      · obtain ⟨rfl, rfl⟩ := Prod.mk.inj (List.mem_singleton.mp hm)
        rw [hinfo] at hinfo'
        rw [Option.some.inj hinfo']
        exact .inl rfl
    · simp only [hinfos]
      exact h.own
    · simp only [hinfos, hends]
      exact h.held
  · -- a block is freed after its call has returned
    have hn : n ∈ w.callbacks.done := hallowed
    refine ⟨?_, ?_, ?_⟩
    · intro m q info hm hinfo
      simp only [hrunning] at hm
      have hne : m ≠ n := by
        rintro rfl
        exact (hlive m q hm).2.1 hn
      simp only [hinfos, Function.update_of_ne hne] at hinfo
      exact h.running m q info hm hinfo
    · intro m info hm hinfo
      by_cases hne : m = n
      · simp only [hinfos, hne, Function.update_self] at hinfo
        cases hinfo
      · simp only [hinfos, Function.update_of_ne hne] at hinfo
        exact h.own m info hm hinfo
    · intro hheld
      rcases h.held hheld with hsender | ⟨m, info, hm, hinfo, hzero, hout⟩
      · exact .inl hsender
      · right
        have hne : m ≠ n := by
          rintro rfl
          exact hout hn
        refine ⟨m, info, hm, ?_, hzero, ?_⟩
        · simp only [hinfos, Function.update_of_ne hne]
          exact hinfo
        · simp only [hends]
          exact fun hin => hout (List.mem_of_mem_erase hin)

/-- A call that comes back gives the lock back, or is not that of the timeout that the lock
is held until. -/
theorem Awaited.finish (h : Awaited w) {param : Nat} (hrunning : (n, param) ∈ w.callbacks.running)
    {info : UserCallbackInfo} (hinfo : w.callbacks.infos n = some info)
    (hnot : ¬ (info.pCallback = .wakeTimeout ∧ param = 0)) :
    Awaited { w with callbacks := w.callbacks.finish n param } := by
  refine ⟨?_, h.own, ?_⟩
  · exact fun m q info' hm hinfo' => h.running m q info' (List.mem_of_mem_erase hm) hinfo'
  · intro hheld
    rcases h.held hheld with hsender | ⟨m, info', hm, hinfo', hzero, hout⟩
    · exact .inl hsender
    · right
      refine ⟨m, info', hm, hinfo', hzero, ?_⟩
      intro hin
      rcases List.mem_append.mp hin with hin | hin
      · exact hout hin
      · -- it would have been called with its parameter, which is null
        have heq := List.mem_singleton.mp hin
        subst heq
        rw [hinfo] at hinfo'
        cases hinfo'
        apply hnot
        refine ⟨h.own m info hm hinfo, ?_⟩
        have hparam := h.running m param info hrunning hinfo
        omega

theorem awaited (h : Reachable WakeInitial FreshStep w) : Awaited w := by
  have hboth : Reachable WakeInitial WakeStep w ∧ Awaited w := by
    apply h.invariant (P := fun w => Reachable WakeInitial WakeStep w ∧ Awaited w)
    · intro w hinitial
      refine ⟨.init hinitial, ?_⟩
      obtain ⟨callbacks, version, ⟨reactor, -, rfl⟩, rfl⟩ := hinitial
      refine ⟨?_, ?_, ?_⟩
      · exact fun m q info hm => absurd hm List.not_mem_nil
      · intro m info hm
        cases hm
      · intro hheld
        cases hheld
    · rintro w a w' ⟨hreach, hawaited⟩ ⟨hstep, hfresh⟩
      refine ⟨hreach.next a hstep, ?_⟩
      have hcallbacks := callbacks_reachable hreach
      have heffect := wake_effect hstep
      generalize w.allocated a = block at heffect hfresh
      cases heffect with
      | beside b fuel c' hbeside hallowed hrun =>
          exact hawaited.beside hcallbacks hbeside hallowed hrun hfresh
      | enqueued n hthread => exact ⟨hawaited.running, hawaited.own, hawaited.held⟩
      | timedOut n hrunning info hinfo hcallback count hcount =>
          refine ⟨?_, hawaited.own, ?_⟩
          · exact fun m q info hm hinfo =>
              hawaited.running m q info (List.mem_of_mem_erase hm) hinfo
          · exact fun hheld => absurd hheld (by simp)
      | finished n param hrunning info hinfo hnot => exact hawaited.finish hrunning hinfo hnot
      | grabbed hv n senders c' hrenewed =>
          exact hawaited.renew hcallbacks hrenewed (hfresh n rfl) _ _ true false
      | notGrabbed hv senders =>
          exact ⟨hawaited.running, hawaited.own, fun hheld => absurd hheld (by simp)⟩
      | begun hv =>
          exact ⟨hawaited.running, hawaited.own, fun _ => .inl ⟨hv, Nat.succ_pos _⟩⟩
      | ended hv =>
          refine ⟨hawaited.running, hawaited.own, ?_⟩
          intro hheld
          rcases hawaited.held hheld with ⟨hless, -⟩ | hlast
          · exact absurd hless (not_lt.mpr hv)
          · exact .inr hlast
      | scheduled hv n c' hrenewed =>
          exact hawaited.renew hcallbacks hrenewed (hfresh n rfl) _ _ _ _
      | released hv senders =>
          exact ⟨hawaited.running, hawaited.own, fun hheld => absurd hheld (by simp)⟩
      | acknowledged hv hcount => exact ⟨hawaited.running, hawaited.own, hawaited.held⟩
      | releasedLast hv c' hinfos hrunning hdone hreach => exact hawaited.cancel hinfos hrunning 0
  exact hboth.2

end Fresh

/-- Only the last timeout can be one that is not cancelled and still to come. -/
theorem single {w : WakeLock} (h : Reachable WakeInitial WakeStep w) :
    ∀ n info, w.callbacks.infos n = some info → info.pCallback = .wakeTimeout →
      info.userParam = 0 → n ∉ w.callbacks.done → w.sLastWakeTimeoutInfo = some n := by
  apply h.invariant (P := fun w => ∀ n info, w.callbacks.infos n = some info →
    info.pCallback = .wakeTimeout → info.userParam = 0 → n ∉ w.callbacks.done →
      w.sLastWakeTimeoutInfo = some n)
  · rintro w ⟨callbacks, version, ⟨reactor, -, rfl⟩, rfl⟩ n info hinfo
    cases hinfo
  · intro w a w' hsingle hstep
    -- a new timeout is the last, and the one before it has been cancelled
    have hrenew : ∀ m c', Renewed w.callbacks w.sLastWakeTimeoutInfo m c' → ∀ n info,
        c'.infos n = some info → info.pCallback = .wakeTimeout → info.userParam = 0 →
          n ∉ c'.done → some m = some n := by
      intro m c' hrenewed n info hinfo hcallback hzero hout
      rw [hrenewed.infos] at hinfo
      rw [hrenewed.done] at hout
      obtain ⟨info₀, hinfo₀, hcallback₀, ⟨hother, rfl⟩ | ⟨-, hone⟩⟩ := cancelled_eq_some hinfo
      · by_cases hn : n = m
        · rw [hn]
        · rw [Function.update_of_ne hn] at hinfo₀
          exact absurd (hsingle n info hinfo₀ hcallback hzero hout) hother
      · omega
    have heffect := wake_effect hstep
    generalize w.allocated a = block at heffect
    cases heffect with
    | beside b fuel c' hbeside hallowed hrun =>
        intro n info hinfo hcallback hzero hout
        simp only at hinfo hout ⊢
        rcases beside_blocks hbeside hrun with ⟨hinfos, -, hends⟩ |
          ⟨m, f, p, tv, cid, now, rfl, hinfos, -, hends⟩ | ⟨m, info', rfl, -, hinfos, -, hends⟩ |
          ⟨m, rfl, hinfos, -, hends⟩
        · rw [hinfos] at hinfo
          rw [hends] at hout
          exact hsingle n info hinfo hcallback hzero hout
        · rw [hinfos] at hinfo
          rw [hends] at hout
          by_cases hn : n = m
          · rw [hn, Function.update_self] at hinfo
            rw [← Option.some.inj hinfo] at hcallback
            cases hcallback
          · rw [Function.update_of_ne hn] at hinfo
            exact hsingle n info hinfo hcallback hzero hout
        · rw [hinfos] at hinfo
          rw [hends] at hout
          exact hsingle n info hinfo hcallback hzero hout
        · rw [hinfos] at hinfo
          rw [hends] at hout
          by_cases hn : n = m
          · rw [hn, Function.update_self] at hinfo
            cases hinfo
          · rw [Function.update_of_ne hn] at hinfo
            rw [List.mem_erase_of_ne hn] at hout
            exact hsingle n info hinfo hcallback hzero hout
    | timedOut n hrunning info hinfo hcallback count hcount =>
        intro m info hinfo hcallback hzero hout
        exact hsingle m info hinfo hcallback hzero (fun hin => hout (List.mem_append_left _ hin))
    | finished n param hrunning info hinfo hnot =>
        intro m info' hinfo' hcallback hzero hout
        exact hsingle m info' hinfo' hcallback hzero (fun hin => hout (List.mem_append_left _ hin))
    | grabbed hv n senders c' hrenewed => exact hrenew n c' hrenewed
    | scheduled hv n c' hrenewed => exact hrenew n c' hrenewed
    | releasedLast hv c' hinfos hrunning hdone hreach =>
        intro n info hinfo hcallback hzero hout
        simp only [hinfos] at hinfo
        simp only [hdone] at hout
        obtain ⟨info₀, hinfo₀, hcallback₀, ⟨-, rfl⟩ | ⟨-, hone⟩⟩ := cancelled_eq_some hinfo
        · exact hsingle n info hinfo₀ hcallback hzero hout
        · omega
    | _ => exact hsingle

end MeizuM5c.Ril.Events
