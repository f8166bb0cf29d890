import MeizuM5c.Ril.CallbackRuns

/-!
The wake lock that is held for the framework. From version 13 on each message that the
framework is to acknowledge counts, and before that only the time runs. A timed callback
gives the lock back when nobody does; it is cancelled by a parameter that is not null, and
only the last one is remembered.
-/

namespace MeizuM5c.Ril.Events

open Lib

def TIMEVAL_WAKE_TIMEOUT : Timeval := ⟨0, 200000⟩

/-- `held` is the lock of the kernel, which does not count. `senders` are the threads that
are in `send_unsolResponse` with a message that wakes, and `lost` records that the last
grab found no memory. -/
structure WakeLock where
  callbacks : Callbacks
  version : Nat
  sLastWakeTimeoutInfo : Option Nat := none
  sWakelockCount : Nat := 0
  held : Bool := false
  senders : Nat := 0
  lost : Bool := false

namespace WakeLock

/-- The write to the block of the last timeout, whose pointer is never reset. -/
def cancelLast (w : WakeLock) : WakeLock :=
  match w.sLastWakeTimeoutInfo with
  | none => w
  | some last => { w with callbacks := w.callbacks.setParam last 1 }

def requestTimeout (fuel n : Nat) (now : Timeval) (w : WakeLock) : Option WakeLock := do
  let callbacks ← w.callbacks.internalRequestTimedCallback fuel n .wakeTimeout 0
    (some TIMEVAL_WAKE_TIMEOUT) (-1) now
  some { w with callbacks }

/-- `pInfo` is the block that `calloc` gives, if any. -/
def grabPartialWakeLock (fuel : Nat) (pInfo : Option Nat) (now : Timeval) (w : WakeLock) :
    Option WakeLock :=
  if w.version ≥ 13 then
    let w : WakeLock := { w with held := true }
    match pInfo with
    | none => some { w with held := false, lost := true }
    | some n => do
        let w ← w.requestTimeout fuel n now
        let w : WakeLock := { w with sWakelockCount := w.sWakelockCount + 1, lost := false }
        some { w.cancelLast with sLastWakeTimeoutInfo := some n }
  else some { w with held := true }

def releaseWakeLock (w : WakeLock) : WakeLock :=
  if w.version ≥ 13 then
    if w.sWakelockCount > 1 then { w with sWakelockCount := w.sWakelockCount - 1 }
    else
      let w : WakeLock := { w with sWakelockCount := 0, held := false }
      w.cancelLast
  else { w with held := false }

def wakeTimeoutCallback (param : Nat) (w : WakeLock) : WakeLock :=
  if w.version ≥ 13 then
    if param = 0 then { w with sWakelockCount := 0, held := false } else w
  else
    if param = 0 then w.releaseWakeLock else w

/-- A callback that is called. What a vendor's function does is not part of this. -/
def call (callback : Callback) (param : Nat) (w : WakeLock) : WakeLock :=
  match callback with
  | .wakeTimeout => w.wakeTimeoutCallback param
  | .vendor _ => w

def userTimerCallback (fuel n : Nat) (w : WakeLock) : Option WakeLock := do
  let info ← w.callbacks.infos n
  if RIL_URC ≤ info.cid then some { w with callbacks := w.callbacks.enqueue n }
  else
    let w := w.call info.pCallback info.userParam
    let w : WakeLock :=
      if w.sLastWakeTimeoutInfo = some n then { w with sLastWakeTimeoutInfo := none } else w
    let callbacks ← Callbacks.release fuel n { w.callbacks with thread := .loop }
    some { w with callbacks }

/-- The end of `send_unsolResponse`, for a message that wakes. -/
def scheduleTimeout (fuel : Nat) (pInfo : Option Nat) (now : Timeval) (w : WakeLock) :
    Option WakeLock :=
  if w.version < 13 then
    match pInfo with
    | none => some w.releaseWakeLock
    | some n => do
        let w ← w.requestTimeout fuel n now
        some { w.cancelLast with sLastWakeTimeoutInfo := some n }
  else some w

/-- A call by librilmtk has come back. -/
def finish (n param : Nat) (w : WakeLock) : Option WakeLock := do
  let info ← w.callbacks.infos n
  let w := w.call info.pCallback param
  some { w with callbacks := w.callbacks.finish n param }

end WakeLock

inductive WakeAction where
  | callbacks (a : CallbackAction)
  | userTimerCallback (n : Nat)
  | finish (n param : Nat)
  | grab (pInfo : Option Nat) (now : Timeval)
  | beginSend (pInfo : Option Nat) (now : Timeval)
  | endSend (pInfo : Option Nat) (now : Timeval)
  | release

def WakeAction.silent : WakeAction → Bool
  | .callbacks _ => true
  | .userTimerCallback _ => true
  | .finish _ _ => true
  | _ => false

def WakeLock.perform (fuel : Nat) (w : WakeLock) : WakeAction → Option WakeLock
  | .callbacks a => do
      let callbacks ← Events.perform fuel w.callbacks a
      some { w with callbacks }
  | .userTimerCallback n => w.userTimerCallback fuel n
  | .finish n param => w.finish n param
  | .grab pInfo now => w.grabPartialWakeLock fuel pInfo now
  | .beginSend pInfo now => do
      let w ← w.grabPartialWakeLock fuel pInfo now
      some { w with senders := w.senders + 1 }
  | .endSend pInfo now => do
      let w ← w.scheduleTimeout fuel pInfo now
      some { w with senders := w.senders - 1 }
  | .release => some w.releaseWakeLock

/-- What goes on beside the wake lock: the loop, librilmtk, and requests of the vendor. -/
def CallbackAction.beside : CallbackAction → Bool
  | .request _ (.vendor _) _ _ _ _ => true
  | .request _ .wakeTimeout _ _ _ _ => false
  | .enqueue _ => false
  | .finish _ _ => false
  | .setParam _ _ => false
  | _ => true

/-- `calloc` gives a block that is not in use, at a time that the clock can show. -/
def Gives (c : Callbacks) (pInfo : Option Nat) (now : Timeval) : Prop :=
  ∀ n, pInfo = some n →
    Allowed c (.request n .wakeTimeout 0 (some TIMEVAL_WAKE_TIMEOUT) (-1) now)

/-- An answer holds the lock from version 13 on. -/
def WakeLock.Allowed (w : WakeLock) : WakeAction → Prop
  | .callbacks a => a.beside = true ∧ Events.Allowed w.callbacks a
  | .userTimerCallback n => w.callbacks.thread = .userTimer n
  | .finish n param => (n, param) ∈ w.callbacks.running
  | .grab pInfo now => w.version ≥ 13 ∧ Gives w.callbacks pInfo now
  | .beginSend pInfo now => Gives w.callbacks pInfo now
  | .endSend pInfo now => 0 < w.senders ∧ Gives w.callbacks pInfo now
  | .release => True

def WakeStep (w : WakeLock) (a : WakeAction) (w' : WakeLock) : Prop :=
  w.Allowed a ∧ ∃ fuel, w.perform fuel a = some w'

def WakeInitial (w : WakeLock) : Prop :=
  ∃ callbacks version, CallbackInitial callbacks ∧ w = { callbacks, version }

/-- The block that `calloc` gives in a step. -/
def WakeLock.allocated (w : WakeLock) : WakeAction → Option Nat
  | .callbacks (.request n _ _ _ _ _) => some n
  | .grab pInfo _ => pInfo
  | .beginSend pInfo _ => if w.version ≥ 13 then pInfo else none
  | .endSend pInfo _ => if w.version < 13 then pInfo else none
  | _ => none

/-- A step in which `calloc` does not give the block of the last timeout again. -/
def FreshStep (w : WakeLock) (a : WakeAction) (w' : WakeLock) : Prop :=
  WakeStep w a w' ∧ ∀ n, w.allocated a = some n → w.sLastWakeTimeoutInfo ≠ some n

/-- A step of the loop, of librilmtk or of the vendor: no message is sent, answered or
acknowledged. -/
def SilentStep (w : WakeLock) (a : WakeAction) (w' : WakeLock) : Prop :=
  WakeStep w a w' ∧ a.silent = true

end MeizuM5c.Ril.Events
