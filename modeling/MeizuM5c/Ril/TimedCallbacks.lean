import MeizuM5c.Ril.EventRuns

/-!
Callbacks that are asked for with a time. The block of each holds the event of its timer.
When the timer is due the loop's thread hands the block over to librilmtk, which calls the
callback on a thread of its own and owns the block from then on. A pipe takes the loop out
of `select` when a timer has been added.
-/

namespace MeizuM5c.Ril.Events

open Lib

def RIL_URC : Nat := 0

/-- The channels are numbered from 0, and the enumeration is an unsigned type. -/
def channelId (cid : Int) : Nat := (cid % 2 ^ 32).toNat

inductive Callback where
  | wakeTimeout
  | vendor (function : Nat)
deriving DecidableEq, Repr

structure UserCallbackInfo where
  pCallback : Callback
  userParam : Nat
  cid : Nat
deriving DecidableEq, Repr

/-- The addresses of the functions of the events. -/
def PROCESS_WAKEUP_CALLBACK : Nat := 1

def USER_TIMER_CALLBACK : Nat := 2

/-- The event of the pipe, and the event in a block. -/
def wakeupEvent : Address := .event 0

def infoEvent (n : Nat) : Address := .event (n + 1)

def infoOf : Address → Option Nat
  | .event (n + 1) => some n
  | _ => none

/-- What the loop's thread runs. -/
inductive LoopThread where
  | loop
  | userTimer (n : Nat)
  | wakeup
deriving DecidableEq, Repr

def current : LoopThread → List Nat
  | .userTimer n => [n]
  | _ => []

/-- The callback's block and the wakeup event are told apart by the function and the
parameter of the event. -/
def threadOf (call : Call) : LoopThread :=
  if call.func = USER_TIMER_CALLBACK then .userTimer (call.param - 1) else .wakeup

/-- `wakeupFd` is there once the pipe is, and the loop has `started` once it watches it.
`writers` are the threads that have added a timer and not yet written to the pipe. `queue`
are the blocks that librilmtk was given, `running` the calls that it makes, with their
parameter, and `done` the blocks of the calls that have returned. The rest records the
blocks of the callbacks that were asked for, and of those that were handed over. -/
structure Callbacks where
  reactor : Reactor
  wakeupFd : Option Int := none
  started : Bool := false
  pipe : Nat := 0
  writers : Nat := 0
  thread : LoopThread := .loop
  infos : Nat → Option UserCallbackInfo := fun _ => none
  queue : List Nat := []
  running : List (Nat × Nat) := []
  done : List Nat := []
  requested : List Nat := []
  handedOver : List Nat := []

namespace Callbacks

/-- The event loop's thread adds the event of the pipe before it begins to loop. -/
def addWakeup (fuel : Nat) (fd : Int) (c : Callbacks) : Option Callbacks := do
  let reactor ← exec fuel c.reactor (.rilEventSet 0 fd true PROCESS_WAKEUP_CALLBACK 0)
  let reactor ← exec fuel reactor (.rilEventAdd 0)
  some { c with reactor, started := true }

/-- `calloc` has given the block `n`. -/
def internalRequestTimedCallback (fuel n : Nat) (callback : Callback) (param : Nat)
    (relativeTime : Option Timeval) (cid : Int) (now : Timeval) (c : Callbacks) :
    Option Callbacks := do
  let info : UserCallbackInfo := { pCallback := callback, userParam := param, cid := channelId cid }
  let myRelativeTime := relativeTime.getD ⟨0, 0⟩
  let reactor ← exec fuel c.reactor (.rilEventSet (n + 1) (-1) false USER_TIMER_CALLBACK (n + 1))
  let reactor ← exec fuel reactor (.rilTimerAdd (n + 1) (some myRelativeTime) now)
  some { c with reactor, infos := Function.update c.infos n (some info),
                writers := c.writers + 1, requested := c.requested ++ [n] }

/-- The write of a thread that is not the loop's. Before there is a pipe it is lost. -/
def triggerEvLoop (c : Callbacks) : Callbacks :=
  { c with pipe := if c.wakeupFd.isSome then c.pipe + 1 else c.pipe, writers := c.writers - 1 }

/-- The pipe is read until it is empty. -/
def processWakeupCallback (c : Callbacks) : Callbacks := { c with pipe := 0, thread := .loop }

/-- `enqueue` of librilmtk. -/
def enqueue (n : Nat) (c : Callbacks) : Callbacks :=
  { c with queue := c.queue ++ [n], handedOver := c.handedOver ++ [n], thread := .loop }

/-- A step of the loop, up to the call of an event's function. -/
def loopStep (fuel : Nat) (a : Action) (c : Callbacks) : Option Callbacks := do
  let reactor ← exec fuel c.reactor a
  let calls := reactor.called.drop c.reactor.called.length
  some { c with reactor, thread := calls.foldl (fun _ call => threadOf call.1) c.thread }

/-- librilmtk begins to call a callback, and reads its parameter. -/
def run (n : Nat) (c : Callbacks) : Option Callbacks := do
  let info ← c.infos n
  some { c with queue := c.queue.erase n, running := c.running ++ [(n, info.userParam)] }

def finish (n param : Nat) (c : Callbacks) : Callbacks :=
  { c with running := c.running.erase (n, param), done := c.done ++ [n] }

/-- A block is freed, and the event in it. -/
def release (fuel n : Nat) (c : Callbacks) : Option Callbacks := do
  let reactor ← exec fuel c.reactor (.free (n + 1))
  some { c with reactor, infos := Function.update c.infos n none, done := c.done.erase n }

/-- A write to the parameter in a block. The pointer may be stale: once the block has been
freed, the write changes no block that is in use. -/
def setParam (n param : Nat) (c : Callbacks) : Callbacks :=
  { c with
    infos := Function.update c.infos n
      ((c.infos n).map fun info => { info with userParam := param }) }

end Callbacks

/-- The actions of the loop itself. -/
def Action.ofLoop : Action → Bool
  | .rilEventSet .. => false
  | .rilEventAdd _ => false
  | .rilTimerAdd .. => false
  | .rilEventDel _ => false
  | .free _ => false
  | _ => true

inductive CallbackAction where
  | openPipe (fd : Int)
  | addWakeup (fd : Int)
  | request (n : Nat) (callback : Callback) (param : Nat) (relativeTime : Option Timeval)
      (cid : Int) (now : Timeval)
  | triggerEvLoop
  | loop (a : Action)
  | processWakeupCallback
  | enqueue (n : Nat)
  | run (n : Nat)
  | finish (n param : Nat)
  | release (n : Nat)
  | setParam (n param : Nat)

def perform (fuel : Nat) (c : Callbacks) : CallbackAction → Option Callbacks
  | .openPipe fd => some { c with wakeupFd := some fd }
  | .addWakeup fd => c.addWakeup fuel fd
  | .request n callback param relativeTime cid now =>
      c.internalRequestTimedCallback fuel n callback param relativeTime cid now
  | .triggerEvLoop => some c.triggerEvLoop
  | .loop a => c.loopStep fuel a
  | .processWakeupCallback => some c.processWakeupCallback
  | .enqueue n => some (c.enqueue n)
  | .run n => c.run n
  | .finish n param => some (c.finish n param)
  | .release n => c.release fuel n
  | .setParam n param => some (c.setParam n param)

/-- `calloc` gives a block that is not in use, `pipe` a descriptor that `select` can be
asked for, and the clock does not go back. librilmtk calls each callback that it is given
and frees its block after that. -/
def Allowed (c : Callbacks) : CallbackAction → Prop
  | .openPipe fd => c.wakeupFd = none ∧ fits fd = true
  | .addWakeup fd => c.started = false ∧ c.wakeupFd = some fd
  | .request n _ _ relativeTime _ now => c.infos n = none ∧ c.reactor.clock ≤ now ∧ now.Normal ∧
      (relativeTime.getD ⟨0, 0⟩).Normal
  | .triggerEvLoop => 0 < c.writers
  | .loop a => c.started = true ∧ c.thread = .loop ∧ a.ofLoop = true ∧ Enabled c.reactor a
  | .processWakeupCallback => c.thread = .wakeup
  | .enqueue n => c.thread = .userTimer n
  | .run n => n ∈ c.queue
  | .finish n param => (n, param) ∈ c.running
  | .release n => n ∈ c.done
  | .setParam _ _ => True

def CallbackStep (c : Callbacks) (a : CallbackAction) (c' : Callbacks) : Prop :=
  Allowed c a ∧ ∃ fuel, perform fuel c a = some c'

def CallbackInitial (c : Callbacks) : Prop := ∃ reactor, Initial reactor ∧ c = { reactor }

end MeizuM5c.Ril.Events
