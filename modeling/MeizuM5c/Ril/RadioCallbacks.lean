import MeizuM5c.Lib.RwLock
import MeizuM5c.Lib.Transition

/-!
The callbacks that the framework registers with the radio service, and the threads
that answer through them: requests and indications with `radioServiceRwlock` held, and
errors of `ril_service.cpp` itself without it. A call that fails tells that the
framework is gone, and `checkReturnStatus` drops the callbacks.

Whether the asserts about the lock are compiled in is part of the state.
-/

namespace MeizuM5c.Ril.Radio

open Lib

abbrev SIM_COUNT : Nat := 2

abbrev Slot : Type := Fin SIM_COUNT

inductive Rwlock where
  | radioServiceRwlock
  | radioServiceRwlock2
deriving DecidableEq

/-- The slots are counted from zero. -/
def getRadioServiceRwlock (slotId : Slot) : Rwlock :=
  if slotId.val = 2 then .radioServiceRwlock2 else .radioServiceRwlock

inductive Kind where
  | radio
  | oemHook
deriving DecidableEq

inductive Callback where
  | response
  | indication
deriving DecidableEq

/-- `mRadioResponse` and `mRadioIndication`, or those of the OEM hook. -/
structure Callbacks where
  response : Option Nat := none
  indication : Option Nat := none
deriving DecidableEq

def Callbacks.get (c : Callbacks) : Callback → Option Nat
  | .response => c.response
  | .indication => c.indication

/-- The callbacks, their counter, and how often they have been set and dropped. The counter
is an `int32_t`, and the integer sanitizer ends the process before it could wrap. -/
structure Service where
  callbacks : Callbacks := {}
  counter : Nat := 0
  registrations : Nat := 0
  resets : Nat := 0

/-- What a response function answers through, and whether its caller has the lock. -/
structure Answer where
  slotId : Slot
  kind : Kind
  callback : Callback
  locked : Bool
deriving DecidableEq

/-- Where a thread is: in a response function and its caller, where `on` are the callbacks
through which the call failed, or in `setResponseFunctions`. -/
inductive Pc where
  | idle
  | enter (a : Answer)
  | look (a : Answer)
  | call (a : Answer)
  | failed (a : Answer) (on : Callbacks)
  | unlock (a : Answer) (on : Callbacks) (counter : Nat)
  | wrlock (a : Answer) (on : Callbacks) (counter : Nat)
  | compare (a : Answer) (on : Callbacks) (counter : Nat)
  | unlockReset (a : Answer)
  | rdlock (a : Answer)
  | leave (a : Answer)
  | wrlockSet (slotId : Slot) (kind : Kind) (callbacks : Callbacks)
  | set (slotId : Slot) (kind : Kind) (callbacks : Callbacks)
  | unlockSet (slotId : Slot)
deriving DecidableEq

inductive Ending where
  | nullCall
  | assertFailed

/-- `reading` are the threads that have yet to give back a hold for reading, and `busy`
those that are not idle. -/
structure State where
  asserts : Bool
  rwlocks : Rwlock → RwLock Nat := fun _ => .free
  services : Slot → Kind → Service := fun _ _ => {}
  pc : Nat → Pc := fun _ => .idle
  reading : Finset Nat := ∅
  busy : Finset Nat := ∅
  ended : Option Ending := none

namespace State

/-- The lock of every slot there is. -/
def lock (s : State) : RwLock Nat := s.rwlocks .radioServiceRwlock

def lockOf (s : State) (slotId : Slot) : RwLock Nat := s.rwlocks (getRadioServiceRwlock slotId)

def withLock (s : State) (slotId : Slot) (l : RwLock Nat) : State :=
  { s with rwlocks := Function.update s.rwlocks (getRadioServiceRwlock slotId) l }

def withService (s : State) (slotId : Slot) (kind : Kind) (service : Service) : State :=
  { s with services :=
      Function.update s.services slotId (Function.update (s.services slotId) kind service) }

def move (s : State) (t : Nat) (pc : Pc) : State := { s with pc := Function.update s.pc t pc }

def start (s : State) (t : Nat) (pc : Pc) : State := { s.move t pc with busy := insert t s.busy }

def finish (s : State) (t : Nat) : State := { s.move t .idle with busy := s.busy.erase t }

/-- `pthread_rwlock_unlock` and the assert after it. -/
def unlock (s : State) (t : Nat) (slotId : Slot) : State :=
  match (s.lockOf slotId).unlock t with
  | some l => s.withLock slotId l
  | none => if s.asserts then { s with ended := some .assertFailed } else s

/-- A hold for reading is given back. -/
def unlockRead (s : State) (t : Nat) (slotId : Slot) : State :=
  { s.unlock t slotId with reading := s.reading.erase t }

end State

/-- The callbacks are dropped unless they have been set or dropped since. -/
def Service.reset (service : Service) (counter : Nat) : Service :=
  if counter = service.counter then
    { service with callbacks := {}, counter := service.counter + 1, resets := service.resets + 1 }
  else
    service

def Service.set (service : Service) (callbacks : Callbacks) : Service :=
  { service with callbacks, counter := service.counter + 1,
                 registrations := service.registrations + 1 }

/-- The next step of a thread, `none` where it waits. A call comes back with `ok`. -/
def advance (s : State) (t : Nat) (ok : Bool) : Option State :=
  match s.pc t with
  | .idle => none
  -- RIL_onRequestComplete, RIL_onRequestAck and send_unsolResponse
  | .enter a => do
      let l ← (s.lockOf a.slotId).rdlock
      return { s.withLock a.slotId l with reading := insert t s.reading }.move t (.look a)
  | .leave a => some ((if a.locked then s.unlockRead t a.slotId else s).finish t)
  -- the response function
  | .look a =>
      match (s.services a.slotId a.kind).callbacks.get a.callback with
      | some _ => some (s.move t (.call a))
      | none => some (s.move t (.leave a))
  | .call a =>
      match (s.services a.slotId a.kind).callbacks.get a.callback with
      | some _ =>
          if ok then some (s.move t (.leave a))
          else some (s.move t (.failed a (s.services a.slotId a.kind).callbacks))
      | none => some { s with ended := some .nullCall }
  -- checkReturnStatus
  | .failed a on => some (s.move t (.unlock a on (s.services a.slotId a.kind).counter))
  | .unlock a on counter => some ((s.unlockRead t a.slotId).move t (.wrlock a on counter))
  | .wrlock a on counter => do
      let l ← (s.lockOf a.slotId).wrlock t
      return (s.withLock a.slotId l).move t (.compare a on counter)
  | .compare a _ counter =>
      let service := (s.services a.slotId a.kind).reset counter
      some ((s.withService a.slotId a.kind service).move t (.unlockReset a))
  | .unlockReset a => some ((s.unlock t a.slotId).move t (.rdlock a))
  | .rdlock a => do
      let l ← (s.lockOf a.slotId).rdlock
      let reading := if a.locked then insert t s.reading else s.reading
      return { s.withLock a.slotId l with reading }.move t (.leave a)
  -- setResponseFunctions
  | .wrlockSet slotId kind callbacks => do
      let l ← (s.lockOf slotId).wrlock t
      return (s.withLock slotId l).move t (.set slotId kind callbacks)
  | .set slotId kind callbacks =>
      let service := (s.services slotId kind).set callbacks
      some ((s.withService slotId kind service).move t (.unlockSet slotId))
  | .unlockSet slotId => some ((s.unlock t slotId).finish t)

inductive Action where
  | answer (t : Nat) (a : Answer)
  | setResponseFunctions (t : Nat) (slotId : Slot) (kind : Kind) (callbacks : Callbacks)
  | run (t : Nat) (ok : Bool)

/-- An idle thread begins something, or another one goes on. -/
def perform (s : State) : Action → Option State
  | .answer t a =>
      match s.pc t with
      | .idle => some (s.start t (if a.locked then .enter a else .look a))
      | _ => none
  | .setResponseFunctions t slotId kind callbacks =>
      match s.pc t with
      | .idle => some (s.start t (.wrlockSet slotId kind callbacks))
      | _ => none
  | .run t ok => advance s t ok

/-- After a null call or a failed assert there is no process. -/
def Step (s : State) (a : Action) (s' : State) : Prop :=
  s.ended = none ∧ perform s a = some s'

/-- `registerService` has made the services. -/
def Initial (s : State) : Prop := ∃ asserts, s = { asserts }

/-- The steps of threads that take the lock before they answer. -/
def LockedStep (s : State) (a : Action) (s' : State) : Prop :=
  Step s a s' ∧ ∀ t b, a = .answer t b → b.locked = true

end MeizuM5c.Ril.Radio
