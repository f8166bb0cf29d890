import MeizuM5c.Lib.Transition
import MeizuM5c.Ril.EventWatches

/-!
The loop of the RIL's thread, interleaved with the threads that set events up, add them and
delete them. Each function that takes `listMutex` is one step; the loop reads the set of
descriptors and the first timer, and calls what is pending, without it.
-/

namespace MeizuM5c.Ril.Events

open Lib

/-- Where the loop is, with its local variables. `asked` is when the clock was read to
find out how long to sleep. -/
inductive LoopPc where
  | copy
  | load (rfds : Finset Int)
  | calculate (rfds : Finset Int) (tev : Address)
  | select (rfds : Finset Int) (asked : Timeval) (tv : Option Timeval)
  | timeouts (rfds : Finset Int) (n : Int)
  | readies (rfds : Finset Int) (n : Int)
  | fire
  | firing (ev : Address)
  | stopped

/-- `clock` is when the clock was last read. The rest records which timers were armed,
since the loop last read the first of them also, which events were watched when `select` had
found their descriptors ready, what was moved to the pending events, and the calls, each with
the clock. -/
structure Reactor where
  events : State
  clock : Timeval
  pc : LoopPc := .copy
  armed : List Address := []
  since : List Address := []
  readied : List Address := []
  moved : List Address := []
  called : List (Call × Timeval) := []

inductive Action where
  | rilEventSet (n : Nat) (fd : Int) (persist : Bool) (func param : Nat)
  | rilEventAdd (n : Nat)
  | rilTimerAdd (n : Nat) (tv : Option Timeval) (now : Timeval)
  | rilEventDel (n : Nat)
  | free (n : Nat)
  | copyFds
  | loadTimer
  | calcTimeout (now : Timeval)
  | select (rfds : Finset Int)
  | selectFails (eintr : Bool)
  | processTimeouts (now : Timeval)
  | processReadReadies
  | firePending
  | fireNext

/-- A client frees an event. -/
def free (ev : Address) (s : State) : State :=
  { s with mem := Function.update s.mem ev none }

/-- `n` timers are walked at most in a loop with fuel `n`. -/
def exec (fuel : Nat) (r : Reactor) : Action → Option Reactor
  | .rilEventSet n fd persist func param =>
      some { r with events := rilEventSet (.event n) fd persist func param r.events }
  | .rilEventAdd n => do
      let events ← rilEventAdd (.event n) r.events
      some { r with events }
  | .rilTimerAdd n tv now => do
      let events ← rilTimerAdd fuel (.event n) tv now r.events
      let new := tv.toList.map (fun _ => Address.event n)
      some { r with events, clock := now, armed := r.armed ++ new, since := r.since ++ new }
  | .rilEventDel n => do
      let events ← rilEventDel (.event n) r.events
      some { r with events }
  | .free n => some { r with events := free (.event n) r.events }
  | .copyFds => some { r with pc := .load r.events.readFds }
  | .loadTimer =>
      match r.pc with
      | .load rfds => do
          let tev ← (← r.events.mem .timerList).next
          some { r with pc := .calculate rfds tev, since := [] }
      | _ => none
  | .calcTimeout now =>
      match r.pc with
      | .calculate rfds tev => do
          let tv ← calcNextTimeout tev now r.events
          some { r with pc := .select rfds now tv, clock := now }
      | _ => none
  | .select rfds => some { r with pc := .timeouts rfds rfds.card }
  | .selectFails eintr => some { r with pc := if eintr then .copy else .stopped }
  | .processTimeouts now =>
      match r.pc with
      | .timeouts rfds n => do
          let (moved, events) ← processTimeouts fuel now r.events
          some { r with events, clock := now, moved := r.moved ++ moved, pc := .readies rfds n }
      | _ => none
  | .processReadReadies =>
      match r.pc with
      | .readies rfds n => do
          let (moved, events) ← processReadReadies rfds n r.events
          let readied := r.readied ++ readyList r.events rfds
          some { r with events, moved := r.moved ++ moved, readied, pc := .fire }
      | _ => none
  | .firePending => do
      let ev ← (← r.events.mem .pendingList).next
      some { r with pc := .firing ev }
  | .fireNext =>
      match r.pc with
      | .firing ev =>
          if ev = .pendingList then some { r with pc := .copy } else do
            let (next, call, events) ← fireOne ev r.events
            some { r with events, called := r.called ++ [(call, r.clock)], pc := .firing next }
      | _ => none

/-- An event that is nowhere. -/
def Idle (s : State) (a : Address) : Prop :=
  nextOf s.mem a = none ∧ ∀ i, s.watchTable i ≠ some a

def Timeval.Normal (t : Timeval) : Prop := 0 ≤ t.usec ∧ t.usec < 1000000

instance (t : Timeval) : Decidable t.Normal := inferInstanceAs (Decidable (_ ∧ _))

/-- What the clients keep to: an event is set up, added and freed while it is nowhere, and
no two watch one descriptor. The clock does not go back. `select` answers with some of the
descriptors it was asked for. -/
def Enabled (r : Reactor) : Action → Prop
  | .rilEventSet n _ _ _ _ => Idle r.events (.event n)
  | .rilEventAdd n => Idle r.events (.event n) ∧ ∃ e, r.events.mem (.event n) = some e ∧
      fits e.fd = true ∧ ∀ i, fdAt r.events i ≠ some e.fd
  | .rilTimerAdd n tv now => Idle r.events (.event n) ∧ (∃ e, r.events.mem (.event n) = some e) ∧
      r.clock ≤ now ∧ now.Normal ∧ ∀ t, tv = some t → t.Normal
  | .rilEventDel n => ∃ e, r.events.mem (.event n) = some e
  | .free n => Idle r.events (.event n)
  | .copyFds => r.pc = .copy
  | .loadTimer => ∃ rfds, r.pc = .load rfds
  | .calcTimeout now => (∃ rfds tev, r.pc = .calculate rfds tev) ∧ r.clock ≤ now ∧ now.Normal
  | .select answer => ∃ rfds asked tv, r.pc = .select rfds asked tv ∧ answer ⊆ rfds
  | .selectFails _ => ∃ rfds asked tv, r.pc = .select rfds asked tv
  | .processTimeouts now => (∃ rfds n, r.pc = .timeouts rfds n) ∧ r.clock ≤ now ∧ now.Normal
  | .processReadReadies => ∃ rfds n, r.pc = .readies rfds n
  | .firePending => r.pc = .fire
  | .fireNext => ∃ ev, r.pc = .firing ev

def Step (r : Reactor) (a : Action) (r' : Reactor) : Prop :=
  Enabled r a ∧ ∃ fuel, exec fuel r a = some r'

def Initial (r : Reactor) : Prop :=
  ∃ clock : Timeval, clock.Normal ∧ r = { events := rilEventInit State.static, clock }

end MeizuM5c.Ril.Events
