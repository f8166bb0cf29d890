import Mathlib.Data.Finset.Basic
import Mathlib.Data.List.FinRange
import Mathlib.Data.Prod.Lex
import Mathlib.Order.Lattice
import MeizuM5c.Lib.Ring

/-!
The events of the RIL's thread: descriptors that it watches, in a table, and timers, in a
ring that is sorted by deadline. What is due is moved to a second ring and called from
there. A function has no result when it follows a pointer that leads to no event, or puts
a descriptor into a set that has no room for it.
-/

namespace MeizuM5c.Ril.Events

open Lib

def MAX_FD_EVENTS : Nat := 8

def FD_SETSIZE : Int := 1024

/-- The seconds are a `time_t`. A sum or difference beyond its range does not come back: the
library is built with the integer sanitizer, which ends the process. -/
structure Timeval where
  sec : Int
  usec : Int
deriving DecidableEq, Repr

def timeradd (a b : Timeval) : Timeval :=
  let sec := a.sec + b.sec
  let usec := a.usec + b.usec
  if usec ≥ 1000000 then ⟨sec + 1, usec - 1000000⟩ else ⟨sec, usec⟩

def timersub (a b : Timeval) : Timeval :=
  let sec := a.sec - b.sec
  let usec := a.usec - b.usec
  if usec < 0 then ⟨sec - 1, usec + 1000000⟩ else ⟨sec, usec⟩

def timercmp (a b : Timeval) (op : Int → Int → Bool) : Bool :=
  if a.sec = b.sec then op a.usec b.usec else op a.sec b.sec

def less (a b : Int) : Bool := decide (a < b)

def greater (a b : Int) : Bool := decide (a > b)

/-- The heads of the two rings, and the events of the clients. -/
inductive Address where
  | timerList
  | pendingList
  | event (n : Nat)
deriving DecidableEq, Repr

/-- `struct ril_event`. A function or a parameter is an address. -/
structure RilEvent where
  next : Option Address := none
  prev : Option Address := none
  fd : Int := 0
  index : Int := 0
  persist : Bool := false
  timeout : Timeval := ⟨0, 0⟩
  func : Nat := 0
  param : Nat := 0
deriving DecidableEq, Repr

/-- The events that have been set up. -/
abbrev Memory := Address → Option RilEvent

/-- A change of an event that a pointer leads to. -/
def Memory.write (m : Memory) (a : Address) (change : RilEvent → RilEvent) : Option Memory :=
  (m a).map (fun e => Function.update m a (some (change e)))

structure State where
  mem : Memory
  readFds : Finset Int
  nfds : Int
  watchTable : Fin MAX_FD_EVENTS → Option Address

/-- `FD_SET`, `FD_CLR` and `FD_ISSET` are for the descriptors that fit. -/
def fits (fd : Int) : Bool := decide (0 ≤ fd) && decide (fd < FD_SETSIZE)

def fdSet (fd : Int) (set : Finset Int) : Option (Finset Int) :=
  if fits fd then some (insert fd set) else none

def fdClr (fd : Int) (set : Finset Int) : Option (Finset Int) :=
  if fits fd then some (set.erase fd) else none

def fdIsset (fd : Int) (set : Finset Int) : Option Bool :=
  if fits fd then some (decide (fd ∈ set)) else none

section Lists

def initList (list : Address) (m : Memory) : Memory :=
  Function.update m list (some { next := some list, prev := some list, fd := -1 })

/-- `ev` is put in front of `list`. -/
def addToList (ev list : Address) (m : Memory) : Option Memory := do
  let m ← m.write ev (fun e => { e with next := some list })
  let before ← (← m list).prev
  let m ← m.write ev (fun e => { e with prev := some before })
  let m ← m.write before (fun e => { e with next := some ev })
  m.write list (fun e => { e with prev := some ev })

def removeFromList (ev : Address) (m : Memory) : Option Memory := do
  let e ← m ev
  let next ← e.next
  let m ← m.write next (fun n => { n with prev := e.prev })
  let e ← m ev
  let prev ← e.prev
  let m ← m.write prev (fun p => { p with next := e.next })
  let m ← m.write ev (fun e => { e with next := none })
  m.write ev (fun e => { e with prev := none })

end Lists

/-- The highest descriptor in the table, and `n` at least. -/
def highestFd (m : Memory) : List (Option Address) → Int → Option Int
  | [], n => some n
  | none :: slots, n => highestFd m slots n
  | some rev :: slots, n => do
      let e ← m rev
      highestFd m slots (if e.fd > n then e.fd else n)

def State.slots (s : State) : List (Option Address) :=
  (List.finRange MAX_FD_EVENTS).map s.watchTable

def removeWatch (ev : Address) (index : Fin MAX_FD_EVENTS) (s : State) : Option State := do
  let s : State := { s with watchTable := Function.update s.watchTable index none }
  let mem ← s.mem.write ev (fun e => { e with index := -1 })
  let e ← mem ev
  let readFds ← fdClr e.fd s.readFds
  let s : State := { s with mem, readFds }
  if e.fd + 1 = s.nfds then
    let n ← highestFd mem s.slots 0
    some { s with nfds := n + 1 }
  else some s

/-- The loop of `processTimeouts` from the timer `tev` on, with the timers that it moves. -/
def expire (now : Timeval) : Nat → Address → Memory → Option (List Address × Memory)
  | 0, _, _ => none
  | fuel + 1, tev, m =>
      if tev = .timerList then some ([], m) else do
        let e ← m tev
        if timercmp now e.timeout greater then
          let next ← e.next
          let m ← removeFromList tev m
          let m ← addToList tev .pendingList m
          let (moved, m) ← expire now fuel next m
          some (tev :: moved, m)
        else some ([], m)

def processTimeouts (fuel : Nat) (now : Timeval) (s : State) : Option (List Address × State) := do
  let tev ← (← s.mem .timerList).next
  let (moved, mem) ← expire now fuel tev s.mem
  some (moved, { s with mem })

/-- The loop of `processReadReadies` over the rest of the table, with the events that it
moves. -/
def readReadies (rfds : Finset Int) :
    List (Fin MAX_FD_EVENTS) → Int → State → Option (List Address × State)
  | [], _, s => some ([], s)
  | i :: rest, n, s =>
      if n > 0 then
        match s.watchTable i with
        | none => readReadies rfds rest n s
        | some rev => do
            let e ← s.mem rev
            if ← fdIsset e.fd rfds then
              let mem ← addToList rev .pendingList s.mem
              let s : State := { s with mem }
              let s ← if e.persist = false then removeWatch rev i s else some s
              let (moved, s) ← readReadies rfds rest (n - 1) s
              some (rev :: moved, s)
            else readReadies rfds rest n s
      else some ([], s)

def processReadReadies (rfds : Finset Int) (n : Int) (s : State) :
    Option (List Address × State) :=
  readReadies rfds (List.finRange MAX_FD_EVENTS) n s

/-- A call of an event's function. -/
structure Call where
  ev : Address
  func : Nat
  fd : Int
  param : Nat
  timeout : Timeval
deriving DecidableEq, Repr

/-- One round of the loop of `firePending`, up to the call and with it. The event that
follows is read before. -/
def fireOne (ev : Address) (s : State) : Option (Address × Call × State) := do
  let next ← (← s.mem ev).next
  let mem ← removeFromList ev s.mem
  let e ← mem ev
  some (next, ⟨ev, e.func, e.fd, e.param, e.timeout⟩, { s with mem })

/-- `calcNextTimeout` after it has read the first timer. -/
def calcNextTimeout (tev : Address) (now : Timeval) (s : State) : Option (Option Timeval) :=
  if tev = .timerList then some none else do
    let e ← s.mem tev
    if timercmp e.timeout now greater then some (some (timersub e.timeout now))
    else some (some ⟨0, 0⟩)

/-- Static memory before `ril_event_init`. -/
def State.static : State where
  mem := fun a => match a with
    | .event _ => none
    | _ => some {}
  readFds := ∅
  nfds := 0
  watchTable := fun _ => none

def rilEventInit (s : State) : State :=
  { s with
    readFds := ∅
    mem := initList .pendingList (initList .timerList s.mem)
    watchTable := fun _ => none }

def rilEventSet (ev : Address) (fd : Int) (persist : Bool) (func param : Nat) (s : State) : State :=
  { s with mem := Function.update s.mem ev (some { fd, index := -1, persist, func, param }) }

/-- The first free slot. -/
def freeSlot (s : State) : Option (Fin MAX_FD_EVENTS) :=
  (List.finRange MAX_FD_EVENTS).find? (fun i => (s.watchTable i).isNone)

def rilEventAdd (ev : Address) (s : State) : Option State :=
  match freeSlot s with
  | none => some s
  | some i => do
      let mem ← s.mem.write ev (fun e => { e with index := (i : Nat) })
      let e ← mem ev
      let readFds ← fdSet e.fd s.readFds
      some { mem, readFds
             nfds := if e.fd ≥ s.nfds then e.fd + 1 else s.nfds
             watchTable := Function.update s.watchTable i (some ev) }

/-- The first timer from `list` on that is not earlier than `ev`, or the head. -/
def placeOf (ev : Address) (m : Memory) : Nat → Address → Option Address
  | 0, _ => none
  | fuel + 1, list => do
      let l ← m list
      let e ← m ev
      if timercmp l.timeout e.timeout less ∧ list ≠ .timerList then
        placeOf ev m fuel (← l.next)
      else some list

def rilTimerAdd (fuel : Nat) (ev : Address) (tv : Option Timeval) (now : Timeval) (s : State) :
    Option State :=
  match tv with
  | none => some s
  | some tv => do
      let list ← (← s.mem .timerList).next
      let mem ← s.mem.write ev (fun e => { e with fd := -1 })
      let mem ← mem.write ev (fun e => { e with timeout := timeradd now tv })
      let list ← placeOf ev mem fuel list
      let mem ← addToList ev list mem
      some { s with mem }

def rilEventDel (ev : Address) (s : State) : Option State := do
  let e ← s.mem ev
  if h : 0 ≤ e.index ∧ e.index < MAX_FD_EVENTS then
    removeWatch ev ⟨e.index.toNat, by omega⟩ s
  else some s

end MeizuM5c.Ril.Events
