import MeizuM5c.Lib.Transition

/-!
The life of a device of `forge_hwc.c`: `fhwc_open`, the thread that reports the vertical
sync, `fhwc_event_control` and `fhwc_close`. The thread reads `vsync_on` and `stop` also
without the lock, so its steps are those between two reads. What the calls of the kernel
answer is a parameter.
-/

namespace MeizuM5c.Hwc.Vsync

open Lib

/-- What a device has taken and not given back. -/
structure Held where
  memory : Bool := false
  dispFd : Bool := false
  fbFd : Bool := false
  session : Bool := false
  geLib : Bool := false
  vsyncThread : Bool := false
deriving DecidableEq

/-- Which calls of `fhwc_open` succeed. -/
structure OpenIo where
  name : Bool
  calloc : Bool
  openDisp : Bool
  openFb : Bool
  createSession : Bool
  getSessionInfo : Bool
  dlopen : Bool
  pthreadCreate : Bool

/-- Whether there is a session, and what is held then. -/
def engineOpenSession (io : OpenIo) (h : Held) : Bool × Held :=
  if io.createSession then (io.getSessionInfo, { h with session := true })
  else (false, h)

/-- Whether there is a device, and what is held then. -/
def fhwcOpen (io : OpenIo) : Bool × Held :=
  if !io.name then (false, {})
  else if !io.calloc then (false, {})
  else if !io.openDisp then (false, {})
  else
    let h : Held := { memory := true, dispFd := true, fbFd := io.openFb }
    let (ok, h) := engineOpenSession io h
    if !ok then (false, { h with fbFd := false, dispFd := false, memory := false })
    else
      let h := { h with geLib := io.dlopen }
      if io.pthreadCreate then (true, { h with vsyncThread := true })
      else (false, { h with dispFd := false, fbFd := false, memory := false })

/-- Where the thread is. From `test` on `last_ts` has been set. -/
inductive Pc where
  | check
  | sleeping
  | look
  | waitVsync
  | clock
  | compare (ts : Int)
  | test (ts : Int)
  | testProcs (ts : Int)
  | call (ts : Int)
  | done
deriving DecidableEq

/-- How far the owner of the device is. -/
inductive Owner where
  | using
  | joining
  | joined
  | closed
deriving DecidableEq

/-- `observed` are the timestamps that the thread has got from the kernel, `calls` those
that it has reported, the first one first. -/
structure Device where
  held : Held
  vsyncOn : Bool := false
  stop : Bool := false
  procs : Bool := false
  pc : Pc := .check
  lastTs : Int := 0
  owner : Owner := .using
  observed : List Int := []
  calls : List Int := []

/-- Where `pthread_cond_signal` leaves the thread. -/
def Pc.signalled (pc : Pc) : Pc := if pc = .sleeping then .check else pc

/-- `pthread_cond_signal`. -/
def Device.signal (d : Device) : Device := { d with pc := d.pc.signalled }

inductive Action where
  | check
  | spuriousWake
  | look
  | waitForVsync (answer : Option Int)
  | readClock (ts : Int)
  | compare
  | test
  | testProcs
  | call
  | registerProcs
  | eventControl (enabled : Bool)
  | close
  | join
  | release
deriving DecidableEq

def perform (d : Device) : Action → Option Device
  -- vsync_thread_fn
  | .check =>
      match d.pc with
      | .check => some { d with pc := if !d.vsyncOn && !d.stop then .sleeping else .look }
      | _ => none
  | .spuriousWake =>
      match d.pc with
      | .sleeping => some { d with pc := .check }
      | _ => none
  | .look =>
      match d.pc with
      | .look => some { d with pc := if d.stop then .done else .waitVsync }
      | _ => none
  | .waitForVsync answer =>
      match d.pc, answer with
      | .waitVsync, none => some { d with pc := .check }
      | .waitVsync, some ts =>
          -- DISP_SLEPT / lcm-disconnected path returns immediately
          if ts = 0 then some { d with pc := .clock }
          else some { d with pc := .compare ts, observed := d.observed ++ [ts] }
      | _, _ => none
  | .readClock ts =>
      match d.pc with
      | .clock => some { d with pc := .compare ts, observed := d.observed ++ [ts] }
      | _ => none
  | .compare =>
      match d.pc with
      | .compare ts =>
          if ts = d.lastTs then some { d with pc := .check }
          else some { d with lastTs := ts, pc := .test ts }
      | _ => none
  | .test =>
      match d.pc with
      | .test ts => some { d with pc := if d.vsyncOn then .testProcs ts else .check }
      | _ => none
  | .testProcs =>
      match d.pc with
      | .testProcs ts => some { d with pc := if d.procs then .call ts else .check }
      | _ => none
  | .call =>
      match d.pc with
      | .call ts => some { d with pc := .check, calls := d.calls ++ [ts] }
      | _ => none
  -- the owner
  | .registerProcs => if d.owner = .using then some { d with procs := true } else none
  | .eventControl enabled =>
      if d.owner = .using then some { d with vsyncOn := enabled }.signal else none
  -- fhwc_close
  | .close =>
      if d.owner = .using then some { d with stop := true, owner := .joining }.signal else none
  | .join =>
      match d.owner, d.pc with
      | .joining, .done =>
          some { d with owner := .joined, held := { d.held with vsyncThread := false } }
      | _, _ => none
  | .release =>
      if d.owner = .joined then
        some { d with owner := .closed,
                      held := { d.held with session := false, fbFd := false, dispFd := false,
                                            geLib := false, memory := false } }
      else none

/-- The device that `fhwc_open` gives. -/
def Initial (d : Device) : Prop := ∃ io, fhwcOpen io = (true, d.held) ∧ d = { held := d.held }

def Step (d : Device) (a : Action) (d' : Device) : Prop := perform d a = some d'

/-- The steps of the thread. -/
def Action.ofThread : Action → Bool
  | .check | .spuriousWake | .look | .waitForVsync _ | .readClock _ | .compare | .test
  | .testProcs | .call => true
  | _ => false

/-- What the thread reports unless there is nobody to report to: it has seen the sync
switched on. -/
def Pc.inFlight : Pc → List Int
  | .testProcs ts | .call ts => [ts]
  | _ => []

/-- The sync is not switched on. -/
def OffStep (d : Device) (a : Action) (d' : Device) : Prop :=
  Step d a d' ∧ a ≠ .eventControl true

end MeizuM5c.Hwc.Vsync
