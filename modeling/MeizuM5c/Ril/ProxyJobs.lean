import MeizuM5c.Lib.LinkedQueue
import MeizuM5c.Lib.Transition
import MeizuM5c.Ril.ChannelMutex

/-!
The jobs of the proxies: `RIL_requestProxyTimedCallbackMtk` allocates a job and sets a
timer, the timer files the job in the list of its channel, and the channel's worker takes
it off and runs it under the channel's mutex. The lists are linked through the jobs
themselves, with a pointer to the first and the last job of each channel.

Every section under `s_proxyQMutex` is one step. A job has the number of the request that
it was made for, since its address may be used again once it has been freed.
-/

namespace MeizuM5c.Ril.Proxy

open Lib Mutex

/-- The address of a block; the null pointer is `none`. -/
abbrev Addr := Nat

abbrev Channel := Fin MTK_CHANNEL_COUNT

/-- A callback and its argument are pointers that nothing here looks into. -/
structure MtkProxyJob where
  cb : Nat
  param : Nat
  ch : Channel
  next : Option Addr := none
  deriving DecidableEq

/-- Where a worker is: in front of `pthread_cond_wait` or in it, with a job that it has
taken off the list, in the callback, and behind it. -/
inductive WorkerAt where
  | waiting
  | took (job : Addr)
  | running (job : Addr)
  | ran (job : Addr)
  deriving DecidableEq

/-- A thread that runs `mtkProxyWorker`. -/
structure Worker where
  thread : Nat
  pos : WorkerAt := .waiting
  deriving DecidableEq

/-- A call of `job->cb(job->param)` by a worker of the channel. -/
structure Run where
  ch : Channel
  thread : Nat
  ticket : Nat
  cb : Nat
  param : Nat
  deriving DecidableEq

/-- A call of `RIL_requestProxyTimedCallbackMtk` that got its job. -/
structure Request where
  cb : Nat
  param : Nat
  proxyId : Int
  deriving DecidableEq

/-- `timers` are the jobs whose timer has been set and has not fired. Below it is what
has happened so far: the requests, which of them a job is for, and what was fired and
run. -/
structure State where
  heap : Addr → Option MtkProxyJob := fun _ => none
  proxyQHead : Channel → Option Addr := fun _ => none
  proxyQTail : Channel → Option Addr := fun _ => none
  proxyWorkerUp : Channel → Bool := fun _ => false
  workers : Channel → List Worker := fun _ => []
  locks : Locks Nat Channel := {}
  timers : List Addr := []
  requests : List Request := []
  ticket : Addr → Nat := fun _ => 0
  fired : List (Channel × Nat) := []
  runs : List Run := []

/-- `job->next`. -/
def State.next (s : State) (job : Addr) : Option Addr := (s.heap job).bind MtkProxyJob.next

section Code

/-- `calloc` has given a block. When the timer cannot be set the job is never fired. -/
def requestProxyTimedCallback (job : Addr) (request : Request) (armed : Bool) (s : State) :
    State :=
  { s with
    heap := Function.update s.heap job
      (some { cb := request.cb, param := request.param, ch := mtkChannelIndex request.proxyId })
    timers := if armed then job :: s.timers else s.timers
    requests := s.requests ++ [request]
    ticket := Function.update s.ticket job s.requests.length }

/-- The job becomes the last of the list, or the first where there is no last. A block
that is not allocated cannot be written to. -/
def enqueue (ch : Channel) (job : Addr) (s : State) : Option State :=
  match s.proxyQTail ch with
  | some last =>
      (s.heap last).map (fun cell =>
        { s with
          heap := Function.update s.heap last (some { cell with next := some job })
          proxyQTail := Function.update s.proxyQTail ch (some job) })
  | none =>
      some { s with
        proxyQHead := Function.update s.proxyQHead ch (some job)
        proxyQTail := Function.update s.proxyQTail ch (some job) }

/-- The worker is created with the first job of its channel, and tried again with the
next one when `pthread_create` fails. -/
def startWorker (ch : Channel) (created : Option Nat) (s : State) : State :=
  if s.proxyWorkerUp ch then s
  else
    match created with
    | some thread =>
        { s with
          proxyWorkerUp := Function.update s.proxyWorkerUp ch true
          workers := Function.update s.workers ch (⟨thread, .waiting⟩ :: s.workers ch) }
    | none => s

def mtkProxyTimerFired (job : Addr) (created : Option Nat) (s : State) : Option State :=
  match s.heap job with
  | none => none
  | some j =>
      let s : State := { s with
        heap := Function.update s.heap job (some { j with next := none })
        timers := s.timers.erase job
        fired := s.fired ++ [(j.ch, s.ticket job)] }
      (enqueue j.ch job s).map (startWorker j.ch created)

/-- The worker of that thread goes on to the next place. -/
def moveWorker (ch : Channel) (thread : Nat) (pos : WorkerAt) (s : State) : State :=
  { s with
    workers := Function.update s.workers ch
      ((s.workers ch).map (fun w => if w.thread = thread then { w with pos } else w)) }

/-- The worker takes the first job, if there is one. -/
def takeJob (ch : Channel) (thread : Nat) (s : State) : Option State :=
  match s.proxyQHead ch with
  | none => none
  | some job =>
      (s.heap job).map (fun j => moveWorker ch thread (.took job)
        { s with
          proxyQHead := Function.update s.proxyQHead ch j.next
          proxyQTail := if j.next = none then Function.update s.proxyQTail ch none
            else s.proxyQTail })

/-- `mtkChannelLock` has returned, and the callback is called. -/
def runJob (ch : Channel) (thread : Nat) (job : Addr) (s : State) : Option State :=
  (s.heap job).map (fun j => moveWorker ch thread (.running job)
    { s with
      locks := s.locks.acquire thread (mtkChannelIndex ch.val)
      runs := s.runs ++ [⟨ch, thread, s.ticket job, j.cb, j.param⟩] })

/-- The callback has returned. -/
def unlockJob (ch : Channel) (thread : Nat) (job : Addr) (s : State) : State :=
  moveWorker ch thread (.ran job)
    { s with locks := s.locks.release thread (mtkChannelIndex ch.val) }

def freeJob (ch : Channel) (thread : Nat) (job : Addr) (s : State) : Option State :=
  (s.heap job).map (fun _ => moveWorker ch thread .waiting
    { s with heap := Function.update s.heap job none })

/-- `lock` and `unlock` are those of other threads, and of a callback that makes calls of
its own. Without a job the callback of a request is left to the event loop. -/
inductive Op where
  | request (job : Option Addr) (request : Request) (armed : Bool)
  | timerFired (job : Addr) (created : Option Nat)
  | take (ch : Channel) (thread : Nat)
  | run (ch : Channel) (thread : Nat) (job : Addr)
  | leave (ch : Channel) (thread : Nat) (job : Addr)
  | free (ch : Channel) (thread : Nat) (job : Addr)
  | lock (thread : Nat) (ch : Channel)
  | unlock (thread : Nat) (ch : Channel)

/-- The step that an operation makes, or a fault. -/
def exec (s : State) : Op → Option State
  | .request (some job) request armed => some (requestProxyTimedCallback job request armed s)
  | .request none _ _ => some s
  | .timerFired job created => mtkProxyTimerFired job created s
  | .take ch thread => takeJob ch thread s
  | .run ch thread job => runJob ch thread job s
  | .leave ch thread job => some (unlockJob ch thread job s)
  | .free ch thread job => freeJob ch thread job s
  | .lock thread ch => some { s with locks := s.locks.acquire thread ch }
  | .unlock thread ch => some { s with locks := s.locks.release thread ch }

/-- A thread that is no worker yet and holds nothing. -/
def Fresh (s : State) (thread : Nat) : Prop :=
  (∀ ch, ∀ w ∈ s.workers ch, w.thread ≠ thread) ∧ s.locks.held thread = []

/-- `calloc` gives a block that is not in use, a timer fires once, a worker goes through
its loop, and a mutex is taken when it is free. A callback gives back what it has taken,
and not the mutex under which it runs. -/
def Enabled (s : State) : Op → Prop
  | .request (some job) _ _ => s.heap job = none
  | .request none _ _ => True
  | .timerFired job created => job ∈ s.timers ∧ ∀ thread, created = some thread → Fresh s thread
  | .take ch thread => ⟨thread, .waiting⟩ ∈ s.workers ch ∧ s.proxyQHead ch ≠ none
  | .run ch thread job => ⟨thread, .took job⟩ ∈ s.workers ch ∧
      s.locks.owner (mtkChannelIndex ch.val) = none
  | .leave ch thread job => ⟨thread, .running job⟩ ∈ s.workers ch ∧
      s.locks.held thread = [mtkChannelIndex ch.val]
  | .free ch thread job => ⟨thread, .ran job⟩ ∈ s.workers ch
  | .lock thread ch => s.locks.owner ch = none ∧
      ∀ other, ∀ w ∈ s.workers other, w.thread = thread → ∃ job, w.pos = .running job
  | .unlock thread ch => ∃ rest, s.locks.held thread = ch :: rest ∧
      ∀ other, ∀ w ∈ s.workers other, w.thread = thread → rest ≠ []

def Step (s : State) (op : Op) (s' : State) : Prop := Enabled s op ∧ exec s op = some s'

end Code

section Law

/-- The jobs of a channel in the order in which they were fired, or run. -/
def State.firedOn (s : State) (ch : Channel) : List Nat :=
  (s.fired.filter (fun e => e.1 = ch)).map Prod.snd

def State.startedOn (s : State) (ch : Channel) : List Nat :=
  (s.runs.filter (fun r => r.ch = ch)).map Run.ticket

/-- The job that a worker has taken and not run yet. -/
def WorkerAt.pending : WorkerAt → Option Addr
  | .took job => some job
  | _ => none

def State.taken (s : State) (ch : Channel) : List Nat :=
  (s.workers ch).filterMap (fun w => w.pos.pending.map s.ticket)

/-- The list of a channel, from its first job on. -/
def State.Queue (s : State) (ch : Channel) (l : List Addr) : Prop :=
  LinkedQueue s.next (s.proxyQHead ch) (s.proxyQTail ch) l

/-- A job of that number is in the list of the channel. -/
def State.Queued (s : State) (ch : Channel) (ticket : Nat) : Prop :=
  ∃ l, s.Queue ch l ∧ ticket ∈ l.map s.ticket

/-- The list of each channel is well formed, and what was fired is what was run, what
the worker has taken, and what is in the list, in this order. There is one worker for a
channel. A job is run once, by the worker of the channel that it was requested for, and
under its mutex. No step faults, and a job leaves the list when the worker takes it. -/
structure ProxyLaw (s : State) : Prop where
  queues : ∀ ch, ∃ l, s.Queue ch l ∧ (∀ job ∈ l, s.heap job ≠ none) ∧
    s.firedOn ch = s.startedOn ch ++ s.taken ch ++ l.map s.ticket
  ends : ∀ ch, s.proxyQTail ch = none ↔ s.proxyQHead ch = none
  oneWorker : ∀ ch, (s.workers ch).length ≤ 1
  once : (s.runs.map Run.ticket).Nodup
  own : ∀ r ∈ s.runs, (∃ w ∈ s.workers r.ch, w.thread = r.thread) ∧
    ∃ request, s.requests[r.ticket]? = some request ∧ r.cb = request.cb ∧
      r.param = request.param ∧ r.ch = mtkChannelIndex request.proxyId
  mutex : ∀ ch thread job, ⟨thread, .running job⟩ ∈ s.workers ch → s.locks.owner ch = some thread
  safe : ∀ op, Enabled s op → exec s op ≠ none
  kept : ∀ op s' ch ticket, Step s op s' → s.Queued ch ticket →
    s'.Queued ch ticket ∨ ∃ thread job, op = .take ch thread ∧
      ⟨thread, .took job⟩ ∈ s'.workers ch ∧ s'.ticket job = ticket

end Law

end MeizuM5c.Ril.Proxy
