import MeizuM5c.Lib.Locks
import MeizuM5c.Lib.MachineInt
import MeizuM5c.Ril.ChannelQueue

/-!
The mutexes of the AT channels and the threads that enter the vendor's library:
binder threads through `my_enqueue`, the workers of the proxies, callers of
`mtkOnRequestLocked` and the MAL server. A thread that is inside the vendor may
complete requests, and a completion may give the next request of a queue to the
vendor on the same thread.

Whether the build has `RIL_CHANNEL_QUEUING` is a parameter. The channel of a MAL
request is the one that the vendor sends it on, which `malDispatch` locks.
-/

namespace MeizuM5c.Ril.Mutex

open Lib Pending Channel

abbrev MTK_CHANNEL_COUNT : Nat := 24

def mtkChannelIndex (cid : Int) : Fin MTK_CHANNEL_COUNT :=
  if cid < 0 then 0 else Fin.ofNat MTK_CHANNEL_COUNT cid.toNat

/-- The URC channel of the SIM. -/
def malChannel (simId : UInt32) : Int := wrapInt 32 (wrapInt 32 simId.toNat * 6)

/-- A call of the vendor, for a request or a callback of a channel, and whether
it was made under the channel's mutex. -/
structure Call where
  channel : Int
  locked : Bool
deriving DecidableEq

/-- `inside` are the calls that a thread is in, innermost first, and `asks` is the
channel for which it waits in `mtkChannelLock`. -/
structure State where
  locks : Locks Nat (Fin MTK_CHANNEL_COUNT) := {}
  inside : Nat → List Call := fun _ => []
  asks : Nat → Option Int := fun _ => none
  queues : Queues Pending.RequestInfo := {}

def State.idle (σ : State) (t : Nat) : Prop := σ.inside t = [] ∧ σ.asks t = none

inductive Op where
  | myEnqueue (t : Nat) (request : Int) (bf : BufFmt) (pRI : Pending.RequestInfo)
  | mtkOnRequestLocked (t : Nat) (pRI : Option Pending.RequestInfo)
  | mtkProxyWorker (t : Nat) (proxyId : Int)
  | timedCallback (t : Nat) (proxyId : Int)
  | malDispatch (t : Nat) (simId : UInt32)
  | acquire (t : Nat)
  | onRequestComplete (t : Nat) (pRI : Pending.RequestInfo)
  | leave (t : Nat)

/-- `mtkChannelLock`, up to the moment the thread has the mutex. -/
def mtkChannelLock (σ : State) (t : Nat) (channel : Int) : State :=
  { σ with
    locks := σ.locks.ask t (mtkChannelIndex channel)
    asks := Function.update σ.asks t (some channel) }

/-- The thread has the mutex and calls the vendor. -/
def acquire (σ : State) (t : Nat) : State :=
  match σ.asks t with
  | some channel =>
      { σ with
        locks := σ.locks.acquire t (mtkChannelIndex channel)
        inside := Function.update σ.inside t (⟨channel, true⟩ :: σ.inside t)
        asks := Function.update σ.asks t none }
  | none => σ

/-- The innermost call returns, and a mutex that was taken for it is given back. -/
def leave (σ : State) (t : Nat) : State :=
  match σ.inside t with
  | call :: rest =>
      { σ with
        inside := Function.update σ.inside t rest
        locks :=
          if call.locked then σ.locks.release t (mtkChannelIndex call.channel) else σ.locks }
  | [] => σ

/-- A call of the vendor that takes no mutex. -/
def enter (σ : State) (t : Nat) (channel : Int) : State :=
  { σ with inside := Function.update σ.inside t (⟨channel, false⟩ :: σ.inside t) }

section Build

variable (queuing : Bool)

/-- The lane in whose queue `my_enqueue` looks. -/
def queueLane (bf : BufFmt) (pRI : Pending.RequestInfo) : Option Lane :=
  if queuing = false ∨ bf = .ignore then none else laneOf pRI.socketId pRI.pCI.proxyId

/-- Whether `my_enqueue` leaves the request in a queue. -/
def waits (σ : State) (request : Int) (bf : BufFmt) (pRI : Pending.RequestInfo) : Bool :=
  match queueLane queuing bf pRI with
  | some lane => σ.queues.pending lane request
  | none => false

/-- The queues after `my_enqueue`. -/
def queuesWith (σ : State) (request : Int) (bf : BufFmt) (pRI : Pending.RequestInfo) :
    Queues Pending.RequestInfo :=
  match queueLane queuing bf pRI with
  | some lane => σ.queues.enqueue lane request pRI
  | none => σ.queues

/-- A request that does not wait goes to the vendor at once. -/
def myEnqueue (σ : State) (t : Nat) (request : Int) (bf : BufFmt) (pRI : Pending.RequestInfo) :
    State :=
  let σ' : State := { σ with queues := queuesWith queuing σ request bf pRI }
  if waits queuing σ request bf pRI then σ' else enter σ' t pRI.cid

/-- The end of `RIL_onRequestComplete`: with queues, `my_dequeue` calls
`mtkOnRequestLocked` for the next request. -/
def onRequestComplete (σ : State) (t : Nat) (pRI : Pending.RequestInfo) : State :=
  match queueLane queuing .void pRI with
  | some lane =>
      let (p, queues) := σ.queues.complete lane
      match p with
      | some p => mtkChannelLock { σ with queues } t p.cid
      | none => { σ with queues }
  | none => σ

/-- A thread that waits for a mutex does nothing else. -/
def Enabled (σ : State) : Op → Prop
  | .myEnqueue t _ _ _ => σ.idle t
  | .mtkOnRequestLocked t _ => σ.idle t
  | .mtkProxyWorker t _ => σ.idle t
  | .timedCallback t _ => σ.idle t
  | .malDispatch t _ => σ.idle t
  | .acquire t =>
      ∃ channel, σ.asks t = some channel ∧ σ.locks.owner (mtkChannelIndex channel) = none
  | .onRequestComplete t _ => σ.asks t = none
  | .leave t => σ.asks t = none

/-- A worker runs its job under the index that the job was filed with. When there
was no memory for the job, the event loop runs the callback itself. -/
def next (σ : State) : Op → State
  | .myEnqueue t request bf pRI => myEnqueue queuing σ t request bf pRI
  | .mtkOnRequestLocked t pRI => mtkChannelLock σ t ((pRI.map fun r => (r.cid : Int)).getD 0)
  | .mtkProxyWorker t proxyId => mtkChannelLock σ t (mtkChannelIndex proxyId).val
  | .timedCallback t proxyId => enter σ t proxyId
  | .malDispatch t simId => mtkChannelLock σ t (malChannel simId)
  | .acquire t => acquire σ t
  | .onRequestComplete t pRI => onRequestComplete queuing σ t pRI
  | .leave t => leave σ t

def Step (σ : State) (op : Op) (τ : State) : Prop := Enabled σ op ∧ τ = next queuing σ op

/-- A step that keeps the channels apart: `my_enqueue` leaves its request in a
queue, no callback runs on the event loop, and a completion that finds a request
waiting is not made by a thread that holds the mutex of that request's channel. -/
def Allowed (σ : State) : Op → Prop
  | .myEnqueue _ request bf pRI => waits queuing σ request bf pRI = true
  | .timedCallback _ _ => False
  | .onRequestComplete t pRI => ∀ lane p rest, queueLane queuing .void pRI = some lane →
      σ.queues.queue lane = p :: rest → σ.locks.owner (mtkChannelIndex p.cid) ≠ some t
  | _ => True

def AllowedStep (σ : State) (op : Op) (τ : State) : Prop :=
  Step queuing σ op τ ∧ Allowed queuing σ op

end Build

/-- No thread is inside. The queues may hold anything; at the start of the program
they are empty. -/
def Initial (σ : State) : Prop := ∃ queues, σ = { queues }

/-- Who is inside a channel holds its mutex, no two threads are inside one
channel, and no thread asks for a mutex that it holds. -/
structure ExclusionLaw (σ : State) : Prop where
  holds : ∀ t, ∀ call ∈ σ.inside t, σ.locks.owner (mtkChannelIndex call.channel) = some t
  exclusive : ∀ t u, ∀ call ∈ σ.inside t, ∀ other ∈ σ.inside u,
    mtkChannelIndex call.channel = mtkChannelIndex other.channel → t = u
  no_relock : ∀ t channel, σ.asks t = some channel →
    σ.locks.owner (mtkChannelIndex channel) ≠ some t

section Invariant

/-- The locks of a thread are those of the channels that it is inside. -/
structure Inv (σ : State) : Prop where
  sound : σ.locks.Sound
  held : ∀ t, σ.locks.held t = (σ.inside t).map fun call => mtkChannelIndex call.channel
  locked : ∀ t, ∀ call ∈ σ.inside t, call.locked = true
  wants : ∀ t, σ.locks.wants t = (σ.asks t).map mtkChannelIndex

theorem Inv.initial {σ : State} (h : Initial σ) : Inv σ := by
  obtain ⟨queues, rfl⟩ := h
  exact ⟨.initial, fun _ => rfl, fun _ _ hcall => absurd hcall List.not_mem_nil, fun _ => rfl⟩

theorem Inv.mem_held {σ : State} (h : Inv σ) {t : Nat} {call : Call} (hcall : call ∈ σ.inside t) :
    mtkChannelIndex call.channel ∈ σ.locks.held t := by
  rw [h.held t]
  exact List.mem_map.mpr ⟨call, hcall, rfl⟩

theorem Inv.law {σ : State} (h : Inv σ) : ExclusionLaw σ := by
  refine ⟨fun t call hcall => ?_, fun t u call hcall other hother heq => ?_,
    fun t channel hasks => ?_⟩
  · exact (h.sound.owner _ t).mpr (h.mem_held hcall)
  · have hu := h.mem_held hother
    rw [← heq] at hu
    exact h.sound.exclusive (h.mem_held hcall) hu
  · intro howner
    have hwants := h.wants t
    rw [hasks, Option.map_some] at hwants
    exact h.sound.wants t _ hwants ((h.sound.owner _ t).mp howner)

/-- A thread that is idle holds no mutex. -/
theorem Inv.held_idle {σ : State} (h : Inv σ) {t : Nat} (hidle : σ.idle t) :
    σ.locks.held t = [] := by
  rw [h.held t, hidle.1, List.map_nil]

theorem Inv.of_queues {σ : State} (h : Inv σ) (queues : Queues Pending.RequestInfo) :
    Inv { σ with queues } :=
  ⟨h.sound, h.held, h.locked, h.wants⟩

theorem Inv.mtkChannelLock {σ : State} (h : Inv σ) {t : Nat} {channel : Int}
    (hfree : mtkChannelIndex channel ∉ σ.locks.held t) : Inv (mtkChannelLock σ t channel) := by
  refine ⟨h.sound.ask hfree, h.held, h.locked, fun u => ?_⟩
  simp only [Mutex.mtkChannelLock, Locks.ask]
  by_cases hu : u = t
  · rw [hu, Function.update_self, Function.update_self, Option.map_some]
  · rw [Function.update_of_ne hu, Function.update_of_ne hu]
    exact h.wants u

theorem Inv.mtkChannelLock_idle {σ : State} (h : Inv σ) {t : Nat} (hidle : σ.idle t)
    (channel : Int) : Inv (Mutex.mtkChannelLock σ t channel) := by
  apply h.mtkChannelLock
  rw [h.held_idle hidle]
  exact List.not_mem_nil

theorem Inv.acquire {σ : State} (h : Inv σ) {t : Nat} {channel : Int}
    (hasks : σ.asks t = some channel) (hfree : σ.locks.owner (mtkChannelIndex channel) = none) :
    Inv (acquire σ t) := by
  simp only [Mutex.acquire, hasks]
  refine ⟨h.sound.acquire hfree, fun u => ?_, fun u call hcall => ?_, fun u => ?_⟩
  · simp only [Locks.acquire]
    by_cases hu : u = t
    · rw [hu, Function.update_self, Function.update_self, List.map_cons, h.held t]
    · rw [Function.update_of_ne hu, Function.update_of_ne hu]
      exact h.held u
  · simp only at hcall
    by_cases hu : u = t
    · subst hu
      rw [Function.update_self] at hcall
      rcases List.mem_cons.mp hcall with rfl | hcall
      · rfl
      · exact h.locked u call hcall
    · rw [Function.update_of_ne hu] at hcall
      exact h.locked u call hcall
  · simp only [Locks.acquire]
    by_cases hu : u = t
    · rw [hu, Function.update_self, Function.update_self, Option.map_none]
    · rw [Function.update_of_ne hu, Function.update_of_ne hu]
      exact h.wants u

theorem Inv.leave {σ : State} (h : Inv σ) (t : Nat) : Inv (leave σ t) := by
  cases hinside : σ.inside t with
  | nil =>
      simp only [Mutex.leave, hinside]
      exact h
  | cons call rest =>
      have hlocked : call.locked = true := h.locked t call (by simp [hinside])
      have hheld := h.held t
      rw [hinside, List.map_cons] at hheld
      simp only [Mutex.leave, hinside, hlocked, if_true]
      refine ⟨h.sound.release hheld, fun u => ?_, fun u other hother => ?_, h.wants⟩
      · simp only [Locks.release]
        by_cases hu : u = t
        · rw [hu, Function.update_self, Function.update_self, hheld, List.tail_cons]
        · rw [Function.update_of_ne hu, Function.update_of_ne hu]
          exact h.held u
      · simp only at hother
        by_cases hu : u = t
        · subst hu
          rw [Function.update_self] at hother
          exact h.locked u other (hinside ▸ List.mem_cons_of_mem call hother)
        · rw [Function.update_of_ne hu] at hother
          exact h.locked u other hother

end Invariant

section Runs

variable (queuing : Bool)

/-- An idle thread that calls the vendor without a mutex breaks the law. -/
theorem Inv.not_law_enter {σ : State} (h : Inv σ) {t : Nat} (hidle : σ.idle t) (channel : Int) :
    ¬ExclusionLaw (enter σ t channel) := by
  intro hlaw
  have howner := hlaw.holds t ⟨channel, false⟩ (by simp [enter])
  have hheld := (h.sound.owner _ t).mp howner
  rw [h.held_idle hidle] at hheld
  exact List.not_mem_nil hheld

/-- What a completion does: nothing to the locks, or it asks for the mutex of the
request that it takes from a queue. -/
theorem onRequestComplete_cases (σ : State) (t : Nat) (pRI : Pending.RequestInfo) :
    (∃ queues, onRequestComplete queuing σ t pRI = { σ with queues }) ∨
      ∃ lane p rest, queueLane queuing .void pRI = some lane ∧ σ.queues.queue lane = p :: rest ∧
        ∃ queues, onRequestComplete queuing σ t pRI =
          mtkChannelLock { σ with queues } t p.cid := by
  unfold onRequestComplete
  cases hlane : queueLane queuing .void pRI with
  | none => exact .inl ⟨σ.queues, rfl⟩
  | some lane =>
      cases hqueue : σ.queues.queue lane with
      | nil =>
          left
          refine ⟨(σ.queues.complete lane).2, ?_⟩
          simp only [complete_nil hqueue]
      | cons p rest =>
          right
          refine ⟨lane, p, rest, rfl, hqueue, (σ.queues.complete lane).2, ?_⟩
          simp only [complete_cons hqueue]

theorem Inv.next {σ τ : State} {op : Op} (h : Inv σ) (hstep : AllowedStep queuing σ op τ) :
    Inv τ := by
  obtain ⟨⟨henabled, rfl⟩, hallowed⟩ := hstep
  cases op with
  | myEnqueue t request bf pRI =>
      have hwaits : waits queuing σ request bf pRI = true := hallowed
      simp only [Mutex.next, myEnqueue, hwaits, if_true]
      exact h.of_queues _
  | mtkOnRequestLocked t pRI => exact h.mtkChannelLock_idle henabled _
  | mtkProxyWorker t proxyId => exact h.mtkChannelLock_idle henabled _
  | timedCallback t proxyId => exact absurd hallowed not_false
  | malDispatch t simId => exact h.mtkChannelLock_idle henabled _
  | acquire t =>
      obtain ⟨channel, hasks, hfree⟩ := henabled
      exact h.acquire hasks hfree
  | onRequestComplete t pRI =>
      simp only [Mutex.next]
      rcases onRequestComplete_cases queuing σ t pRI with
        ⟨queues, heq⟩ | ⟨lane, p, rest, hlane, hqueue, queues, heq⟩
      · rw [heq]
        exact h.of_queues queues
      · rw [heq]
        refine (h.of_queues queues).mtkChannelLock fun hheld => ?_
        exact hallowed lane p rest hlane hqueue ((h.sound.owner _ t).mpr hheld)
  | leave t => exact h.leave t

/-- The condition is what it takes: after any other step the law is broken. -/
theorem Inv.allowed {σ τ : State} {op : Op} (h : Inv σ) (hstep : Step queuing σ op τ)
    (hlaw : ExclusionLaw τ) : Allowed queuing σ op := by
  obtain ⟨henabled, rfl⟩ := hstep
  cases op with
  | myEnqueue t request bf pRI =>
      by_contra hdirect
      have hdirect' : ¬waits queuing σ request bf pRI = true := hdirect
      simp only [Mutex.next, myEnqueue, if_neg hdirect'] at hlaw
      have hqueues := h.of_queues (queuesWith queuing σ request bf pRI)
      exact hqueues.not_law_enter henabled pRI.cid hlaw
  | timedCallback t proxyId => exact absurd hlaw (h.not_law_enter henabled proxyId)
  | onRequestComplete t pRI =>
      intro lane p rest hlane hqueue howner
      have hnext : Mutex.next queuing σ (.onRequestComplete t pRI) =
          Mutex.mtkChannelLock { σ with queues := (σ.queues.complete lane).2 } t p.cid := by
        simp only [Mutex.next, onRequestComplete, hlane, complete_cons hqueue]
      rw [hnext] at hlaw
      refine hlaw.no_relock t p.cid ?_ howner
      simp only [Mutex.mtkChannelLock, Function.update_self]
  | mtkOnRequestLocked t pRI => exact trivial
  | mtkProxyWorker t proxyId => exact trivial
  | malDispatch t simId => exact trivial
  | acquire t => exact trivial
  | leave t => exact trivial

/-- In a run of allowed steps the channels are exclusive, and the first step that
is not allowed ends that. -/
theorem channel_exclusion_law {σ : State} (h : Reachable Initial (AllowedStep queuing) σ) :
    ExclusionLaw σ ∧
      ∀ op τ, Step queuing σ op τ → (ExclusionLaw τ ↔ Allowed queuing σ op) := by
  have hinv : Inv σ :=
    h.invariant (fun _ hs => Inv.initial hs) fun _ _ _ hs hstep => hs.next queuing hstep
  refine ⟨hinv.law, fun op τ hstep => ⟨hinv.allowed queuing hstep, fun hallowed => ?_⟩⟩
  exact (hinv.next queuing ⟨hstep, hallowed⟩).law

end Runs

section Traces

def run (queuing : Bool) (ops : List Op) : State := ops.foldl (next queuing) {}

/-- `GET_SIM_STATUS` of the first slot, on channel 3. -/
def simStatus : Pending.RequestInfo := newRequest (fun _ => ⟨1, true, .proxy1⟩) 0 0 7 .socket1 1

def enqueue (t : Nat) : Op := .myEnqueue t 1 .void simStatus

/-- A request under the mutex of its channel, and a callback that waits for it. -/
def lockedRequest : List Op :=
  [.mtkOnRequestLocked 0 (some simStatus), .acquire 0, .mtkProxyWorker 1 3]

/-- The worker of the channel is inside under the mutex when the binder thread issues a
request. -/
def besideWorker : List Op := [.mtkProxyWorker 1 3, .acquire 1, enqueue 0]

/-- Three requests, of which two have to wait. A thread of the vendor completes
the first; the second is completed before its `onRequest` returns. -/
def synchronousCompletion : List Op :=
  [enqueue 0, .leave 0, enqueue 0, enqueue 0, .onRequestComplete 1 simStatus, .acquire 1,
    .onRequestComplete 1 simStatus]

theorem locked_request_excludes :
    (run false lockedRequest).inside 0 = [⟨3, true⟩] ∧
      (run false lockedRequest).asks 1 = some 3 ∧ ExclusionLaw (run false lockedRequest) := by
  refine ⟨by decide +kernel, by decide +kernel, ?_⟩
  refine (channel_exclusion_law false ?_).1
  have hinit : Reachable Initial (AllowedStep false) {} := .init ⟨_, rfl⟩
  have hasks := hinit.next (.mtkOnRequestLocked 0 (some simStatus)) ⟨⟨⟨rfl, rfl⟩, rfl⟩, trivial⟩
  have hinside := hasks.next (.acquire 0) ⟨⟨⟨3, rfl, rfl⟩, rfl⟩, trivial⟩
  exact hinside.next (.mtkProxyWorker 1 3) ⟨⟨⟨rfl, rfl⟩, rfl⟩, trivial⟩

/-- The binder thread and the worker are inside one channel. With queues, a synchronous
completion makes a thread lock a mutex that it holds. -/
theorem enqueue_bypasses_mutex :
    (Reachable Initial (Step false) (run false besideWorker) ∧
      ¬ExclusionLaw (run false besideWorker)) ∧
      Reachable Initial (Step true) (run true synchronousCompletion) ∧
      ¬ExclusionLaw (run true synchronousCompletion) := by
  refine ⟨⟨?_, fun hlaw => ?_⟩, ?_, fun hlaw => ?_⟩
  · have hinit : Reachable Initial (Step false) {} := .init ⟨_, rfl⟩
    have hasks := hinit.next (.mtkProxyWorker 1 3) ⟨⟨rfl, rfl⟩, rfl⟩
    have hworking := hasks.next (.acquire 1) ⟨⟨3, rfl, rfl⟩, rfl⟩
    exact hworking.next (enqueue 0) ⟨⟨rfl, rfl⟩, rfl⟩
  · have hsame := hlaw.exclusive 0 1 ⟨3, false⟩ (by decide +kernel) ⟨3, true⟩
      (by decide +kernel) rfl
    exact absurd hsame (by decide)
  · have hinit : Reachable Initial (Step true) {} := .init ⟨_, rfl⟩
    have hfirst := hinit.next (enqueue 0) ⟨⟨rfl, rfl⟩, rfl⟩
    have hleft := hfirst.next (.leave 0) ⟨rfl, rfl⟩
    have hsecond := hleft.next (enqueue 0) ⟨⟨rfl, rfl⟩, rfl⟩
    have hthird := hsecond.next (enqueue 0) ⟨⟨rfl, rfl⟩, rfl⟩
    have hcompleted := hthird.next (.onRequestComplete 1 simStatus) ⟨rfl, rfl⟩
    have hinside := hcompleted.next (.acquire 1) ⟨⟨3, rfl, rfl⟩, rfl⟩
    exact hinside.next (.onRequestComplete 1 simStatus) ⟨rfl, rfl⟩
  · exact hlaw.no_relock 1 3 (by decide +kernel) (by decide +kernel)

end Traces

end MeizuM5c.Ril.Mutex
