import MeizuM5c.Lib.Transition
import MeizuM5c.Ril.PendingRequests

/-!
The queues in front of the AT channels, in a build with `RIL_CHANNEL_QUEUING`.
A request of proxy 1 or 3 waits in the queue of its slot and proxy, its lane,
while the lane is busy; the completion of a request frees its lane and gives the
next request to the vendor.

A request that waits has a copy of the buffer it came with. What the buffer's
pointers lead to is not copied, and is read when the vendor is given the copy. When the
vendor has had the request, `clearPendingBuffer` frees what the buffer's format hands over,
and the copy is freed.
-/

namespace MeizuM5c.Ril.Channel

open Lib Pending

def RIL_REQUEST_RADIO_POWER : Int := 23

inductive QueuedProxy where
  | proxy1
  | proxy3
deriving DecidableEq, Repr

structure Lane where
  slot : SocketId
  proxy : QueuedProxy
deriving DecidableEq, Repr

/-- The lane of a request, if its proxy has one. -/
def laneOf (socketId : SocketId) : Proxy → Option Lane
  | .proxy1 => some ⟨socketId, .proxy1⟩
  | .proxy3 => some ⟨socketId, .proxy3⟩
  | _ => none

/-- The flag that `my_enqueue` tests and sets. `RADIO_POWER` of either slot takes
that of the first. -/
def flagOf (lane : Lane) (request : Int) : Lane :=
  if lane.proxy = .proxy1 ∧ request = RIL_REQUEST_RADIO_POWER then ⟨.socket1, .proxy1⟩ else lane

/-- `proxyCmd1`, `proxyCmd3` and their flags. -/
structure Queues (α : Type) where
  busy : Lane → Bool := fun _ => false
  queue : Lane → List α := fun _ => []

namespace Queues

variable {α : Type}

/-- Whether the request has to wait. -/
def pending (q : Queues α) (lane : Lane) (request : Int) : Bool := q.busy (flagOf lane request)

/-- A request that has to wait is put at the end of its own lane. -/
def enqueue (q : Queues α) (lane : Lane) (request : Int) (entry : α) : Queues α :=
  { busy := Function.update q.busy (flagOf lane request) true
    queue :=
      if q.pending lane request then Function.update q.queue lane (q.queue lane ++ [entry])
      else q.queue }

/-- `my_dequeue` up to the call of the vendor. -/
def dequeue (q : Queues α) (lane : Lane) : Option α × Queues α :=
  match q.queue lane with
  | p :: rest =>
      (some p, { busy := Function.update q.busy lane true
                 queue := Function.update q.queue lane rest })
  | [] => (none, { q with busy := Function.update q.busy lane false })

/-- The end of `RIL_onRequestComplete`. -/
def complete (q : Queues α) (lane : Lane) : Option α × Queues α :=
  dequeue { q with busy := Function.update q.busy lane false } lane

end Queues

inductive BufFmt where
  | ignore
  | void
  | ints
  | str
  | strs
  | callFWST
  | iccAPDU
  | simIO
  | wrSMSSIM
  | raw
  | attchAPN
  | imsSms
  | simAuth
  | dataProf
deriving DecidableEq, Repr

/-- A variable, or a block that the allocator has given. -/
structure Object where
  bytes : List UInt8
  heap : Bool
deriving DecidableEq

/-- What lies at an address, a string up to its terminator. -/
abbrev Memory := Nat → Option Object

namespace Memory

def read (memory : Memory) (a : Nat) : Option (List UInt8) := (memory a).map Object.bytes

/-- A block that may be freed. -/
def IsBlock (memory : Memory) (a : Nat) : Prop := ∃ bytes, memory a = some ⟨bytes, true⟩

/-- To free what is no block, or a block for the second time, ends the process. -/
def free (memory : Memory) (a : Nat) : Option Memory :=
  match memory a with
  | some ⟨_, true⟩ => some (Function.update memory a none)
  | _ => none

def freeAll (memory : Memory) : List Nat → Option Memory
  | [] => some memory
  | a :: as => (memory.free a).bind (fun memory => memory.freeAll as)

def memset (memory : Memory) (buf : Option Nat) (buflen : Nat) : Option Memory :=
  if buflen = 0 then some memory
  else
    match buf with
    | none => none
    | some a =>
        some (Function.update memory a
          ((memory a).map fun object => { object with bytes := List.replicate buflen 0 }))

end Memory

/-- What `clearPendingBuffer` frees. -/
def BufFmt.freed (bf : BufFmt) (buf : Option Nat) (pointers : List Nat) : List Nat :=
  match bf with
  | .ignore | .void | .raw | .ints => []
  | .str => buf.toList
  | _ => pointers

/-- The strings are overwritten before they are freed. -/
def clearPendingBuffer (bf : BufFmt) (buf : Option Nat) (pointers : List Nat) (buflen : Nat)
    (memory : Memory) : Option Memory :=
  match bf with
  | .ints => memory.memset buf buflen
  | _ => memory.freeAll (bf.freed buf pointers)

/-- The argument of a request: the address of the buffer, and the addresses that are in
it or are reached from there. -/
structure Argument where
  buf : Option Nat
  pointers : List Nat
  buflen : Nat
  bf : BufFmt

/-- The buffer is copied for a request that waits. -/
def Argument.Copied (a : Argument) : Prop := a.bf ≠ .void ∧ a.buflen ≠ 0

instance (a : Argument) : Decidable a.Copied := inferInstanceAs (Decidable (_ ∧ _))

structure Contents where
  bytes : List UInt8
  pointees : List (Option (List UInt8))
deriving DecidableEq

/-- A request as `my_enqueue` is given it. -/
structure Request where
  request : Int
  socketId : SocketId
  pCI : CommandInfo
  argument : Argument

/-- A request number and an argument, as they are passed on. -/
structure Dispatch where
  number : Nat
  request : Int
  contents : Contents
deriving DecidableEq

/-- A request that waits, with what was passed for it, which is not stored. -/
structure ProxyReqInfo where
  passed : Dispatch
  requestNumber : Int
  argument : Argument

/-- `outstanding` are the requests that the vendor was given and has not
completed, `enqueued` and `given` record what went into `my_enqueue` and what
went to the vendor. -/
structure State where
  queues : Queues ProxyReqInfo := {}
  memory : Memory
  ended : Bool := false
  count : Nat := 0
  outstanding : Option Lane → List Nat := fun _ => []
  enqueued : Option Lane → List Dispatch := fun _ => []
  given : Option Lane → List Dispatch := fun _ => []

/-- What a reader finds in a buffer. -/
def contents (memory : Memory) (a : Argument) : Contents :=
  ⟨(a.buf.bind memory.read).getD [], a.pointers.map memory.read⟩

/-- What is passed to `my_enqueue`. -/
def Request.passed (r : Request) (σ : State) : Dispatch :=
  ⟨σ.count, r.request, contents σ.memory r.argument⟩

/-- The entry of a request that waits, with the block of its copy. -/
def Request.entry (r : Request) (σ : State) (block : Nat) : ProxyReqInfo :=
  { passed := r.passed σ
    requestNumber := r.pCI.requestNumber
    argument :=
      if r.argument.Copied then { r.argument with buf := some block }
      else { r.argument with buf := none, pointers := [] } }

/-- `buflen` bytes of the buffer are copied, which ends the process when it is null. -/
def Request.copy (r : Request) (memory : Memory) (block : Nat) : Option Memory :=
  if r.argument.Copied then
    match r.argument.buf with
    | none => none
    | some a =>
        some (Function.update memory block
          (some ⟨((memory.read a).getD []).take r.argument.buflen, true⟩))
  else some memory

/-- What the vendor is given for an entry. -/
def ProxyReqInfo.dispatch (p : ProxyReqInfo) (memory : Memory) : Dispatch :=
  ⟨p.passed.number, p.requestNumber, contents memory p.argument⟩

/-- What `my_dequeue` frees when the vendor has had an entry. -/
def ProxyReqInfo.clear (p : ProxyReqInfo) (memory : Memory) : Option Memory :=
  if p.argument.Copied then
    (clearPendingBuffer p.argument.bf p.argument.buf p.argument.pointers p.argument.buflen
      memory).bind fun memory => memory.freeAll p.argument.buf.toList
  else some memory

def append {α : Type} (log : Option Lane → List α) (lane : Option Lane) (x : α) :
    Option Lane → List α :=
  Function.update log lane (log lane ++ [x])

/-- The vendor's `onRequest`. -/
def State.give (σ : State) (lane : Option Lane) (d : Dispatch) : State :=
  { σ with
    outstanding := append σ.outstanding lane d.number
    given := append σ.given lane d }

/-- The process goes on with this memory, or has ended. -/
def State.resume (σ : State) (memory : Option Memory) : State :=
  match memory with
  | some memory => { σ with memory }
  | none => { σ with ended := true }

/-- The lane in whose queue `my_enqueue` looks. -/
def Request.queueLane (r : Request) : Option Lane :=
  if r.argument.bf = .ignore then none else laneOf r.socketId r.pCI.proxyId

/-- The call of the vendor on the caller's thread, with the clean-up behind it. -/
def State.giveDirectly (σ : State) (r : Request) (lane : Option Lane) (d : Dispatch) : State :=
  (σ.give lane d).resume
    (clearPendingBuffer r.argument.bf r.argument.buf r.argument.pointers r.argument.buflen
      σ.memory)

/-- `block` is what `calloc` gives for the copy of a request that has to wait. -/
def myEnqueue (σ : State) (r : Request) (block : Nat) : State :=
  let lane := laneOf r.socketId r.pCI.proxyId
  let d := r.passed σ
  let σ' : State := { σ with count := σ.count + 1, enqueued := append σ.enqueued lane d }
  match r.queueLane with
  | some queueLane =>
      let queues := σ.queues.enqueue queueLane r.request (r.entry σ block)
      if σ.queues.pending queueLane r.request then
        ({ σ' with queues } : State).resume (r.copy σ.memory block)
      else ({ σ' with queues } : State).giveDirectly r lane d
  | none => σ'.giveDirectly r lane d

/-- The completion of a request, and what `my_dequeue` gives to the vendor then.
`locked` says that the completion runs on a thread that holds the channel's
mutex: `mtkOnRequestLocked` then waits for itself and the vendor is not called. -/
def onRequestComplete (σ : State) (lane : Option Lane) (number : Nat) (locked : Bool) : State :=
  let outstanding :=
    Function.update σ.outstanding lane ((σ.outstanding lane).erase number)
  let σ' : State := { σ with outstanding }
  match lane with
  | none => σ'
  | some l =>
      let (p, queues) := σ.queues.complete l
      match p with
      | none => { σ' with queues }
      | some p =>
          if locked then { σ' with queues }
          else
            (({ σ' with queues } : State).give lane (p.dispatch σ.memory)).resume
              (p.clear σ.memory)

/-- `write` is what the rest of the program does at an address: it writes, allocates or
frees there. -/
inductive Op where
  | myEnqueue (r : Request) (block : Nat)
  | onRequestComplete (lane : Option Lane) (number : Nat) (locked : Bool)
  | write (address : Nat) (object : Option Object)

/-- Nothing happens once the process has ended. The allocator gives what is not in use,
and the vendor completes a request that it was given, once. -/
def Enabled (σ : State) (op : Op) : Prop :=
  σ.ended = false ∧
    match op with
    | .myEnqueue _ block => σ.memory block = none
    | .onRequestComplete lane number _ => number ∈ σ.outstanding lane
    | .write _ _ => True

instance (σ : State) (op : Op) : Decidable (Enabled σ op) :=
  match op with
  | .myEnqueue _ _ => inferInstanceAs (Decidable (_ ∧ _ = _))
  | .onRequestComplete _ _ _ => inferInstanceAs (Decidable (_ ∧ _ ∈ _))
  | .write _ _ => inferInstanceAs (Decidable (_ ∧ True))

def next (σ : State) : Op → State
  | .myEnqueue r block => myEnqueue σ r block
  | .onRequestComplete lane number locked => onRequestComplete σ lane number locked
  | .write address object => { σ with memory := Function.update σ.memory address object }

def Step (σ : State) (op : Op) (τ : State) : Prop := Enabled σ op ∧ τ = next σ op

/-- The buffer's bytes are all within the `buflen` that are copied. -/
def Argument.Flat (memory : Memory) (a : Argument) : Prop :=
  if a.Copied then a.buf ≠ none ∧ (contents memory a).bytes.length ≤ a.buflen
  else (contents memory a).bytes = [] ∧ a.pointers = []

instance (memory : Memory) (a : Argument) : Decidable (a.Flat memory) :=
  inferInstanceAs (Decidable (if a.Copied then _ ∧ _ else _ ∧ _))

/-- What the vendor reads for an entry. -/
def ProxyReqInfo.footprint (p : ProxyReqInfo) : List Nat :=
  p.argument.buf.toList ++ p.argument.pointers

/-- What is freed for an entry, its copy included. -/
def ProxyReqInfo.freed (p : ProxyReqInfo) : List Nat :=
  p.argument.buf.toList ++ p.argument.bf.freed p.argument.buf p.argument.pointers

/-- The clean-up frees each block once. -/
def Argument.FreesBlocks (memory : Memory) (a : Argument) : Prop :=
  (a.bf.freed a.buf a.pointers).Nodup ∧ ∀ p ∈ a.bf.freed a.buf a.pointers, memory.IsBlock p

/-- A request that may wait. It has the number of its entry in the table. Its format is not
`FMT_STR`, where the copy is itself the string that is freed. Its buffer is flat, its pointers
lead somewhere, and what is freed for it no other request that waits has use of. -/
structure Request.MayWait (r : Request) (σ : State) : Prop where
  request : r.request = r.pCI.requestNumber
  format : r.argument.bf ≠ .str
  flat : r.argument.Flat σ.memory
  there : ∀ a ∈ r.argument.pointers, σ.memory a ≠ none
  blocks : r.argument.FreesBlocks σ.memory
  apart : ∀ lane, ∀ p ∈ σ.queues.queue lane,
    (∀ a ∈ r.argument.bf.freed r.argument.buf r.argument.pointers, a ∉ p.footprint) ∧
      ∀ a ∈ p.freed, a ∉ r.argument.pointers

/-- A request that may be given at once: its clean-up frees blocks, and leaves alone what the
requests that wait have use of. -/
structure Request.MayGo (r : Request) (σ : State) : Prop where
  ints : r.argument.bf = .ints → r.argument.buf ≠ none
  blocks : r.argument.FreesBlocks σ.memory
  apart : ∀ lane, ∀ p ∈ σ.queues.queue lane,
    (∀ a ∈ r.argument.bf.freed r.argument.buf r.argument.pointers, a ∉ p.footprint) ∧
      (r.argument.bf = .ints → ∀ a, r.argument.buf = some a → a ∉ p.footprint)

/-- The request is put into a queue. -/
def Request.waits (r : Request) (σ : State) : Bool :=
  match r.queueLane with
  | some lane => σ.queues.pending lane r.request
  | none => false

/-- A step at which the queue does what it is for. The format is one that is
queued, or the proxy has no queue. `RADIO_POWER` of the second slot comes while
proxy 1 is busy for both slots. A completion that finds a request waiting
is not made under the channel's mutex. Memory that a waiting request points to is
left alone. -/
def Allowed (σ : State) : Op → Prop
  | .myEnqueue r _ =>
      (r.argument.bf = .ignore → laneOf r.socketId r.pCI.proxyId = none) ∧
      (∀ lane, r.queueLane = some lane → flagOf lane r.request ≠ lane →
        σ.queues.busy (flagOf lane r.request) = true ∧ σ.queues.busy lane = true) ∧
      if r.waits σ then r.MayWait σ else r.MayGo σ
  | .onRequestComplete lane _ locked =>
      locked = true → ∀ l, lane = some l → σ.queues.queue l = []
  | .write address _ => ∀ lane, ∀ p ∈ σ.queues.queue lane, address ∉ p.footprint

def AllowedStep (σ : State) (op : Op) (τ : State) : Prop := Step σ op τ ∧ Allowed σ op

def Initial (σ : State) : Prop := ∃ memory, σ = { memory }

/-- A lane is busy while the vendor works on a request of it. Its requests are
given to the vendor as they were passed and in their order; those that were not
yet given wait, and nothing waits in a lane that is not busy. The process goes on, so that
what waits can still be given. -/
structure QueueLaw (σ : State) : Prop where
  alive : σ.ended = false
  busy : ∀ lane, σ.queues.busy lane = true ↔ σ.outstanding (some lane) ≠ []
  order : ∀ lane, σ.given (some lane) ++ (σ.queues.queue lane).map ProxyReqInfo.passed =
    σ.enqueued (some lane)
  drained : ∀ lane, σ.outstanding (some lane) = [] → σ.queues.queue lane = []

section Queue

variable {α : Type}

theorem append_self (log : Option Lane → List α) (lane : Option Lane) (x : α) :
    append log lane x lane = log lane ++ [x] := Function.update_self ..

theorem append_other (log : Option Lane → List α) {lane other : Option Lane} (x : α)
    (h : other ≠ lane) : append log lane x other = log other := Function.update_of_ne h ..

theorem enqueue_busy_self (q : Queues α) (lane : Lane) (request : Int) (entry : α) :
    (q.enqueue lane request entry).busy (flagOf lane request) = true := by
  simp only [Queues.enqueue, Function.update_self]

theorem enqueue_busy_other (q : Queues α) {lane other : Lane} {request : Int} (entry : α)
    (h : other ≠ flagOf lane request) :
    (q.enqueue lane request entry).busy other = q.busy other := by
  simp only [Queues.enqueue, Function.update_of_ne h]

/-- A request that has to wait finds its flag set, and leaves the flags alone. -/
theorem enqueue_busy_of_pending {q : Queues α} {lane : Lane} {request : Int} (entry : α)
    (h : q.pending lane request = true) : (q.enqueue lane request entry).busy = q.busy := by
  funext other
  by_cases hother : other = flagOf lane request
  · rw [hother, enqueue_busy_self]
    exact h.symm
  · exact enqueue_busy_other q entry hother

theorem enqueue_queue_of_pending {q : Queues α} {lane : Lane} {request : Int} (entry : α)
    (h : q.pending lane request = true) : (q.enqueue lane request entry).queue =
      Function.update q.queue lane (q.queue lane ++ [entry]) := if_pos h

theorem enqueue_queue_of_idle {q : Queues α} {lane : Lane} {request : Int} (entry : α)
    (h : q.pending lane request = false) : (q.enqueue lane request entry).queue = q.queue :=
  if_neg (by simp [h])

theorem complete_nil {q : Queues α} {lane : Lane} (h : q.queue lane = []) :
    q.complete lane = (none, { q with busy := Function.update q.busy lane false }) := by
  simp only [Queues.complete, Queues.dequeue, h, Function.update_idem]

theorem complete_cons {q : Queues α} {lane : Lane} {p : α} {rest : List α}
    (h : q.queue lane = p :: rest) :
    q.complete lane = (some p, { busy := Function.update q.busy lane true
                                 queue := Function.update q.queue lane rest }) := by
  simp only [Queues.complete, Queues.dequeue, h, Function.update_idem]

end Queue

section Memory

variable {memory : Memory} {bf : BufFmt} {buf : Option Nat} {pointers : List Nat}

namespace Memory

theorem IsBlock.ne_none {a : Nat} (h : memory.IsBlock a) : memory a ≠ none := by
  obtain ⟨bytes, h⟩ := h
  rw [h]
  exact Option.some_ne_none _

theorem free_of_isBlock {a : Nat} (h : memory.IsBlock a) :
    memory.free a = some (Function.update memory a none) := by
  obtain ⟨bytes, h⟩ := h
  simp only [free, h]

/-- Blocks that are freed once each are gone, and nothing else is. -/
theorem freeAll_spec {as : List Nat} (hnodup : as.Nodup) (hblocks : ∀ a ∈ as, memory.IsBlock a) :
    ∃ memory', memory.freeAll as = some memory' ∧ ∀ a, a ∉ as → memory' a = memory a := by
  induction as generalizing memory with
  | nil => exact ⟨memory, rfl, fun _ _ => rfl⟩
  | cons b as ih =>
      obtain ⟨hfresh, hnodup⟩ := List.nodup_cons.mp hnodup
      have hrest : ∀ a ∈ as, Memory.IsBlock (Function.update memory b none) a := by
        intro a ha
        have hne : a ≠ b := fun heq => hfresh (heq ▸ ha)
        obtain ⟨bytes, h⟩ := hblocks a (List.mem_cons_of_mem b ha)
        exact ⟨bytes, by rw [Function.update_of_ne hne, h]⟩
      obtain ⟨memory', hfree, hsame⟩ := ih hnodup hrest
      refine ⟨memory', ?_, fun a ha => ?_⟩
      · rw [freeAll, free_of_isBlock (hblocks b List.mem_cons_self), Option.bind_some]
        exact hfree
      · have hne : a ≠ b := fun heq => ha (heq ▸ List.mem_cons_self)
        rw [hsame a fun h => ha (List.mem_cons_of_mem b h), Function.update_of_ne hne]

end Memory

theorem freed_subset (hformat : bf ≠ .str) {a : Nat} (h : a ∈ bf.freed buf pointers) :
    a ∈ pointers := by
  cases bf with
  | str => exact absurd rfl hformat
  | ignore => cases h
  | void => cases h
  | ints => cases h
  | raw => cases h
  | _ => exact h

theorem freed_congr (hformat : bf ≠ .str) (buf buf' : Option Nat) :
    bf.freed buf' pointers = bf.freed buf pointers := by
  cases bf with
  | str => exact absurd rfl hformat
  | _ => rfl

theorem clearPendingBuffer_of_ne (hformat : bf ≠ .ints) (buflen : Nat) :
    clearPendingBuffer bf buf pointers buflen memory = memory.freeAll (bf.freed buf pointers) := by
  cases bf with
  | ints => exact absurd rfl hformat
  | _ => rfl

/-- The clean-up takes the blocks that it frees, and overwrites a buffer of integers. -/
theorem clearPendingBuffer_spec (buflen : Nat) (hints : bf = .ints → buf ≠ none)
    (hnodup : (bf.freed buf pointers).Nodup)
    (hblocks : ∀ a ∈ bf.freed buf pointers, memory.IsBlock a) :
    ∃ memory', clearPendingBuffer bf buf pointers buflen memory = some memory' ∧
      (∀ a, a ∉ bf.freed buf pointers → (bf = .ints → buf ≠ some a) → memory' a = memory a) ∧
      ∀ a, a ∉ bf.freed buf pointers → memory.IsBlock a → memory'.IsBlock a := by
  by_cases hformat : bf = .ints
  · obtain ⟨b, rfl⟩ := Option.ne_none_iff_exists'.mp (hints hformat)
    subst hformat
    by_cases hzero : buflen = 0
    · exact ⟨memory, by simp only [clearPendingBuffer, Memory.memset, if_pos hzero],
        fun _ _ _ => rfl, fun _ _ h => h⟩
    · refine ⟨_, by simp only [clearPendingBuffer, Memory.memset, if_neg hzero]; rfl, ?_, ?_⟩
      · intro a _ hne
        have hother : a ≠ b := fun heq => hne rfl (congrArg some heq.symm)
        rw [Function.update_of_ne hother]
      · rintro a - ⟨bytes, h⟩
        by_cases hown : a = b
        · subst hown
          exact ⟨List.replicate buflen 0, by rw [Function.update_self, h]; rfl⟩
        · exact ⟨bytes, by rw [Function.update_of_ne hown, h]⟩
  · obtain ⟨memory', hfree, hsame⟩ := Memory.freeAll_spec hnodup hblocks
    refine ⟨memory', ?_, fun a ha _ => hsame a ha, ?_⟩
    · rw [clearPendingBuffer_of_ne hformat]
      exact hfree
    · rintro a ha ⟨bytes, h⟩
      exact ⟨bytes, by rw [hsame a ha, h]⟩

theorem contents_congr {memory' : Memory} {a : Argument}
    (h : ∀ p ∈ a.buf.toList ++ a.pointers, memory' p = memory p) :
    contents memory' a = contents memory a := by
  have hread : ∀ p ∈ a.buf.toList ++ a.pointers, memory'.read p = memory.read p := by
    intro p hp
    simp only [Memory.read, h p hp]
  have hpointees : a.pointers.map memory'.read = a.pointers.map memory.read :=
    List.map_congr_left fun p hp => hread p (List.mem_append_right _ hp)
  have hbuf : a.buf.bind memory'.read = a.buf.bind memory.read := by
    cases hb : a.buf with
    | none => rfl
    | some b => exact hread b (by simp [hb])
  rw [contents, contents, hpointees, hbuf]

end Memory

section Waiting

/-- An entry that can still be given and cleaned up. -/
structure ProxyReqInfo.Sound (memory : Memory) (p : ProxyReqInfo) : Prop where
  faithful : p.dispatch memory = p.passed
  format : p.argument.bf ≠ .str
  there : ∀ a ∈ p.footprint, memory a ≠ none
  blocks : p.argument.FreesBlocks memory
  copy : p.argument.Copied →
    ∃ block, p.argument.buf = some block ∧ memory.IsBlock block ∧ block ∉ p.argument.pointers

/-- What is freed for one entry, the other has no use of. -/
def Apart (p q : ProxyReqInfo) : Prop :=
  (∀ a ∈ p.freed, a ∉ q.footprint) ∧ ∀ a ∈ q.freed, a ∉ p.footprint

/-- All that waits, in all lanes. -/
structure Waiting (memory : Memory) (queue : Lane → List ProxyReqInfo) : Prop where
  sound : ∀ lane, ∀ p ∈ queue lane, p.Sound memory
  apart : ∀ lane, (queue lane).Pairwise Apart
  across : ∀ lane other, lane ≠ other → ∀ p ∈ queue lane, ∀ q ∈ queue other, Apart p q

variable {memory memory' : Memory} {p : ProxyReqInfo}

namespace ProxyReqInfo.Sound

theorem freed_mem (h : p.Sound memory) {a : Nat} (ha : a ∈ p.freed) : a ∈ p.footprint := by
  rcases List.mem_append.mp ha with ha | ha
  · exact List.mem_append_left _ ha
  · exact List.mem_append_right _ (freed_subset h.format ha)

/-- Only what an entry points to matters for it. -/
theorem congr (h : p.Sound memory) (hsame : ∀ a ∈ p.footprint, memory' a = memory a) :
    p.Sound memory' := by
  have hblock {a : Nat} (ha : a ∈ p.footprint) (hb : memory.IsBlock a) : memory'.IsBlock a := by
    obtain ⟨bytes, hb⟩ := hb
    exact ⟨bytes, by rw [hsame a ha, hb]⟩
  refine ⟨?_, h.format, ?_, ⟨h.blocks.1, ?_⟩, ?_⟩
  · have hread := contents_congr (a := p.argument) hsame
    rw [← h.faithful, ProxyReqInfo.dispatch, ProxyReqInfo.dispatch, hread]
  · intro a ha
    rw [hsame a ha]
    exact h.there a ha
  · intro a ha
    exact hblock (h.freed_mem (List.mem_append_right _ ha)) (h.blocks.2 a ha)
  · intro hcopied
    obtain ⟨block, hbuf, hb, hnot⟩ := h.copy hcopied
    exact ⟨block, hbuf, hblock (by simp [ProxyReqInfo.footprint, hbuf]) hb, hnot⟩

/-- The clean-up of an entry ends well, and changes nothing but what it frees. -/
theorem clear (h : p.Sound memory) :
    ∃ memory', p.clear memory = some memory' ∧ ∀ a, a ∉ p.freed → memory' a = memory a := by
  by_cases hcopied : p.argument.Copied
  · obtain ⟨block, hbuf, hb, hnot⟩ := h.copy hcopied
    have hints : p.argument.bf = .ints → p.argument.buf ≠ none := fun _ => by simp [hbuf]
    obtain ⟨cleared, hclear, hsame, hkept⟩ :=
      clearPendingBuffer_spec p.argument.buflen hints h.blocks.1 h.blocks.2
    have hown := hkept block (fun hin => hnot (freed_subset h.format hin)) hb
    refine ⟨Function.update cleared block none, ?_, fun a ha => ?_⟩
    · rw [ProxyReqInfo.clear, if_pos hcopied, hclear, Option.bind_some, hbuf]
      simp only [Option.toList_some, Memory.freeAll, Memory.free_of_isBlock hown, Option.bind_some]
    · have hne : a ≠ block := by
        rintro rfl
        exact ha (by simp [ProxyReqInfo.freed, hbuf])
      rw [Function.update_of_ne hne]
      apply hsame a fun hin => ha (List.mem_append_right _ hin)
      intro _ heq
      rw [hbuf] at heq
      exact hne (Option.some.inj heq).symm
  · exact ⟨memory, by rw [ProxyReqInfo.clear, if_neg hcopied], fun _ _ => rfl⟩

end ProxyReqInfo.Sound

namespace Waiting

variable {queue : Lane → List ProxyReqInfo}

theorem congr (h : Waiting memory queue)
    (hsame : ∀ lane, ∀ p ∈ queue lane, ∀ a ∈ p.footprint, memory' a = memory a) :
    Waiting memory' queue :=
  ⟨fun lane p hp => (h.sound lane p hp).congr (hsame lane p hp), h.apart, h.across⟩

/-- A change at an address that no entry points to. -/
theorem update (h : Waiting memory queue) {a : Nat} (object : Option Object)
    (hfree : ∀ lane, ∀ p ∈ queue lane, a ∉ p.footprint) :
    Waiting (Function.update memory a object) queue := by
  refine h.congr fun lane p hp b hb => ?_
  have hne : b ≠ a := fun heq => hfree lane p hp (heq ▸ hb)
  rw [Function.update_of_ne hne]

theorem push (h : Waiting memory queue) (lane : Lane) (hp : p.Sound memory)
    (hapart : ∀ other, ∀ q ∈ queue other, Apart q p) :
    Waiting memory (Function.update queue lane (queue lane ++ [p])) := by
  have hmem {other : Lane} {q : ProxyReqInfo}
      (hq : q ∈ Function.update queue lane (queue lane ++ [p]) other) :
      q ∈ queue other ∨ (other = lane ∧ q = p) := by
    by_cases hown : other = lane
    · rw [hown, Function.update_self] at hq
      rcases List.mem_append.mp hq with hq | hq
      · exact Or.inl (hown ▸ hq)
      · exact Or.inr ⟨hown, List.mem_singleton.mp hq⟩
    · rw [Function.update_of_ne hown] at hq
      exact Or.inl hq
  refine ⟨?_, ?_, ?_⟩
  · intro other q hq
    rcases hmem hq with hq | ⟨-, rfl⟩
    · exact h.sound other q hq
    · exact hp
  · intro other
    by_cases hown : other = lane
    · rw [hown, Function.update_self, List.pairwise_append]
      refine ⟨h.apart lane, List.pairwise_singleton _ _, fun q hq q' hq' => ?_⟩
      rw [List.mem_singleton.mp hq']
      exact hapart lane q hq
    · rw [Function.update_of_ne hown]
      exact h.apart other
  · intro first second hne q hq q' hq'
    rcases hmem hq with hold | ⟨hfirst, hnew⟩
    · rcases hmem hq' with hold' | ⟨-, hnew'⟩
      · exact h.across first second hne q hold q' hold'
      · rw [hnew']
        exact hapart first q hold
    · rcases hmem hq' with hold' | ⟨hsecond, -⟩
      · rw [hnew]
        exact (hapart second q' hold').symm
      · exact absurd (hfirst.trans hsecond.symm) hne

/-- The entry that leaves a queue is sound, and the others do not depend on it. -/
theorem pop (h : Waiting memory queue) {lane : Lane} {rest : List ProxyReqInfo}
    (hqueue : queue lane = p :: rest) :
    p.Sound memory ∧ Waiting memory (Function.update queue lane rest) ∧
      ∀ other, ∀ q ∈ Function.update queue lane rest other, Apart p q := by
  have hhead : p ∈ queue lane := by
    rw [hqueue]
    exact List.mem_cons_self
  have hsub : ∀ other, (Function.update queue lane rest other).Sublist (queue other) := by
    intro other
    by_cases hown : other = lane
    · rw [hown, Function.update_self, hqueue]
      exact List.sublist_cons_self p rest
    · rw [Function.update_of_ne hown]
  refine ⟨h.sound lane p hhead, ⟨?_, ?_, ?_⟩, ?_⟩
  · intro other q hq
    exact h.sound other q ((hsub other).subset hq)
  · intro other
    exact (h.apart other).sublist (hsub other)
  · intro first second hne q hq q' hq'
    exact h.across first second hne q ((hsub first).subset hq) q' ((hsub second).subset hq')
  · intro other q hq
    by_cases hown : other = lane
    · rw [hown, Function.update_self] at hq
      have hpairs := h.apart lane
      rw [hqueue] at hpairs
      exact (List.pairwise_cons.mp hpairs).1 q hq
    · rw [Function.update_of_ne hown] at hq
      exact h.across lane other (Ne.symm hown) p hhead q hq

end Waiting

section Entry

variable {σ : State} {r : Request} {block : Nat}

theorem entry_of_copied (hcopied : r.argument.Copied) :
    (r.entry σ block).argument = { r.argument with buf := some block } := by
  rw [Request.entry, if_pos hcopied]

theorem entry_of_not_copied (hcopied : ¬r.argument.Copied) :
    (r.entry σ block).argument = { r.argument with buf := none, pointers := [] } := by
  rw [Request.entry, if_neg hcopied]

/-- The copy of a flat buffer reads as the buffer does. -/
theorem copied_sound (h : r.MayWait σ) (hfresh : σ.memory block = none)
    (hcopied : r.argument.Copied) {address : Nat} (hbuf : r.argument.buf = some address) :
    (r.entry σ block).Sound (Function.update σ.memory block
      (some ⟨((σ.memory.read address).getD []).take r.argument.buflen, true⟩)) := by
  have hne {a : Nat} (ha : σ.memory a ≠ none) : a ≠ block := fun heq => ha (heq ▸ hfresh)
  have hflat := h.flat
  rw [Argument.Flat, if_pos hcopied] at hflat
  have hbytes : (contents σ.memory r.argument).bytes = (σ.memory.read address).getD [] := by
    rw [contents, hbuf, Option.bind_some]
  have htake := List.take_of_length_le (hbytes ▸ hflat.2)
  rw [htake]
  refine ⟨?_, ?_, ?_, ?_, ?_⟩
  · have hpointees : r.argument.pointers.map (Memory.read (Function.update σ.memory block
        (some ⟨(σ.memory.read address).getD [], true⟩))) =
          r.argument.pointers.map σ.memory.read := by
      apply List.map_congr_left
      intro a ha
      simp only [Memory.read, Function.update_of_ne (hne (h.there a ha))]
    simp only [ProxyReqInfo.dispatch, entry_of_copied hcopied, contents, hpointees]
    simp only [Request.entry, Request.passed, contents, hbuf, Memory.read, Option.bind_some,
      Function.update_self, Option.map_some, Option.getD_some, ← h.request]
  · rw [entry_of_copied hcopied]
    exact h.format
  · intro a ha
    simp only [ProxyReqInfo.footprint, entry_of_copied hcopied, Option.toList_some,
      List.singleton_append, List.mem_cons] at ha
    rcases ha with rfl | ha
    · simp
    · rw [Function.update_of_ne (hne (h.there a ha))]
      exact h.there a ha
  · rw [Argument.FreesBlocks, entry_of_copied hcopied]
    simp only [freed_congr h.format r.argument.buf]
    refine ⟨h.blocks.1, fun a ha => ?_⟩
    obtain ⟨bytes, hb⟩ := h.blocks.2 a ha
    exact ⟨bytes, by rw [Function.update_of_ne (hne (h.blocks.2 a ha).ne_none), hb]⟩
  · intro _
    refine ⟨block, by rw [entry_of_copied hcopied], ⟨_, Function.update_self ..⟩, ?_⟩
    rw [entry_of_copied hcopied]
    exact fun hin => hne (h.there block hin) rfl

/-- Without a buffer there is nothing to copy. -/
theorem not_copied_sound (h : r.MayWait σ) (hcopied : ¬r.argument.Copied) :
    (r.entry σ block).Sound σ.memory := by
  have hflat := h.flat
  rw [Argument.Flat, if_neg hcopied] at hflat
  refine ⟨?_, ?_, ?_, ?_, ?_⟩
  · have hbytes : (r.argument.buf.bind σ.memory.read).getD [] = [] := hflat.1
    have hempty : contents σ.memory r.argument = ⟨[], []⟩ := by
      rw [contents, hbytes, hflat.2, List.map_nil]
    simp only [ProxyReqInfo.dispatch, entry_of_not_copied hcopied]
    simp only [Request.entry, Request.passed, hempty, ← h.request]
    rfl
  · rw [entry_of_not_copied hcopied]
    exact h.format
  · intro a ha
    simp [ProxyReqInfo.footprint, entry_of_not_copied hcopied] at ha
  · have hnone : r.argument.bf.freed none [] = [] := by
      cases r.argument.bf <;> rfl
    rw [Argument.FreesBlocks, entry_of_not_copied hcopied]
    simp [hnone]
  · intro hc
    rw [entry_of_not_copied hcopied] at hc
    exact absurd hc hcopied

/-- A request that may wait is copied as it was passed, and its entry is sound. -/
theorem entry_sound (h : r.MayWait σ) (hfresh : σ.memory block = none) :
    ∃ memory', r.copy σ.memory block = some memory' ∧
      (∀ a, a ≠ block → memory' a = σ.memory a) ∧ (r.entry σ block).Sound memory' := by
  by_cases hcopied : r.argument.Copied
  · have hflat := h.flat
    rw [Argument.Flat, if_pos hcopied] at hflat
    obtain ⟨address, hbuf⟩ := Option.ne_none_iff_exists'.mp hflat.1
    refine ⟨_, by rw [Request.copy, if_pos hcopied, hbuf], fun a ha => Function.update_of_ne ha _ _,
      ?_⟩
    exact copied_sound h hfresh hcopied hbuf
  · refine ⟨σ.memory, by rw [Request.copy, if_neg hcopied], fun _ _ => rfl, ?_⟩
    exact not_copied_sound h hcopied

/-- What is freed for it, the others that wait have no use of, and the other way round. -/
theorem entry_apart (h : r.MayWait σ) {lane : Lane} {q : ProxyReqInfo}
    (hq : q ∈ σ.queues.queue lane) (hsound : q.Sound σ.memory) (hblock : block ∉ q.footprint) :
    Apart q (r.entry σ block) := by
  obtain ⟨hleft, hright⟩ := h.apart lane q hq
  by_cases hcopied : r.argument.Copied
  · refine ⟨fun a ha hin => ?_, fun a ha => ?_⟩
    · simp only [ProxyReqInfo.footprint, entry_of_copied hcopied, Option.toList_some,
        List.singleton_append, List.mem_cons] at hin
      rcases hin with rfl | hin
      · exact hblock (hsound.freed_mem ha)
      · exact hright a ha hin
    · simp only [ProxyReqInfo.freed, entry_of_copied hcopied, Option.toList_some,
        List.singleton_append, List.mem_cons] at ha
      rcases ha with rfl | ha
      · exact hblock
      · rw [freed_congr h.format r.argument.buf] at ha
        exact hleft a ha
  · have hfreed : (r.entry σ block).freed = [] := by
      rw [ProxyReqInfo.freed, entry_of_not_copied hcopied]
      cases r.argument.bf <;> rfl
    refine ⟨fun a _ hin => ?_, fun a ha => ?_⟩
    · simp [ProxyReqInfo.footprint, entry_of_not_copied hcopied] at hin
    · rw [hfreed] at ha
      cases ha

end Entry

end Waiting

section Invariant

/-- What the state holds for one lane. -/
structure View where
  busy : Bool
  queue : List ProxyReqInfo
  outstanding : List Nat
  enqueued : List Dispatch
  given : List Dispatch

def State.view (σ : State) (lane : Lane) : View :=
  { busy := σ.queues.busy lane
    queue := σ.queues.queue lane
    outstanding := σ.outstanding (some lane)
    enqueued := σ.enqueued (some lane)
    given := σ.given (some lane) }

/-- The law for one lane. The vendor has one request of it at most. -/
structure View.Ok (v : View) : Prop where
  busy : v.busy = true ↔ v.outstanding ≠ []
  order : v.given ++ v.queue.map ProxyReqInfo.passed = v.enqueued
  drained : v.outstanding = [] → v.queue = []
  single : v.outstanding.length ≤ 1

structure Inv (σ : State) : Prop where
  alive : σ.ended = false
  lanes : ∀ lane, (σ.view lane).Ok
  waiting : Waiting σ.memory σ.queues.queue

theorem Inv.law {σ : State} (h : Inv σ) : QueueLaw σ :=
  ⟨h.alive, fun lane => (h.lanes lane).busy, fun lane => (h.lanes lane).order,
    fun lane => (h.lanes lane).drained⟩

theorem Inv.initial {σ : State} (h : Initial σ) : Inv σ := by
  obtain ⟨memory, rfl⟩ := h
  refine ⟨rfl, fun lane => ?_, ?_⟩
  · constructor <;> simp [State.view]
  · exact ⟨fun _ _ hp => absurd hp List.not_mem_nil, fun _ => List.Pairwise.nil,
      fun _ _ _ _ hp => absurd hp List.not_mem_nil⟩

/-- A step on one lane keeps the law of every lane if it keeps it there. -/
theorem Inv.of_lane {σ τ : State} (h : Inv σ) (lane : Lane)
    (hother : ∀ other, other ≠ lane → τ.view other = σ.view other)
    (hown : (σ.view lane).Ok → (τ.view lane).Ok) (other : Lane) : (τ.view other).Ok := by
  by_cases hlane : other = lane
  · rw [hlane]
    exact hown (h.lanes lane)
  · rw [hother other hlane]
    exact h.lanes other

namespace View.Ok

variable {v : View}

/-- A request waits in a busy lane. -/
theorem wait (h : v.Ok) (p : ProxyReqInfo) (hbusy : v.busy = true) :
    ({ v with queue := v.queue ++ [p], enqueued := v.enqueued ++ [p.passed] } : View).Ok := by
  refine ⟨h.busy, ?_, fun hidle => absurd hidle (h.busy.mp hbusy), h.single⟩
  simp only [List.map_append, List.map_cons, List.map_nil]
  rw [← List.append_assoc, h.order]

/-- A request finds its lane free. -/
theorem give (h : v.Ok) (d : Dispatch) (hidle : v.busy = false) :
    ({ v with
      busy := true
      outstanding := v.outstanding ++ [d.number]
      enqueued := v.enqueued ++ [d]
      given := v.given ++ [d] } : View).Ok := by
  have hnone : v.outstanding = [] := by
    by_contra hsome
    rw [h.busy.mpr hsome] at hidle
    exact Bool.false_ne_true hidle.symm
  have hempty := h.drained hnone
  have horder := h.order
  rw [hempty, List.map_nil, List.append_nil] at horder
  refine ⟨by simp, ?_, fun _ => hempty, ?_⟩
  · simp only [hempty, List.map_nil, List.append_nil, horder]
  · simp only [hnone]
    exact Nat.le_refl 1

theorem erase_outstanding (h : v.Ok) {number : Nat} (hgiven : number ∈ v.outstanding) :
    v.outstanding.erase number = [] := by
  have hlength : (v.outstanding.erase number).length = v.outstanding.length - 1 :=
    List.length_erase_of_mem hgiven
  have hsingle := h.single
  exact List.eq_nil_of_length_eq_zero (by omega)

/-- A completion with nothing behind it. -/
theorem free (h : v.Ok) {number : Nat} (hgiven : number ∈ v.outstanding)
    (hempty : v.queue = []) :
    ({ v with busy := false, outstanding := v.outstanding.erase number } : View).Ok := by
  have hnone := h.erase_outstanding hgiven
  exact ⟨by simp [hnone], h.order, fun _ => hempty, by simp [hnone]⟩

/-- A completion lets the next request through. -/
theorem advance (h : v.Ok) {number : Nat} {p : ProxyReqInfo} {rest : List ProxyReqInfo}
    (hgiven : number ∈ v.outstanding) (hqueue : v.queue = p :: rest) :
    ({ v with
      busy := true
      queue := rest
      outstanding := v.outstanding.erase number ++ [p.passed.number]
      given := v.given ++ [p.passed] } : View).Ok := by
  have hnone := h.erase_outstanding hgiven
  have horder := h.order
  rw [hqueue] at horder
  refine ⟨by simp, ?_, by simp, by simp [hnone]⟩
  simp only [List.append_assoc, List.singleton_append]
  exact horder

end View.Ok

end Invariant

section Steps

/-- A format that is queued goes to the lane of the request's proxy. -/
theorem queueLane_eq {r : Request}
    (hformat : r.argument.bf = .ignore → laneOf r.socketId r.pCI.proxyId = none) :
    r.queueLane = laneOf r.socketId r.pCI.proxyId := by
  unfold Request.queueLane
  split_ifs with hignore
  · exact (hformat hignore).symm
  · rfl

/-- A request is left in the queue of a busy lane. -/
theorem Inv.wait {σ : State} (h : Inv σ) {r : Request} {lane : Lane} {block : Nat} (count : Nat)
    (hbusy : σ.queues.busy lane = true) (hpending : σ.queues.pending lane r.request = true)
    (hmay : r.MayWait σ) (hfresh : σ.memory block = none) :
    Inv (({ σ with
      count
      enqueued := append σ.enqueued (some lane) (r.passed σ)
      queues := σ.queues.enqueue lane r.request (r.entry σ block) } : State).resume
        (r.copy σ.memory block)) := by
  obtain ⟨memory', hcopy, hsame, hsound⟩ := entry_sound hmay hfresh
  rw [hcopy]
  refine ⟨h.alive, h.of_lane lane ?_ ?_, ?_⟩
  · intro other hother
    simp only [State.view, State.resume, enqueue_busy_of_pending _ hpending,
      enqueue_queue_of_pending _ hpending, Function.update_of_ne hother,
      append_other _ _ fun heq => hother (Option.some.inj heq)]
  · intro hok
    have hwait := hok.wait (r.entry σ block) hbusy
    simp only [State.view, State.resume, enqueue_busy_of_pending _ hpending,
      enqueue_queue_of_pending _ hpending, Function.update_self, append_self]
    exact hwait
  · have hnot {other : Lane} {p : ProxyReqInfo} (hp : p ∈ σ.queues.queue other) :
        block ∉ p.footprint :=
      fun hin => (h.waiting.sound other p hp).there block hin hfresh
    have hwaiting := h.waiting.congr fun other p hp a ha =>
      hsame a fun heq => hnot hp (heq ▸ ha)
    simp only [State.resume, enqueue_queue_of_pending _ hpending]
    refine hwaiting.push lane hsound fun other q hq => ?_
    exact entry_apart hmay hq (h.waiting.sound other q hq) (hnot hq)

/-- The clean-up of a request that was given at once. -/
theorem Inv.direct {σ τ : State} (h : Inv σ) {r : Request} (hmay : r.MayGo σ)
    (hended : τ.ended = σ.ended)
    (hqueue : τ.queues.queue = σ.queues.queue) (hlanes : ∀ lane, (τ.view lane).Ok) :
    Inv (τ.resume (clearPendingBuffer r.argument.bf r.argument.buf r.argument.pointers
      r.argument.buflen σ.memory)) := by
  obtain ⟨memory', hclear, hsame, -⟩ :=
    clearPendingBuffer_spec r.argument.buflen hmay.ints hmay.blocks.1 hmay.blocks.2
  rw [hclear]
  refine ⟨hended.trans h.alive, hlanes, ?_⟩
  simp only [State.resume, hqueue]
  refine h.waiting.congr fun lane p hp a ha => ?_
  obtain ⟨hfreed, hints⟩ := hmay.apart lane p hp
  exact hsame a (fun hin => hfreed a hin ha) fun hformat hbuf => hints hformat a hbuf ha

/-- A request is given to the vendor in a free lane. -/
theorem Inv.give {σ : State} (h : Inv σ) {r : Request} {lane : Lane} {block : Nat} (count : Nat)
    (hown : flagOf lane r.request = lane) (hpending : σ.queues.pending lane r.request = false)
    (hmay : r.MayGo σ) :
    Inv (({ σ with
      count
      enqueued := append σ.enqueued (some lane) (r.passed σ)
      queues := σ.queues.enqueue lane r.request (r.entry σ block) } : State).giveDirectly r
        (some lane) (r.passed σ)) := by
  refine h.direct hmay rfl (enqueue_queue_of_idle _ hpending) (h.of_lane lane ?_ ?_)
  · intro other hother
    have hbusy := enqueue_busy_other σ.queues (r.entry σ block) (hown.symm ▸ hother)
    simp only [State.view, State.give, hbusy, enqueue_queue_of_idle _ hpending,
      append_other _ _ fun heq => hother (Option.some.inj heq)]
  · intro hok
    have hidle : σ.queues.busy lane = false := by
      rw [Queues.pending, hown] at hpending
      exact hpending
    have hbusy := enqueue_busy_self σ.queues lane r.request (r.entry σ block)
    rw [hown] at hbusy
    have hgive := hok.give (r.passed σ) hidle
    simp only [State.view, State.give, hbusy, enqueue_queue_of_idle _ hpending, append_self]
    exact hgive

theorem Inv.myEnqueue {σ : State} (h : Inv σ) {r : Request} {block : Nat}
    (hfresh : σ.memory block = none) (hallowed : Allowed σ (.myEnqueue r block)) :
    Inv (myEnqueue σ r block) := by
  obtain ⟨hformat, hflag, hmay⟩ := hallowed
  rw [Request.waits] at hmay
  rw [queueLane_eq hformat] at hflag hmay
  simp only [Channel.myEnqueue, queueLane_eq hformat]
  cases hlane : laneOf r.socketId r.pCI.proxyId with
  | none =>
      rw [hlane] at hmay
      refine h.direct hmay rfl rfl fun lane => ?_
      simp only [State.view, State.give, append_other _ _ (Option.some_ne_none lane)]
      exact h.lanes lane
  | some lane =>
      rw [hlane] at hmay
      have hflag := hflag lane hlane
      simp only at hmay ⊢
      by_cases hpending : σ.queues.pending lane r.request = true
      · have hbusy : σ.queues.busy lane = true := by
          by_cases hown : flagOf lane r.request = lane
          · rw [Queues.pending, hown] at hpending
            exact hpending
          · exact (hflag hown).2
        rw [if_pos hpending] at hmay
        simp only [if_pos hpending]
        exact h.wait _ hbusy hpending hmay hfresh
      · have hown : flagOf lane r.request = lane := by
          by_contra hforeign
          exact hpending (hflag hforeign).1
        rw [if_neg hpending] at hmay
        simp only [if_neg hpending]
        rw [Bool.not_eq_true] at hpending
        exact h.give _ hown hpending hmay

theorem Inv.onRequestComplete {σ : State} (h : Inv σ) {lane : Option Lane} {number : Nat}
    {locked : Bool} (hgiven : number ∈ σ.outstanding lane)
    (hallowed : Allowed σ (.onRequestComplete lane number locked)) :
    Inv (onRequestComplete σ lane number locked) := by
  cases lane with
  | none =>
      refine ⟨h.alive, fun lane => ?_, h.waiting⟩
      simp only [Channel.onRequestComplete, State.view,
        Function.update_of_ne (Option.some_ne_none lane)]
      exact h.lanes lane
  | some lane =>
      have hsome {other : Lane} (hother : other ≠ lane) : some other ≠ some lane :=
        fun heq => hother (Option.some.inj heq)
      cases hqueue : σ.queues.queue lane with
      | nil =>
          simp only [Channel.onRequestComplete, complete_nil hqueue]
          refine ⟨h.alive, h.of_lane lane ?_ ?_, h.waiting⟩
          · intro other hother
            simp only [State.view, Function.update_of_ne hother,
              Function.update_of_ne (hsome hother)]
          · intro hok
            simp only [State.view, Function.update_self]
            exact hok.free hgiven hqueue
      | cons p rest =>
          have hunlocked : locked = false := by
            cases locked with
            | false => rfl
            | true => exact absurd (hallowed rfl lane rfl) (by simp [hqueue])
          obtain ⟨hsound, hrest, hapart⟩ := h.waiting.pop hqueue
          obtain ⟨memory', hclear, hsame⟩ := hsound.clear
          simp only [Channel.onRequestComplete, complete_cons hqueue, hunlocked, Bool.false_eq_true,
            if_false, hclear, hsound.faithful]
          refine ⟨h.alive, h.of_lane lane ?_ ?_, ?_⟩
          · intro other hother
            simp only [State.view, State.resume, State.give, Function.update_of_ne hother,
              append_other _ _ (hsome hother), Function.update_of_ne (hsome hother)]
          · intro hok
            simp only [State.view, State.resume, State.give, Function.update_self, append_self]
            exact hok.advance hgiven hqueue
          · exact hrest.congr fun other q hq a ha =>
              hsame a fun hin => (hapart other q hq).1 a hin ha

theorem Inv.next {σ τ : State} {op : Op} (h : Inv σ) (hstep : AllowedStep σ op τ) : Inv τ := by
  obtain ⟨⟨⟨_, henabled⟩, rfl⟩, hallowed⟩ := hstep
  cases op with
  | myEnqueue r block => exact h.myEnqueue henabled hallowed
  | onRequestComplete lane number locked => exact h.onRequestComplete henabled hallowed
  | write address object => exact ⟨h.alive, h.lanes, h.waiting.update object hallowed⟩

/-- In a run of allowed steps every lane keeps to its law. -/
theorem channel_queue_law {σ : State} (h : Reachable Initial AllowedStep σ) : QueueLaw σ := by
  have hinv : Inv σ := h.invariant (fun _ hs => Inv.initial hs) fun _ _ _ hs hstep => hs.next hstep
  exact hinv.law

end Steps

section Traces

def run (ops : List Op) : State := ops.foldl next { memory := fun _ => none }

/-- `GET_SIM_STATUS` of the first slot. -/
def getSimStatus : Op := .myEnqueue ⟨1, .socket1, ⟨1, true, .proxy1⟩, ⟨none, [], 0, .void⟩⟩ 0

/-- The completion of the first request, from a thread of the vendor. -/
def completed : Op := .onRequestComplete (some ⟨.socket1, .proxy1⟩) 0 false

/-- Bytes that are allocated. -/
def alloc (address : Nat) (bytes : List UInt8) : Op := .write address (some ⟨bytes, true⟩)

/-- `ENTER_SIM_PIN` of the first slot with a string at 16 and the array of strings at 24. -/
def enterSimPin : Op :=
  .myEnqueue ⟨2, .socket1, ⟨2, true, .proxy1⟩, ⟨some 24, [16], 8, .strs⟩⟩ 32

/-- `RADIO_POWER` of the second slot. -/
def radioPower : Op :=
  .myEnqueue ⟨23, .socket2, ⟨23, true, .proxy1⟩, ⟨some 16, [], 4, .ints⟩⟩ 32

/-- `STK_SEND_TERMINAL_RESPONSE` of the first slot with the string at 16. Its `buflen` is
the size of a pointer. -/
def terminalResponse : Op :=
  .myEnqueue ⟨70, .socket1, ⟨70, true, .proxy1⟩, ⟨some 16, [], 8, .str⟩⟩ 32

/-- A PIN that waits is given to the vendor when the first request is completed, and then the
string and the copy of the array are freed. -/
theorem second_request_waits :
    (run [getSimStatus, alloc 16 [49, 50, 51, 52, 0], alloc 24 [16, 0, 0, 0, 0, 0, 0, 0],
        enterSimPin, completed]).given (some ⟨.socket1, .proxy1⟩) =
      [⟨0, 1, ⟨[], []⟩⟩, ⟨1, 2, ⟨[16, 0, 0, 0, 0, 0, 0, 0], [some [49, 50, 51, 52, 0]]⟩⟩] ∧
      QueueLaw (run [getSimStatus, alloc 16 [49, 50, 51, 52, 0],
        alloc 24 [16, 0, 0, 0, 0, 0, 0, 0], enterSimPin, completed]) := by
  refine ⟨by decide +kernel, channel_queue_law ?_⟩
  have hinit : Reachable Initial AllowedStep { memory := fun _ => none } := .init ⟨_, rfl⟩
  have hfirst := hinit.next getSimStatus ⟨⟨⟨rfl, rfl⟩, rfl⟩, ?_⟩
  · have hstring := hfirst.next (alloc 16 [49, 50, 51, 52, 0])
      ⟨⟨⟨rfl, trivial⟩, rfl⟩, fun _ _ hp => absurd hp List.not_mem_nil⟩
    have harray := hstring.next (alloc 24 [16, 0, 0, 0, 0, 0, 0, 0])
      ⟨⟨⟨rfl, trivial⟩, rfl⟩, fun _ _ hp => absurd hp List.not_mem_nil⟩
    have hsecond := harray.next enterSimPin ⟨⟨⟨rfl, rfl⟩, rfl⟩, ?_⟩
    · exact hsecond.next completed
        ⟨⟨by decide +kernel, rfl⟩, fun h => absurd h Bool.false_ne_true⟩
    · refine ⟨fun h => absurd h (by decide), fun lane hlane hflag => ?_, ?_⟩
      · obtain rfl := Option.some.inj hlane
        exact absurd rfl hflag
      · rw [if_pos (by decide +kernel)]
        exact {
          request := rfl
          format := by decide
          flat := by decide +kernel
          there := by decide +kernel
          blocks := ⟨by decide, fun a ha => by
            cases List.mem_singleton.mp ha
            exact ⟨_, rfl⟩⟩
          apart := fun _ _ hp => absurd hp List.not_mem_nil }
  · refine ⟨fun h => absurd h (by decide), fun lane hlane hflag => ?_, ?_⟩
    · obtain rfl := Option.some.inj hlane
      exact absurd rfl hflag
    · rw [if_neg (by decide +kernel)]
      exact {
        ints := fun h => absurd h (by decide)
        blocks := ⟨List.nodup_nil, fun _ ha => absurd ha List.not_mem_nil⟩
        apart := fun _ _ hp => absurd hp List.not_mem_nil }

/-- `RADIO_POWER` of the second slot leaves the first slot busy for ever. A string that had to
wait reaches the vendor cut off, and is then freed twice, a short one as well: the process ends
while another request waits. -/
theorem radio_power_blocks_first_slot :
    (Reachable Initial Step (run [alloc 16 [1, 0, 0, 0], radioPower]) ∧
        ¬QueueLaw (run [alloc 16 [1, 0, 0, 0], radioPower])) ∧
      (Reachable Initial Step (run [getSimStatus,
          alloc 16 [56, 49, 48, 51, 48, 49, 50, 53, 48, 48, 0], terminalResponse, completed]) ∧
        (run [getSimStatus, alloc 16 [56, 49, 48, 51, 48, 49, 50, 53, 48, 48, 0],
          terminalResponse, completed]).given (some ⟨.socket1, .proxy1⟩) ++
            ((run [getSimStatus, alloc 16 [56, 49, 48, 51, 48, 49, 50, 53, 48, 48, 0],
              terminalResponse, completed]).queues.queue ⟨.socket1, .proxy1⟩).map
                ProxyReqInfo.passed ≠
          (run [getSimStatus, alloc 16 [56, 49, 48, 51, 48, 49, 50, 53, 48, 48, 0],
            terminalResponse, completed]).enqueued (some ⟨.socket1, .proxy1⟩)) ∧
      Reachable Initial Step
        (run [getSimStatus, alloc 16 [57, 0], terminalResponse, getSimStatus, completed]) ∧
      (run [getSimStatus, alloc 16 [57, 0], terminalResponse, getSimStatus, completed]).ended =
        true ∧
      (run [getSimStatus, alloc 16 [57, 0], terminalResponse, getSimStatus,
        completed]).queues.queue ⟨.socket1, .proxy1⟩ ≠ [] := by
  have hinit : Reachable Initial Step { memory := fun _ => none } := .init ⟨_, rfl⟩
  have hfirst := hinit.next getSimStatus ⟨⟨rfl, rfl⟩, rfl⟩
  refine ⟨⟨?_, fun hlaw => ?_⟩, ⟨?_, by decide +kernel⟩, ?_, by decide +kernel, by decide +kernel⟩
  · have hints := hinit.next (alloc 16 [1, 0, 0, 0]) ⟨⟨rfl, trivial⟩, rfl⟩
    exact hints.next radioPower ⟨⟨rfl, rfl⟩, rfl⟩
  · exact absurd ((hlaw.busy ⟨.socket1, .proxy1⟩).mp (by decide +kernel)) (by decide +kernel)
  · have hstring := hfirst.next (alloc 16 [56, 49, 48, 51, 48, 49, 50, 53, 48, 48, 0])
      ⟨⟨rfl, trivial⟩, rfl⟩
    have hsecond := hstring.next terminalResponse ⟨⟨rfl, rfl⟩, rfl⟩
    exact hsecond.next completed ⟨by decide +kernel, rfl⟩
  · have hstring := hfirst.next (alloc 16 [57, 0]) ⟨⟨rfl, trivial⟩, rfl⟩
    have hsecond := hstring.next terminalResponse ⟨⟨rfl, rfl⟩, rfl⟩
    have hthird := hsecond.next getSimStatus ⟨by decide +kernel, rfl⟩
    exact hthird.next completed ⟨by decide +kernel, rfl⟩

end Traces

end MeizuM5c.Ril.Channel
