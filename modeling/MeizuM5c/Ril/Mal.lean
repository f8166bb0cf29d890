import Mathlib.Tactic

/-!
The MAL server of the radio library. One thread reads requests from the
socket and runs `malDispatch` on each; the vendor's library completes the
tokens it was given from threads of its own, through `malClaim` and
`malComplete`. Both sides meet in the table of requests in flight.

Memory that both sides share is what the table holds and which addresses are
allocated. A value that travels from a completion to an answer keeps the
number of the request whose token was completed; the program does not store
that number.
-/

namespace MeizuM5c.Ril

abbrev Bytes := List UInt8

/-- The bytes of a C string that are in front of its terminator. -/
def strnlen (text : Bytes) : Bytes := text.takeWhile (· != 0)

def malGetLE (p : Bytes) : UInt32 :=
  (p.getD 0 0).toUInt32 ||| ((p.getD 1 0).toUInt32 <<< 8) |||
    ((p.getD 2 0).toUInt32 <<< 16) ||| ((p.getD 3 0).toUInt32 <<< 24)

def RIL_REQUEST_AT_COMMAND_WITH_PROXY : UInt32 := 2106
def RIL_E_SUCCESS : UInt32 := 0
def RIL_E_GENERIC_FAILURE : UInt32 := 2
def RIL_E_NO_MEMORY : UInt32 := 37
def RIL_SOCKET_1 : UInt32 := 0
def SIM_COUNT : UInt32 := 2
abbrev MAL_MAX_INFLIGHT : Nat := 16
def MAL_MAX_ATTEMPTS : Nat := 10

/-- A value and the request whose completion brought it; `none` when
`malDispatch` chose the value itself. -/
structure Sourced (α : Type) where
  value : α
  source : Option Nat
deriving DecidableEq

/-- The parts of a `RequestInfo` that the MAL path uses: where it was
allocated, and the MAL request it was created for. A token of the ordinary
request path has no such request. -/
structure RequestInfo where
  address : Nat
  request : Option Nat
  token : UInt32
  socketId : UInt32
deriving DecidableEq

/-- One entry of `s_malInflight`. -/
structure MalSlot where
  inUse : Bool := false
  pRI : Option RequestInfo := none
  serial : UInt32 := 0
  simId : UInt32 := 0
  cmd : Option Bytes := none
  done : Bool := false
  err : Sourced UInt32 := ⟨0, none⟩
  text : Sourced Bytes := ⟨[], none⟩
deriving DecidableEq

/-- A call of `RIL_onRequestComplete`: the token, the error and the response
buffer, if there is one. -/
structure Completion where
  pRI : RequestInfo
  e : UInt32
  response : Option Bytes
deriving DecidableEq

/-- What `malSendFrame` is called with, and for which request. -/
structure Frame where
  request : Nat
  simId : UInt32
  serial : UInt32
  err : Sourced UInt32
  text : Sourced Bytes
deriving DecidableEq

/-- A request as the server loop hands it to `malDispatch`. -/
structure Request where
  simId : UInt32
  requestId : UInt32
  serial : UInt32
  payload : Bytes
deriving DecidableEq

/-- The command of a request, or the error that answers it before a slot is
taken. `alloc` says whether the command's buffer could be allocated. -/
def malCommand (r : Request) (alloc : Bool) : Except UInt32 Bytes :=
  if r.requestId ≠ RIL_REQUEST_AT_COMMAND_WITH_PROXY then .error RIL_E_GENERIC_FAILURE
  else if r.payload.length < 8 then .error RIL_E_GENERIC_FAILURE
  else
    let cmdLen := (malGetLE (r.payload.drop 4)).toNat
    if cmdLen > r.payload.length - 8 then .error RIL_E_GENERIC_FAILURE
    else if !alloc then .error RIL_E_NO_MEMORY
    else .ok ((r.payload.drop 8).take cmdLen ++ [0])

abbrev Slots := Fin MAL_MAX_INFLIGHT → MalSlot

/-- The slot that holds a token. -/
def malClaim (slots : Slots) (pRI : RequestInfo) : Option (Fin MAL_MAX_INFLIGHT) :=
  (List.finRange MAL_MAX_INFLIGHT).find? fun i =>
    (slots i).inUse && (slots i).pRI.map RequestInfo.address == some pRI.address

def freeSlot (slots : Slots) : Option (Fin MAL_MAX_INFLIGHT) :=
  (List.finRange MAL_MAX_INFLIGHT).find? fun i => !(slots i).inUse

/-- The text that `malComplete` parks; `alloc` says whether its copy could be
allocated. -/
def Completion.text (c : Completion) (alloc : Bool) : Bytes :=
  if alloc then (c.response.map strnlen).getD [] else []

/-- `malComplete` writes into the slot it was told, whatever that slot holds
by now. -/
def malComplete (slots : Slots) (slot : Fin MAL_MAX_INFLIGHT) (c : Completion) (alloc : Bool) :
    Slots :=
  Function.update slots slot
    { slots slot with
      text := ⟨c.text alloc, c.pRI.request⟩
      err := ⟨c.e, c.pRI.request⟩
      done := true }

/-- The locals of one `malDispatch` from the moment its token exists. -/
structure Call where
  request : Nat
  simId : UInt32
  serial : UInt32
  cmd : Bytes
  slot : Fin MAL_MAX_INFLIGHT
  pRI : RequestInfo
deriving DecidableEq

/-- Where the server thread stands. -/
inductive Phase where
  | idle
  | claimed (request : Nat) (r : Request) (cmd : Bytes) (slot : Fin MAL_MAX_INFLIGHT)
  | attempt (call : Call) (attempt : Nat)
  | issue (call : Call) (attempt : Nat)
  | wait (call : Call) (attempt : Nat)
  | finish (call : Call) (timedOut : Bool)
  | send (call : Call) (timedOut : Bool) (err : Sourced UInt32) (text : Sourced Bytes)
  | release (call : Call) (timedOut : Bool)
deriving DecidableEq

/-- The server, the vendor and what they share. `vendor` holds the tokens
that were issued and not yet completed, `matched` the completions between
their `malClaim` and their `malComplete`. -/
structure Mal where
  slots : Slots := fun _ => {}
  phase : Phase := .idle
  requests : Nat := 0
  heap : List Nat := []
  vendor : List RequestInfo := []
  matched : List (Fin MAL_MAX_INFLIGHT × Completion) := []
  completions : List Completion := []
  frames : List Frame := []

/-- An answer that no completion contributed to. -/
def localFrame (request : Nat) (r : Request) (err : UInt32) : Frame :=
  { request, simId := r.simId, serial := r.serial, err := ⟨err, none⟩, text := ⟨[], none⟩ }

/-- `alloc` says whether the frame's buffer could be allocated. -/
def malSendFrame (alloc : Bool) (f : Frame) (frames : List Frame) : List Frame :=
  if alloc then frames ++ [f] else frames

/-- `malDispatch` up to and including the claim of a slot. -/
def dispatch (r : Request) (cmdAlloc frameAlloc : Bool) (s : Mal) : Mal :=
  let request := s.requests
  let s : Mal := { s with requests := request + 1 }
  match malCommand r cmdAlloc with
  | .error e =>
      { s with frames := malSendFrame frameAlloc (localFrame request r e) s.frames }
  | .ok cmd =>
      match freeSlot s.slots with
      | none =>
          { s with
            frames := malSendFrame frameAlloc
              (localFrame request r RIL_E_GENERIC_FAILURE) s.frames }
      | some slot =>
          { s with
            slots := Function.update s.slots slot
              { s.slots slot with
                inUse := true, serial := r.serial, simId := r.simId, cmd := some cmd }
            phase := .claimed request r cmd slot }

/-- No memory for the token: the slot is given back at once. -/
def createFailed (request : Nat) (r : Request) (slot : Fin MAL_MAX_INFLIGHT)
    (frameAlloc : Bool) (s : Mal) : Mal :=
  { s with
    slots := Function.update s.slots slot { s.slots slot with cmd := none, inUse := false }
    phase := .idle
    frames := malSendFrame frameAlloc (localFrame request r RIL_E_NO_MEMORY) s.frames }

/-- The token that `malDispatch` creates at the address `calloc` returned. -/
def malToken (request : Nat) (r : Request) (address : Nat) : RequestInfo :=
  { address
    request := some request
    token := r.serial
    socketId := if r.simId + 1 ≤ SIM_COUNT then r.simId + 1 else RIL_SOCKET_1 }

def create (request : Nat) (r : Request) (cmd : Bytes) (slot : Fin MAL_MAX_INFLIGHT)
    (address : Nat) (s : Mal) : Mal :=
  let pRI := malToken request r address
  { s with
    slots := Function.update s.slots slot
      { s.slots slot with
        pRI := some pRI, done := false, err := ⟨0, none⟩, text := ⟨[], none⟩ }
    heap := address :: s.heap
    phase := .attempt
      { request, simId := r.simId, serial := r.serial, cmd, slot, pRI } 1 }

def resetDone (call : Call) (attempt : Nat) (s : Mal) : Mal :=
  { s with
    slots := Function.update s.slots call.slot { s.slots call.slot with done := false }
    phase := .issue call attempt }

def onRequest (call : Call) (attempt : Nat) (s : Mal) : Mal :=
  { s with vendor := call.pRI :: s.vendor, phase := .wait call attempt }

/-- The wait ended with `done` set: a success or the last attempt is the
answer, any other error is tried again. -/
def wake (call : Call) (attempt : Nat) (s : Mal) : Mal :=
  { s with
    phase :=
      if (s.slots call.slot).err.value = RIL_E_SUCCESS ∨ MAL_MAX_ATTEMPTS ≤ attempt then
        .finish call false
      else .attempt call (attempt + 1) }

def timeout (call : Call) (s : Mal) : Mal := { s with phase := .finish call true }

/-- The last section under the lock: the answer leaves the slot. -/
def takeAnswer (call : Call) (timedOut : Bool) (s : Mal) : Mal :=
  let slot := s.slots call.slot
  { s with
    slots := Function.update s.slots call.slot { slot with text := ⟨[], none⟩ }
    phase := .send call timedOut
      (if timedOut then ⟨RIL_E_GENERIC_FAILURE, none⟩ else slot.err) slot.text }

def Call.frame (call : Call) (err : Sourced UInt32) (text : Sourced Bytes) : Frame :=
  { request := call.request, simId := call.simId, serial := call.serial, err, text }

def sendAnswer (call : Call) (timedOut : Bool) (err : Sourced UInt32) (text : Sourced Bytes)
    (alloc : Bool) (s : Mal) : Mal :=
  { s with
    phase := .release call timedOut
    frames := malSendFrame alloc (call.frame err text) s.frames }

/-- The slot is given back, and the token with it unless the vendor may still
complete it. -/
def release (call : Call) (timedOut : Bool) (s : Mal) : Mal :=
  { s with
    slots := Function.update s.slots call.slot
      { s.slots call.slot with cmd := none, pRI := none, inUse := false }
    heap := if timedOut then s.heap else s.heap.erase call.pRI.address
    phase := .idle }

/-- A request of the ordinary path, whose token is not one of ours. -/
def ordinaryRequest (pRI : RequestInfo) (s : Mal) : Mal :=
  { s with heap := pRI.address :: s.heap, vendor := pRI :: s.vendor }

/-- `RIL_onRequestComplete` up to `malClaim`. A token that no slot holds goes
to the ordinary path, which frees its own tokens and rejects all others. -/
def onRequestComplete (c : Completion) (s : Mal) : Mal :=
  let s : Mal :=
    { s with vendor := s.vendor.erase c.pRI, completions := s.completions ++ [c] }
  match malClaim s.slots c.pRI with
  | some slot => { s with matched := (slot, c) :: s.matched }
  | none => if c.pRI.request = none then { s with heap := s.heap.erase c.pRI.address } else s

/-- The rest of `RIL_onRequestComplete` for a token that was one of ours. -/
def complete (m : Fin MAL_MAX_INFLIGHT × Completion) (alloc : Bool) (s : Mal) : Mal :=
  { s with slots := malComplete s.slots m.1 m.2 alloc, matched := s.matched.erase m }

end MeizuM5c.Ril
