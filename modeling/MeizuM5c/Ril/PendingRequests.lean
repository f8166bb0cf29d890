import MeizuM5c.Lib.Transition
import MeizuM5c.Ril.CommandTables

/-!
The lists of pending requests, one for each slot. A binder thread adds a request
and hands its address to the vendor as a token; the vendor acknowledges and
completes tokens from threads of its own. What a function does under the list's
mutex is one step; what follows it without the mutex is a step of its own.

Memory is read through the address that a token is. A token may be stale: what
its memory holds is then arbitrary, and an address may be allocated again. Every
request has a number, which the program does not store.
-/

namespace MeizuM5c.Ril.Pending

open Lib

inductive SocketId where
  | socket1
  | socket2
deriving DecidableEq, Repr

def RIL_CHANNEL_OFFSET : Nat := 6
def RIL_REQUEST_DEVICE_IDENTITY : Int := 98
def RIL_E_SUCCESS : Int := 0

structure RequestInfo where
  number : Nat
  token : Int
  pCI : CommandInfo
  cancelled : Bool
  isLocal : Bool
  socketId : SocketId
  wasAckSent : Bool
  cid : Nat

inductive ResponseType where
  | solicited
  | solicitedAckExp
deriving DecidableEq, Repr

/-- A call of a response function, which answers the framework. -/
structure Response where
  number : Nat
  socketId : SocketId
  responseType : ResponseType
  token : Int
  e : Int

/-- `taken` holds the completions between the list and their answer, with their
error, `responded` those between the answer and `free`, and `acking` the
acknowledgements that have left the list's mutex. `added` and `settled` record
every request that was added, newest first, and every request whose answer was
given or is under way. -/
structure State where
  heap : Nat → RequestInfo
  pendingRequests : SocketId → List Nat := fun _ => []
  acking : List Nat := []
  taken : List (Nat × Int) := []
  responded : List Nat := []
  added : List RequestInfo := []
  settled : List Nat := []
  responses : List Response := []
  acks : List (SocketId × Int) := []

/-- The request that memory at an address belongs to. -/
def State.number (σ : State) (p : Nat) : Nat := (σ.heap p).number

/-- Where memory is in use for a request. -/
def State.allocated (σ : State) : List Nat :=
  σ.pendingRequests .socket1 ++ σ.pendingRequests .socket2 ++ σ.taken.map Prod.fst ++ σ.responded

inductive Op where
  | addRequestToList (serial : Int) (slotId : SocketId) (request : Int) (p : Nat)
  | sendErrorResponse (pRI : Nat) (err : Int)
  | onRequestAck (t : Nat)
  | acknowledgeRequest (t : Nat)
  | onRequestComplete (t : Nat) (e : Int) (claimed : Bool)
  | respond (t : Nat) (e : Int) (emulated : Bool)
  | free (t : Nat)
  | scribble (p : Nat) (contents : RequestInfo)

section Operations

-- what stands at an index of `s_commands`, and behind the table
variable (commands : Int → CommandInfo) (start : Nat) (version : Int)

/-- The request that `addRequestToList` creates. -/
def newRequest (number : Nat) (serial : Int) (slotId : SocketId) (request : Int) : RequestInfo :=
  let pCI := commands (commandIndex start request)
  { number
    token := serial
    pCI
    cancelled := false
    isLocal := serial = -1
    socketId := slotId
    wasAckSent := false
    cid := pCI.proxyId.channel + if slotId = .socket1 then 0 else RIL_CHANNEL_OFFSET }

/-- `p` is the address from `calloc`, 0 when there is no memory. -/
def addRequestToList (σ : State) (serial : Int) (slotId : SocketId) (request : Int) (p : Nat) :
    State :=
  if p = 0 then σ
  else
    let pRI := newRequest commands start σ.added.length serial slotId request
    { σ with
      heap := Function.update σ.heap p pRI
      pendingRequests := Function.update σ.pendingRequests slotId (p :: σ.pendingRequests slotId)
      added := pRI :: σ.added }

/-- The answer leaves at once, and the list is left as it is. -/
def sendErrorResponse (σ : State) (pRI : Nat) (err : Int) : State :=
  let r := σ.heap pRI
  { σ with
    settled := r.number :: σ.settled
    responses := ⟨r.number, r.socketId, .solicited, r.token, err⟩ :: σ.responses }

/-- Whether the token is pending, and the state after an acknowledgement was noted
or the token unlinked. -/
def checkAndDequeueRequestInfoIfAck (σ : State) (pRI : Nat) (isAck : Bool) : Bool × State :=
  if pRI = 0 then (false, σ)
  else
    let hook := (σ.heap pRI).socketId
    if pRI ∈ σ.pendingRequests hook then
      if isAck then
        (true, { σ with heap := Function.update σ.heap pRI { σ.heap pRI with wasAckSent := true } })
      else
        (true, { σ with
          pendingRequests :=
            Function.update σ.pendingRequests hook ((σ.pendingRequests hook).erase pRI) })
    else (false, σ)

def onRequestAck (σ : State) (t : Nat) : State :=
  let checked := checkAndDequeueRequestInfoIfAck σ t true
  if checked.1 then { checked.2 with acking := t :: σ.acking } else checked.2

def acknowledgeRequest (σ : State) (t : Nat) : State :=
  let pRI := σ.heap t
  { σ with
    acking := σ.acking.erase t
    acks := if pRI.cancelled then σ.acks else (pRI.socketId, pRI.token) :: σ.acks }

/-- `RIL_onRequestComplete` as far as the list; `claimed` says that `malClaim`
found the token in a slot of its own. -/
def onRequestComplete (σ : State) (t : Nat) (e : Int) (claimed : Bool) : State :=
  if claimed then σ
  else
    let checked := checkAndDequeueRequestInfoIfAck σ t false
    if checked.1 then
      { checked.2 with taken := (t, e) :: σ.taken, settled := σ.number t :: σ.settled }
    else checked.2

/-- What the response function is called with. `emulated` says that the identity
of the device is answered by this library. -/
def RequestInfo.response (pRI : RequestInfo) (e : Int) (emulated : Bool) : Response :=
  { number := pRI.number
    socketId := pRI.socketId
    responseType := if 13 ≤ version ∧ pRI.wasAckSent then .solicitedAckExp else .solicited
    token := pRI.token
    e :=
      if pRI.pCI.requestNumber = RIL_REQUEST_DEVICE_IDENTITY ∧ emulated then RIL_E_SUCCESS else e }

/-- The rest of `RIL_onRequestComplete` as far as the answer. A local request has
none, nor has one without a response function. -/
def respond (σ : State) (t : Nat) (e : Int) (emulated : Bool) : State :=
  let pRI := σ.heap t
  let σ : State := { σ with taken := σ.taken.erase (t, e), responded := t :: σ.responded }
  if pRI.isLocal then σ
  else if pRI.cancelled = false ∧ pRI.pCI.responseFunction then
    { σ with responses := pRI.response version e emulated :: σ.responses }
  else σ

/-- When a thread can take a step. The error path calls the response function
without a check, and is given requests that are still allocated. Memory that is
not allocated to a request may be overwritten. -/
def Enabled (σ : State) : Op → Prop
  | .addRequestToList _ _ _ p => p ∉ σ.allocated
  | .sendErrorResponse pRI _ => pRI ∈ σ.allocated ∧ (σ.heap pRI).pCI.responseFunction = true
  | .onRequestAck _ => True
  | .acknowledgeRequest t => t ∈ σ.acking
  | .onRequestComplete _ _ _ => True
  | .respond t e _ => (t, e) ∈ σ.taken
  | .free t => t ∈ σ.responded
  | .scribble p _ => p ∉ σ.allocated

instance (σ : State) : DecidablePred (Enabled σ)
  | .addRequestToList _ _ _ p => inferInstanceAs (Decidable (p ∉ σ.allocated))
  | .sendErrorResponse _ _ => inferInstanceAs (Decidable (_ ∧ _))
  | .onRequestAck _ => inferInstanceAs (Decidable True)
  | .acknowledgeRequest t => inferInstanceAs (Decidable (t ∈ σ.acking))
  | .onRequestComplete _ _ _ => inferInstanceAs (Decidable True)
  | .respond t e _ => inferInstanceAs (Decidable ((t, e) ∈ σ.taken))
  | .free t => inferInstanceAs (Decidable (t ∈ σ.responded))
  | .scribble p _ => inferInstanceAs (Decidable (p ∉ σ.allocated))

def next (σ : State) : Op → State
  | .addRequestToList serial slotId request p =>
      addRequestToList commands start σ serial slotId request p
  | .sendErrorResponse pRI err => sendErrorResponse σ pRI err
  | .onRequestAck t => onRequestAck σ t
  | .acknowledgeRequest t => acknowledgeRequest σ t
  | .onRequestComplete t e claimed => onRequestComplete σ t e claimed
  | .respond t e emulated => respond version σ t e emulated
  | .free t => { σ with responded := σ.responded.erase t }
  | .scribble p contents => { σ with heap := Function.update σ.heap p contents }

def Step (σ : State) (op : Op) (τ : State) : Prop :=
  Enabled σ op ∧ τ = next commands start version σ op

/-- A step that does not answer a request with an error of its own. -/
def CompletionStep (σ : State) (op : Op) (τ : State) : Prop :=
  Step commands start version σ op τ ∧ ∀ pRI err, op ≠ .sendErrorResponse pRI err

end Operations

/-- Before the first request, whatever memory holds. -/
def Initial (σ : State) : Prop := ∃ heap, σ = { heap }

end MeizuM5c.Ril.Pending
