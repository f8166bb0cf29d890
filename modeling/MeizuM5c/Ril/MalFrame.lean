import MeizuM5c.Lib.MachineInt
import MeizuM5c.Ril.Mal

/-!
The request frames of the MAL socket, from the bytes that `read` returns to the
command that `malDispatch` copies out. A frame's body is the list of its bytes,
and a read that is not inside the body has no result.
-/

namespace MeizuM5c.Ril

open Lib

def MAL_HEADER_BYTES : UInt32 := 16
def MAL_MAX_FRAME : UInt32 := 65536

def malPutLE (v : UInt32) : Bytes :=
  [(v &&& 0xff).toUInt8, ((v >>> 8) &&& 0xff).toUInt8,
    ((v >>> 16) &&& 0xff).toUInt8, ((v >>> 24) &&& 0xff).toUInt8]

def malPutBE (v : UInt32) : Bytes :=
  [((v >>> 24) &&& 0xff).toUInt8, ((v >>> 16) &&& 0xff).toUInt8,
    ((v >>> 8) &&& 0xff).toUInt8, (v &&& 0xff).toUInt8]

section Reading

/-- What one `read` of the connection meets next. Bytes that arrive are at
least one: a read of 0 bytes says that the peer has closed. -/
inductive SocketEvent where
  | data (first : UInt8) (rest : Bytes)
  | eintr
  | closed
  | error
deriving DecidableEq

inductive ReadResult where
  | ok (buf : Bytes) (rest : List SocketEvent)
  | failed
  | blocked
deriving DecidableEq

/-- A read takes what has arrived, but not more than is still wanted. -/
def malReadAll : Nat → List SocketEvent → ReadResult
  | 0, events => .ok [] events
  | _ + 1, [] => .blocked
  | want + 1, .eintr :: events => malReadAll (want + 1) events
  | _ + 1, .closed :: _ => .failed
  | _ + 1, .error :: _ => .failed
  | want + 1, .data b bs :: events =>
      match bs.drop want with
      | c :: cs => .ok (b :: bs.take want) (.data c cs :: events)
      | [] =>
          match malReadAll (want - bs.length) events with
          | .ok buf events => .ok (b :: bs ++ buf) events
          | .failed => .failed
          | .blocked => .blocked

/-- The bytes that arrive. -/
def streamBytes : List SocketEvent → Bytes
  | [] => []
  | .data b bs :: events => b :: bs ++ streamBytes events
  | _ :: events => streamBytes events

/-- Nothing but bytes and interrupted reads. -/
def Uninterrupted (events : List SocketEvent) : Prop :=
  ∀ e ∈ events, e ≠ .closed ∧ e ≠ .error

end Reading

section Parsing

/-- A word of the body. -/
def bodyWord (body : Bytes) (offset : Nat) : Option UInt32 :=
  if offset + 4 ≤ body.length then some (malGetLE (body.drop offset)) else none

/-- `memcpy` out of the body. -/
def bodyBytes (body : Bytes) (offset len : Nat) : Option Bytes :=
  if offset + len ≤ body.length then some ((body.drop offset).take len) else none

/-- A request 2106 as `malDispatch` has taken it out of the frame. -/
structure AtCommand where
  simId : UInt32
  serial : UInt32
  channel : UInt32
  cmd : Bytes
deriving DecidableEq

/-- What becomes of one frame. -/
inductive FrameResult where
  | drop
  | answer (simId serial err : UInt32)
  | dispatch (command : AtCommand)
deriving DecidableEq

variable (malloc : Nat → Bool)

/-- `malDispatch` up to the copy of the command. The payload is given by its
place in the body. -/
def malDispatchPayload (body : Bytes) (simId requestId serial : UInt32)
    (payload payloadLen : Nat) : Option FrameResult :=
  if requestId ≠ RIL_REQUEST_AT_COMMAND_WITH_PROXY then
    some (.answer simId serial RIL_E_GENERIC_FAILURE)
  else if payloadLen < 8 then some (.answer simId serial RIL_E_GENERIC_FAILURE)
  else do
    let channel ← bodyWord body payload
    let cmdLen ← bodyWord body (payload + 4)
    if cmdLen.toNat > payloadLen - 8 then some (.answer simId serial RIL_E_GENERIC_FAILURE)
    else if !malloc (cmdLen + 1).toNat then some (.answer simId serial RIL_E_NO_MEMORY)
    else
      let cmd ← bodyBytes body (payload + 8) cmdLen.toNat
      some (.dispatch ⟨simId, serial, channel, cmd ++ [0]⟩)

/-- The slot, when the header is long enough to hold it. -/
def headerSim (body : Bytes) (hdrLen : UInt32) : Option UInt32 :=
  if hdrLen ≥ 4 then bodyWord body 4 else some 0

/-- The server loop on a body that has been read. -/
def malFrame (bodyLen : UInt32) (body : Bytes) : Option FrameResult := do
  let hdrLen ← bodyWord body 0
  if hdrLen > bodyLen ∨ bodyLen - hdrLen < 12 then some .drop
  else
    let simId ← headerSim body hdrLen
    let requestId ← bodyWord body (4 + hdrLen.toNat)
    let serial ← bodyWord body (8 + hdrLen.toNat)
    malDispatchPayload malloc body simId requestId serial (12 + hdrLen.toNat)
      (bodyLen - 12 - hdrLen).toNat

/-- The length word in front of the body. -/
def bodyLength (lenBuf : Bytes) : UInt32 :=
  ((lenBuf.getD 0 0).toUInt32 <<< 24) ||| ((lenBuf.getD 1 0).toUInt32 <<< 16) |||
    ((lenBuf.getD 2 0).toUInt32 <<< 8) ||| (lenBuf.getD 3 0).toUInt32

/-- How far a connection has come: what its frames became, and whether the
server still waits for bytes or has dropped it. -/
structure Served where
  results : List FrameResult
  dropped : Bool
deriving DecidableEq

def Served.after (served : Served) (result : FrameResult) : Served :=
  { served with results := result :: served.results }

/-- What one pass of the loop comes to. -/
inductive Pass where
  | stop (dropped : Bool)
  | next (result : FrameResult) (events : List SocketEvent)
deriving DecidableEq

/-- One pass of `malServerLoop` on a connection. -/
def malPass (events : List SocketEvent) : Option Pass :=
  match malReadAll 4 events with
  | .failed => some (.stop true)
  | .blocked => some (.stop false)
  | .ok lenBuf events =>
      let bodyLen := bodyLength lenBuf
      if bodyLen < MAL_HEADER_BYTES ∨ bodyLen > MAL_MAX_FRAME then some (.stop true)
      else
        match malReadAll bodyLen.toNat events with
        | .failed => some (.stop true)
        | .blocked => some (.stop false)
        | .ok body events => do
            let result ← malFrame malloc bodyLen body
            if result = .drop then some (.stop true) else some (.next result events)

def malServerLoopFor : Nat → List SocketEvent → Option Served
  | 0, _ => none
  | fuel + 1, events => do
      match ← malPass malloc events with
      | .stop dropped => some ⟨[], dropped⟩
      | .next result events =>
          let served ← malServerLoopFor fuel events
          some (served.after result)

/-- Every frame takes bytes, so their number bounds the passes. -/
def malServerLoop (events : List SocketEvent) : Option Served :=
  malServerLoopFor malloc ((streamBytes events).length + 1) events

end Parsing

/-- The body of a request 2106, as the client writes it. -/
def requestBody (r : AtCommand) : Bytes :=
  malPutLE 4 ++ malPutLE r.simId ++ malPutLE RIL_REQUEST_AT_COMMAND_WITH_PROXY ++
    malPutLE r.serial ++ malPutLE r.channel ++ malPutLE (UInt32.ofNat r.cmd.length) ++ r.cmd

def requestFrame (r : AtCommand) : Bytes :=
  malPutBE (UInt32.ofNat (requestBody r).length) ++ requestBody r

/-- The command with the terminator that the parser adds. -/
def AtCommand.terminated (r : AtCommand) : AtCommand := { r with cmd := r.cmd ++ [0] }

end MeizuM5c.Ril
