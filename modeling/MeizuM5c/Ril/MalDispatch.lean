import MeizuM5c.Ril.MalFrame
import MeizuM5c.Ril.MalAnswers

/-!
One request of the MAL socket from its frame to its answer. `malDispatch` is the
steps of the server thread in their order, with the vendor answering each
attempt or letting it run out; the answer is written to the connection that the
server loop is serving.
-/

namespace MeizuM5c.Ril

section Dispatch

/-- What the vendor does with one attempt. `alloc` says whether the copy of the
text could be allocated. -/
inductive Outcome where
  | completed (e : UInt32) (response : Option Bytes) (alloc : Bool)
  | timedOut
deriving DecidableEq

/-- What one `malDispatch` meets: whether the command's buffer is allocated,
what `calloc` returns for the token, and the outcome of each attempt. -/
structure Surroundings where
  cmdAlloc : Bool
  address : Option Nat
  outcome : Nat → Outcome

/-- `RIL_onRequestComplete` for the token of the attempt, if it is called. -/
def vendorOutcome (call : Call) (o : Outcome) (s : Mal) : Mal :=
  match o with
  | .timedOut => s
  | .completed e response alloc =>
      let c : Completion := ⟨call.pRI, e, response⟩
      match malClaim s.slots call.pRI with
      | some slot => complete (slot, c) alloc (onRequestComplete c s)
      | none => onRequestComplete c s

/-- The loop over the attempts: whether the last one ran out, its number, and
the state behind it. -/
def malAttempts (outcome : Nat → Outcome) (call : Call) : Nat → Nat → Mal → Bool × Nat × Mal
  | 0, attempt, s => (false, attempt, s)
  | fuel + 1, attempt, s =>
      let s := onRequest call attempt (resetDone call attempt s)
      let s := vendorOutcome call (outcome attempt) s
      if (s.slots call.slot).done = false then (true, attempt, timeout call s)
      else
        let s := wake call attempt s
        match s.phase with
        | .attempt _ next => malAttempts outcome call fuel next s
        | _ => (false, attempt, s)

/-- From the end of the loop to the end of `malDispatch`. -/
def malFinish (call : Call) (timedOut : Bool) (s : Mal) : Mal :=
  let s := takeAnswer call timedOut s
  match s.phase with
  | .send call timedOut err text =>
      release call timedOut (sendAnswer call timedOut err text true s)
  | _ => s

def malCall (request : Nat) (r : Request) (cmd : Bytes) (slot : Fin MAL_MAX_INFLIGHT)
    (address : Nat) : Call :=
  { request, simId := r.simId, serial := r.serial, cmd, slot, pRI := malToken request r address }

/-- The state after the request, and the number of attempts that were made. -/
def malDispatch (r : Request) (env : Surroundings) (s : Mal) : Mal × Nat :=
  let s := dispatch r env.cmdAlloc true s
  match s.phase, env.address with
  | .claimed request r _ slot, none => (createFailed request r slot true s, 0)
  | .claimed request r cmd slot, some address =>
      let call := malCall request r cmd slot address
      let (timedOut, attempts, s) := malAttempts env.outcome call MAL_MAX_ATTEMPTS 1
        (create request r cmd slot address s)
      (malFinish call timedOut s, attempts)
  | _, _ => (s, 0)

end Dispatch

section Interleaving

open Lib

variable {s : Mal}

private theorem vendorOutcome_reachable {call : Call} {n : Nat} (o : Outcome)
    (h : Reachable MalStart MalStep s) (hphase : s.phase = .wait call n)
    (hissued : call.pRI ∈ s.vendor) :
    Reachable MalStart MalStep (vendorOutcome call o s) ∧
      (vendorOutcome call o s).phase = .wait call n := by
  cases o with
  | timedOut => exact ⟨h, hphase⟩
  | completed e response alloc =>
      have hcompleted := h.next (.onRequestComplete ⟨call.pRI, e, response⟩) ⟨hissued, rfl⟩
      simp only [vendorOutcome]
      cases hclaim : malClaim s.slots call.pRI with
      | none =>
          refine ⟨hcompleted, ?_⟩
          simp only [onRequestComplete, hclaim]
          split_ifs
          · exact hphase
          · exact hphase
      | some slot =>
          refine ⟨hcompleted.next (.complete (slot, ⟨call.pRI, e, response⟩) alloc) ⟨?_, rfl⟩, ?_⟩
          · simp only [onRequestComplete, hclaim, List.mem_cons, true_or]
          · simp only [complete, onRequestComplete, hclaim, hphase]

private theorem malAttempts_reachable (outcome : Nat → Outcome) {call : Call} :
    ∀ {fuel n : Nat} {s : Mal}, Reachable MalStart MalStep s → s.phase = .attempt call n →
      n ≤ MAL_MAX_ATTEMPTS → MAL_MAX_ATTEMPTS < n + fuel →
        ∃ timedOut last t, malAttempts outcome call fuel n s = (timedOut, last, t) ∧
          Reachable MalStart MalStep t ∧ t.phase = .finish call timedOut := by
  intro fuel
  induction fuel with
  | zero => exact fun _ _ hn hfuel => absurd hfuel (not_lt.mpr hn)
  | succ fuel ih =>
      intro n s h hphase hn hfuel
      have hreset := h.next .resetDone ⟨call, n, hphase, rfl⟩
      have hissue := hreset.next .onRequest ⟨call, n, rfl, rfl⟩
      obtain ⟨hwait, hwaiting⟩ :=
        vendorOutcome_reachable (outcome n) hissue rfl List.mem_cons_self
      simp only [malAttempts]
      generalize vendorOutcome call (outcome n) (onRequest call n (resetDone call n s)) = t
        at hwait hwaiting ⊢
      by_cases hdone : (t.slots call.slot).done = false
      · rw [if_pos hdone]
        exact ⟨true, n, _, rfl, hwait.next .timeout ⟨call, n, hwaiting, hdone, rfl⟩, rfl⟩
      · have hwoken := hwait.next .wake ⟨call, n, hwaiting, by simpa using hdone, rfl⟩
        rw [if_neg hdone]
        by_cases hlast : (t.slots call.slot).err.value = RIL_E_SUCCESS ∨ MAL_MAX_ATTEMPTS ≤ n
        · have hfinish : (wake call n t).phase = .finish call false := by
            simp only [wake, if_pos hlast]
          rw [hfinish]
          exact ⟨false, n, _, rfl, hwoken, hfinish⟩
        · have hagain : (wake call n t).phase = .attempt call (n + 1) := by
            simp only [wake, if_neg hlast]
          rw [hagain]
          obtain ⟨-, hleft⟩ := not_or.mp hlast
          exact ih hwoken hagain (not_le.mp hleft) (by omega)

private theorem dispatch_heap (r : Request) (cmdAlloc frameAlloc : Bool) (s : Mal) :
    (dispatch r cmdAlloc frameAlloc s).heap = s.heap := by
  simp only [dispatch]
  split
  · rfl
  · split <;> rfl

/-- A request that is dispatched without a stop is one of the interleavings: the
state behind it can be reached in the system of both threads. -/
theorem malDispatch_reachable (h : Reachable MalStart MalStep s) (hidle : s.phase = .idle)
    (r : Request) (env : Surroundings) (hfresh : ∀ address ∈ env.address, address ∉ s.heap) :
    Reachable MalStart MalStep (malDispatch r env s).1 := by
  have hdispatch := h.next (.dispatch r env.cmdAlloc true) ⟨hidle, rfl⟩
  simp only [malDispatch]
  split
  · case _ request r' cmd slot hphase haddress =>
      exact hdispatch.next (.createFailed true) ⟨request, r', cmd, slot, hphase, rfl⟩
  · case _ request r' cmd slot address hphase haddress =>
      have hheap : address ∉ (dispatch r env.cmdAlloc true s).heap := by
        rw [dispatch_heap]
        exact hfresh address haddress
      have hcreate :=
        hdispatch.next (.create address) ⟨request, r', cmd, slot, hphase, hheap, rfl⟩
      obtain ⟨timedOut, last, t, hrun, ht, hfinish⟩ :=
        malAttempts_reachable env.outcome hcreate rfl (by decide)
          (by decide : MAL_MAX_ATTEMPTS < 1 + MAL_MAX_ATTEMPTS)
      have htaken := ht.next .takeAnswer ⟨_, timedOut, hfinish, rfl⟩
      have hsent := htaken.next (.sendAnswer true) ⟨_, timedOut, _, _, rfl, rfl⟩
      have hreleased := hsent.next .release ⟨_, timedOut, rfl, rfl⟩
      simp only [malCall, hrun]
      exact hreleased
  · exact hdispatch

end Interleaving

section Connection

/-- The bytes that `malSendFrame` writes. -/
def answerBytes (simId serial err : UInt32) (text : Bytes) : Bytes :=
  let payloadLen := 4 + text.length
  let bodyLen := 24 + payloadLen
  malPutBE (UInt32.ofNat bodyLen) ++ malPutLE 8 ++ malPutLE 1 ++ malPutLE simId ++ malPutLE 0 ++
    malPutLE serial ++ malPutLE err ++ malPutLE (UInt32.ofNat text.length) ++ text

def Frame.bytes (f : Frame) : Bytes := answerBytes f.simId f.serial f.err.value f.text.value

/-- The server thread: the connection its loop reads from, the descriptor that
answers are written to, and what has been written where. -/
structure MalServer where
  mal : Mal := {}
  fd : Option Nat := none
  clientFd : Int := -1
  written : List (Int × Bytes) := []

def MalServer.accept (fd : Nat) (s : MalServer) : MalServer :=
  { s with fd := some fd, clientFd := fd }

/-- The frames that a request has produced go to the client, if there is one. -/
def MalServer.dispatch (r : Request) (env : Surroundings) (s : MalServer) : MalServer :=
  let mal := (malDispatch r env s.mal).1
  let frames := mal.frames.drop s.mal.frames.length
  { s with
    mal
    written := s.written ++
      if s.clientFd ≥ 0 then frames.map fun f => (s.clientFd, f.bytes) else [] }

def MalServer.gone (s : MalServer) : MalServer := { s with fd := none, clientFd := -1 }

/-- What the server loop does next: a client connects, a frame of it is
dispatched, or the client goes. -/
inductive ServerEvent where
  | accept (fd : Nat)
  | dispatch (r : Request) (env : Surroundings)
  | gone

def ServerStep (s : MalServer) : ServerEvent → MalServer → Prop
  | .accept fd, t => s.fd = none ∧ t = s.accept fd
  | .dispatch r env, t => s.fd.isSome ∧ t = s.dispatch r env
  | .gone, t => s.fd.isSome ∧ t = s.gone

def ServerStart (s : MalServer) : Prop := s = {}

end Connection

end MeizuM5c.Ril
