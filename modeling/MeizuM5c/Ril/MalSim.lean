import MeizuM5c.Ril.ChannelMutex
import MeizuM5c.Ril.MalAnswers

/-!
Which SIM a MAL request reaches. The slot number of a frame, counted from 0,
becomes the socket that the vendor is told and the channel whose mutex the
request is issued under. Both are computed from a word that the client chose.
-/

namespace MeizuM5c.Ril

open Lib Mutex

/-- The first socket number that is not the socket of a SIM. -/
def RIL_SOCKET_NUM : UInt32 := 2

/-- The request that the server is about to issue goes to the SIM that its
frame names, and no operation on the slot number leaves its type: the channel is
six times the slot number itself. -/
structure IssuedToItsSim (call : Call) : Prop where
  socket : call.simId < SIM_COUNT → call.pRI.socketId = call.simId
  inside : call.pRI.socketId < RIL_SOCKET_NUM
  mutex : (mtkChannelIndex (malChannel call.simId)).val = call.simId.toNat * 6 % MTK_CHANNEL_COUNT
  next : call.simId.toNat + 1 < 2 ^ 32
  product : malChannel call.simId = (call.simId.toNat : Int) * 6

/-- Whenever the server issues a request for this slot number, it is right. -/
def SimLaw (simId : UInt32) : Prop :=
  ∀ s call n, Reachable MalStart MalStep s → s.phase = .issue call n → call.simId = simId →
    IssuedToItsSim call

/-- Past the SIM slots, and small enough for the product. -/
def SimInRange (simId : UInt32) : Prop :=
  2 ≤ simId.toNat ∧ simId.toNat ≤ 357913941

section Token

variable {s t : Mal} {label : MalLabel}

/-- The call carries a token that was made for its own slot number. -/
def Call.FromToken (call : Call) : Prop :=
  ∃ request r address, call.pRI = malToken request r address ∧ call.simId = r.simId

/-- A step goes on with the call at work, or begins one with a new token. -/
theorem malStep_call (h : MalStep s label t) {call : Call} (hcall : t.phase.call? = some call) :
    s.phase.call? = some call ∨ call.FromToken := by
  cases label with
  | dispatch r cmdAlloc frameAlloc =>
      obtain ⟨hphase, rfl⟩ := h
      unfold dispatch at hcall
      split at hcall
      · simp [hphase, Phase.call?] at hcall
      · simp only at hcall
        split at hcall
        · simp [hphase, Phase.call?] at hcall
        · simp [Phase.call?] at hcall
  | createFailed frameAlloc =>
      obtain ⟨request, r, cmd, slot, hphase, rfl⟩ := h
      simp [createFailed, Phase.call?] at hcall
  | create address =>
      obtain ⟨request, r, cmd, slot, hphase, hfresh, rfl⟩ := h
      have hnew : call = ⟨request, r.simId, r.serial, cmd, slot, malToken request r address⟩ :=
        (Option.some.inj hcall).symm
      rw [hnew]
      exact .inr ⟨request, r, address, rfl, rfl⟩
  | resetDone =>
      obtain ⟨call', n, hphase, rfl⟩ := h
      rw [hphase]
      exact .inl hcall
  | onRequest =>
      obtain ⟨call', n, hphase, rfl⟩ := h
      rw [hphase]
      exact .inl hcall
  | wake =>
      obtain ⟨call', n, hphase, hdone, rfl⟩ := h
      rw [hphase]
      simp only [wake] at hcall
      split at hcall
      · exact .inl hcall
      · exact .inl hcall
  | timeout =>
      obtain ⟨call', n, hphase, hdone, rfl⟩ := h
      rw [hphase]
      exact .inl hcall
  | takeAnswer =>
      obtain ⟨call', timedOut, hphase, rfl⟩ := h
      rw [hphase]
      exact .inl hcall
  | sendAnswer alloc =>
      obtain ⟨call', timedOut, err, text, hphase, rfl⟩ := h
      rw [hphase]
      exact .inl hcall
  | release =>
      obtain ⟨call', timedOut, hphase, rfl⟩ := h
      simp [release, Phase.call?] at hcall
  | ordinaryRequest pRI =>
      obtain ⟨hrequest, hfresh, rfl⟩ := h
      exact .inl hcall
  | onRequestComplete c =>
      obtain ⟨hvendor, rfl⟩ := h
      left
      unfold onRequestComplete at hcall
      simp only at hcall
      split at hcall
      · exact hcall
      · split at hcall
        · exact hcall
        · exact hcall
  | complete m alloc =>
      obtain ⟨hm, rfl⟩ := h
      exact .inl hcall

/-- In every run, the call at work carries the token of its own frame. -/
theorem call_fromToken (h : Reachable MalStart MalStep s) {call : Call}
    (hcall : s.phase.call? = some call) : call.FromToken := by
  have hinv : ∀ call, s.phase.call? = some call → call.FromToken := by
    apply Reachable.invariant (P := fun s : Mal => ∀ call, s.phase.call? = some call →
      call.FromToken) _ _ h
    · intro s hs call hcall
      rw [hs] at hcall
      cases hcall
    · intro s label t hs hstep call hcall
      rcases malStep_call hstep hcall with hold | hnew
      · exact hs call hold
      · exact hnew
  exact hinv call hcall

end Token

section Arithmetic

variable (simId : UInt32)

/-- The channel is six times the slot number as long as that fits an `int`. Of a
larger number the cast or the product wraps. -/
theorem malChannel_exact_iff :
    malChannel simId = (simId.toNat : Int) * 6 ↔ simId.toNat ≤ 357913941 := by
  have hlt : simId.toNat < 4294967296 := simId.toNat_lt
  rw [malChannel]
  constructor
  · intro hexact
    have hfits := (wrapInt_32_range (wrapInt 32 simId.toNat * 6)).2
    omega
  · intro hsmall
    have hcast : wrapInt 32 simId.toNat = simId.toNat :=
      wrapInt_32_of_range (by omega) (by omega)
    rw [hcast]
    exact wrapInt_32_of_range (by omega) (by omega)

/-- The mutex of a small slot number is its own. -/
theorem mtkChannelIndex_malChannel {simId : UInt32} (h : simId.toNat ≤ 357913941) :
    (mtkChannelIndex (malChannel simId)).val = simId.toNat * 6 % MTK_CHANNEL_COUNT := by
  have hcast : ((simId.toNat : Int) * 6).toNat = simId.toNat * 6 := by omega
  rw [(malChannel_exact_iff simId).mpr h, mtkChannelIndex, if_neg (by omega), hcast]
  rfl

end Arithmetic

/-- The socket that a token names: one too high for the slots of the SIMs. -/
theorem malToken_socketId (request : Nat) (r : Request) (address : Nat) :
    (malToken request r address).socketId =
      if r.simId < SIM_COUNT then r.simId + 1 else RIL_SOCKET_1 := by
  have hlt : r.simId.toNat < 4294967296 := r.simId.toNat_lt
  have hcount : SIM_COUNT.toNat = 2 := rfl
  simp only [malToken, UInt32.le_iff_toNat_le, UInt32.lt_iff_toNat_lt, UInt32.toNat_add, hcount]
  apply UInt32.toNat_inj.mp
  split_ifs with hnext hslot hslot
  · rfl
  · -- The sum has wrapped to 0, which is the first socket as well.
    have hlast : r.simId.toNat + 1 = 4294967296 := by
      simp only [UInt32.reduceToNat] at hnext
      omega
    rw [UInt32.toNat_add]
    simp [hlast, RIL_SOCKET_1]
  · simp only [UInt32.reduceToNat] at hnext
    omega
  · rfl

/-- A token names the socket of its slot when the slot is not one of a SIM. -/
theorem socket_right_iff {call : Call} (htoken : call.FromToken) :
    ((call.simId < SIM_COUNT → call.pRI.socketId = call.simId) ∧
      call.pRI.socketId < RIL_SOCKET_NUM) ↔ 2 ≤ call.simId.toNat := by
  obtain ⟨request, r, address, hpRI, hsim⟩ := htoken
  rw [hpRI, malToken_socketId, hsim]
  have hcount : SIM_COUNT.toNat = 2 := rfl
  simp only [UInt32.lt_iff_toNat_lt, hcount]
  constructor
  · rintro ⟨hsocket, -⟩
    by_contra hslot
    have heq := hsocket (by omega)
    rw [if_pos (by omega)] at heq
    have hsame := congrArg UInt32.toNat heq
    rw [UInt32.toNat_add] at hsame
    simp only [UInt32.reduceToNat] at hsame
    omega
  · intro hslot
    rw [if_neg (by omega)]
    exact ⟨fun h => absurd h (by omega), by decide⟩

/-- A request of this slot number with an empty command. -/
private def simRequest (simId : UInt32) : Request :=
  { simId, requestId := RIL_REQUEST_AT_COMMAND_WITH_PROXY, serial := 1
    payload := [0, 0, 0, 0, 0, 0, 0, 0] }

private def simCall (simId : UInt32) (slot : Fin MAL_MAX_INFLIGHT) : Call :=
  { request := 0, simId, serial := 1, cmd := [0], slot
    pRI := malToken 0 (simRequest simId) 0 }

/-- A client may name any slot number, and the server issues the request. -/
theorem issue_reachable (simId : UInt32) :
    ∃ s, Reachable MalStart MalStep s ∧ s.phase = .issue (simCall simId 0) 1 := by
  have hcmd : malCommand (simRequest simId) true = .ok [0] := by
    have hlength : malGetLE [0, 0, 0, 0] = 0 := by decide
    simp [malCommand, simRequest, hlength]
  have hfree : freeSlot ({} : Mal).slots = some 0 := by decide
  have hclaimed : (dispatch (simRequest simId) true true {}).phase =
      .claimed 0 (simRequest simId) [0] 0 := by
    simp only [dispatch, hcmd, hfree]
  have hheap : (dispatch (simRequest simId) true true {}).heap = [] := by
    simp only [dispatch, hcmd, hfree]
  have hstart : Reachable MalStart MalStep ({} : Mal) := .init rfl
  have hdispatched := hstart.next (.dispatch (simRequest simId) true true) ⟨rfl, rfl⟩
  have hcreated := hdispatched.next (.create 0)
    ⟨0, simRequest simId, [0], 0, hclaimed, by rw [hheap]; exact List.not_mem_nil, rfl⟩
  have hreset := hcreated.next .resetDone ⟨simCall simId 0, 1, rfl, rfl⟩
  exact ⟨_, hreset, rfl⟩

theorem issuedToItsSim_iff {call : Call} (htoken : call.FromToken) :
    IssuedToItsSim call ↔ SimInRange call.simId := by
  have hsocket := socket_right_iff htoken
  have hproduct := malChannel_exact_iff call.simId
  constructor
  · intro h
    exact ⟨hsocket.mp ⟨h.socket, h.inside⟩, hproduct.mp h.product⟩
  · rintro ⟨hslot, hsmall⟩
    obtain ⟨hname, hinside⟩ := hsocket.mpr hslot
    exact ⟨hname, hinside, mtkChannelIndex_malChannel hsmall, by omega, hproduct.mpr hsmall⟩

/-- Every request that the server issues for a slot number reaches the SIM that
it names exactly when the number is outside the SIM slots and in range. -/
theorem simLaw_iff (simId : UInt32) : SimLaw simId ↔ SimInRange simId := by
  constructor
  · intro h
    obtain ⟨s, hreach, hphase⟩ := issue_reachable simId
    have hissued := h s (simCall simId 0) 1 hreach hphase rfl
    exact (issuedToItsSim_iff ⟨0, simRequest simId, 0, rfl, rfl⟩).mp hissued
  · intro h s call n hreach hphase hsim
    have hcall : s.phase.call? = some call := by
      rw [hphase]
      rfl
    have htoken := call_fromToken hreach hcall
    apply (issuedToItsSim_iff htoken).mpr
    rw [hsim]
    exact h

/-- A request for the first SIM is issued on the second SIM's socket, and one
for the second SIM on a socket that no SIM has. -/
theorem simLaw_other_sim :
    ¬ SimLaw 0 ∧ ¬ SimLaw 1 ∧
      (∃ s call n, Reachable MalStart MalStep s ∧ s.phase = .issue call n ∧ call.simId = 0 ∧
        call.pRI.socketId = 1) ∧
      ∃ s call n, Reachable MalStart MalStep s ∧ s.phase = .issue call n ∧ call.simId = 1 ∧
        call.pRI.socketId = RIL_SOCKET_NUM := by
  obtain ⟨s, hs, hfirst⟩ := issue_reachable 0
  obtain ⟨t, ht, hsecond⟩ := issue_reachable 1
  refine ⟨?_, ?_, ⟨s, simCall 0 0, 1, hs, hfirst, rfl, by decide⟩,
    ⟨t, simCall 1 0, 1, ht, hsecond, rfl, by decide⟩⟩
  · intro h
    have hsocket := (h s (simCall 0 0) 1 hs hfirst rfl).socket (by decide)
    exact absurd hsocket (by decide)
  · intro h
    have hinside := (h t (simCall 1 0) 1 ht hsecond rfl).inside
    exact absurd hinside (by decide)

end MeizuM5c.Ril
