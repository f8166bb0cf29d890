import MeizuM5c.Ril.MalDispatch
import MeizuM5c.Ril.MalParse

/-!
Every request of the MAL socket gets one answer, on its own connection. What
the answer carries depends on the whole history of attempts: an attempt that
runs out leaves the text of the attempt before it in the slot.
-/

namespace MeizuM5c.Ril

open Lib

section Attempts

/-- The text of a completion, up to its first NUL. -/
def Outcome.text : Outcome → Bytes
  | .completed _ response _ => (response.map strnlen).getD []
  | .timedOut => []

/-- The text that a completion leaves in the slot. -/
def Outcome.parked : Outcome → Bytes
  | .completed _ response alloc => if alloc then (response.map strnlen).getD [] else []
  | .timedOut => []

/-- A completion with an error, which is tried again as long as tries are left. -/
def Outcome.Failed : Outcome → Prop
  | .completed e _ _ => e ≠ RIL_E_SUCCESS
  | .timedOut => False

/-- All slots but one are free. -/
def FreeBut (slot : Fin MAL_MAX_INFLIGHT) (slots : Slots) : Prop :=
  ∀ i, i ≠ slot → (slots i).inUse = false ∧ (slots i).pRI = none

theorem FreeBut.update {slot : Fin MAL_MAX_INFLIGHT} {slots : Slots} (h : FreeBut slot slots)
    (x : MalSlot) : FreeBut slot (Function.update slots slot x) := by
  intro i hi
  rw [Function.update_of_ne hi]
  exact h i hi

/-- The call owns the one slot in use. -/
structure Held (call : Call) (s : Mal) : Prop where
  inUse : (s.slots call.slot).inUse = true
  token : (s.slots call.slot).pRI = some call.pRI
  others : FreeBut call.slot s.slots

variable {call : Call} {s : Mal}

theorem Held.malClaim_eq (h : Held call s) : malClaim s.slots call.pRI = some call.slot := by
  unfold malClaim
  cases hfind : (List.finRange MAL_MAX_INFLIGHT).find? fun i =>
      (s.slots i).inUse && (s.slots i).pRI.map RequestInfo.address == some call.pRI.address with
  | none =>
      have hnone := List.find?_eq_none.mp hfind call.slot (List.mem_finRange _)
      simp [h.inUse, h.token] at hnone
  | some i =>
      have hclaimed := List.find?_some hfind
      by_contra hne
      have hother := h.others i fun heq => hne (congrArg some heq)
      simp [hother.1] at hclaimed

/-- A write to the slot of the call that keeps its owner. -/
theorem Held.update (h : Held call s) {t : Mal} {slot : MalSlot}
    (hslots : t.slots = Function.update s.slots call.slot slot) (hinUse : slot.inUse = true)
    (htoken : slot.pRI = some call.pRI) : Held call t := by
  constructor
  · rw [hslots, Function.update_self, hinUse]
  · rw [hslots, Function.update_self, htoken]
  · rw [hslots]
    exact h.others.update slot

theorem Held.of_slots (h : Held call s) {t : Mal} (hslots : t.slots = s.slots) : Held call t := by
  constructor
  · rw [hslots]
    exact h.inUse
  · rw [hslots]
    exact h.token
  · rw [hslots]
    exact h.others

/-- What an attempt leaves in the slot. -/
def Outcome.leave (call : Call) (slot : MalSlot) : Outcome → MalSlot
  | .completed e response alloc =>
      { slot with
        done := true
        err := ⟨e, call.pRI.request⟩
        text := ⟨Outcome.parked (.completed e response alloc), call.pRI.request⟩ }
  | .timedOut => { slot with done := false }

/-- The state behind one attempt, before the server looks at it. -/
def attempted (call : Call) (attempt : Nat) (o : Outcome) (s : Mal) : Mal :=
  vendorOutcome call o (onRequest call attempt (resetDone call attempt s))

/-- Up to `malClaim`, a completion touches neither the slots nor the frames. -/
theorem onRequestComplete_kept (c : Completion) (s : Mal) :
    (onRequestComplete c s).slots = s.slots ∧ (onRequestComplete c s).frames = s.frames := by
  simp only [onRequestComplete]
  split
  · exact ⟨rfl, rfl⟩
  · split_ifs
    · exact ⟨rfl, rfl⟩
    · exact ⟨rfl, rfl⟩

theorem attempted_slots (h : Held call s) (attempt : Nat) (o : Outcome) :
    (attempted call attempt o s).slots =
      Function.update s.slots call.slot (o.leave call (s.slots call.slot)) := by
  cases o with
  | timedOut => rfl
  | completed e response alloc =>
      have hreset : Held call (onRequest call attempt (resetDone call attempt s)) :=
        h.update rfl h.inUse h.token
      simp only [attempted, vendorOutcome, hreset.malClaim_eq, complete, malComplete,
        (onRequestComplete_kept _ _).1]
      simp [onRequest, resetDone, Outcome.leave, Outcome.parked, Completion.text]

theorem attempted_frames (call : Call) (attempt : Nat) (o : Outcome) (s : Mal) :
    (attempted call attempt o s).frames = s.frames := by
  cases o with
  | timedOut => rfl
  | completed e response alloc =>
      simp only [attempted, vendorOutcome]
      split
      · exact (onRequestComplete_kept _ _).2
      · exact (onRequestComplete_kept _ _).2

theorem attempted_held (h : Held call s) (attempt : Nat) (o : Outcome) :
    Held call (attempted call attempt o s) := by
  refine h.update (attempted_slots h attempt o) ?_ ?_
  · cases o <;> exact h.inUse
  · cases o <;> exact h.token

/-- How the loop ends, `last` being the number of the last attempt. -/
structure AttemptsEnd (outcome : Nat → Outcome) (call : Call) (attempt : Nat) (s : Mal)
    (timedOut : Bool) (last : Nat) (t : Mal) : Prop where
  started : attempt ≤ last
  bounded : last ≤ MAL_MAX_ATTEMPTS
  failed : ∀ k, attempt ≤ k → k < last → (outcome k).Failed
  held : Held call t
  frames : t.frames = s.frames
  answer : match outcome last with
    | .timedOut => timedOut = true ∧
        (t.slots call.slot).text.value =
          if last = attempt then (s.slots call.slot).text.value else (outcome (last - 1)).parked
    | .completed e _ _ => timedOut = false ∧ (e = RIL_E_SUCCESS ∨ last = MAL_MAX_ATTEMPTS) ∧
        (t.slots call.slot).err.value = e ∧
        (t.slots call.slot).text.value = (outcome last).parked

private theorem attempted_slot (h : Held call s) (attempt : Nat) (o : Outcome) :
    (attempted call attempt o s).slots call.slot = o.leave call (s.slots call.slot) := by
  rw [attempted_slots h, Function.update_self]

section Passes

variable {outcome : Nat → Outcome} {attempt : Nat}

/-- The pass of an attempt that runs out. -/
theorem malAttempts_timedOut (h : Held call s) (houtcome : outcome attempt = .timedOut)
    (fuel : Nat) :
    malAttempts outcome call (fuel + 1) attempt s =
      (true, attempt, timeout call (attempted call attempt .timedOut s)) := by
  have hslot := attempted_slot h attempt .timedOut
  have hfold : vendorOutcome call (outcome attempt) (onRequest call attempt
      (resetDone call attempt s)) = attempted call attempt .timedOut s := by
    rw [houtcome, attempted]
  simp only [malAttempts, hfold, hslot, Outcome.leave, if_true]

/-- The pass of an attempt that is completed. -/
theorem malAttempts_completed (h : Held call s) {e : UInt32} {response : Option Bytes}
    {alloc : Bool} (houtcome : outcome attempt = .completed e response alloc) (fuel : Nat) :
    malAttempts outcome call (fuel + 1) attempt s =
      if e = RIL_E_SUCCESS ∨ MAL_MAX_ATTEMPTS ≤ attempt then
        (false, attempt,
          wake call attempt (attempted call attempt (.completed e response alloc) s))
      else malAttempts outcome call fuel (attempt + 1)
        (wake call attempt (attempted call attempt (.completed e response alloc) s)) := by
  have hslot := attempted_slot h attempt (.completed e response alloc)
  have hfold : vendorOutcome call (outcome attempt) (onRequest call attempt
      (resetDone call attempt s)) = attempted call attempt (.completed e response alloc) s := by
    rw [houtcome, attempted]
  simp only [malAttempts, hfold, hslot, Outcome.leave, Bool.true_eq_false, if_false]
  by_cases hlast : e = RIL_E_SUCCESS ∨ MAL_MAX_ATTEMPTS ≤ attempt
  · simp only [wake, hslot, Outcome.leave, if_pos hlast]
  · simp only [wake, hslot, Outcome.leave, if_neg hlast]

end Passes

section Ends

variable {outcome : Nat → Outcome} {attempt : Nat}

/-- An attempt that runs out leaves the text as it was. -/
theorem AttemptsEnd.timedOut (h : Held call s) (hattempt : attempt ≤ MAL_MAX_ATTEMPTS)
    (houtcome : outcome attempt = .timedOut) :
    AttemptsEnd outcome call attempt s true attempt
      (timeout call (attempted call attempt .timedOut s)) where
  started := Nat.le_refl attempt
  bounded := hattempt
  failed := fun _ hk hlast => absurd hlast (not_lt.mpr hk)
  held := (attempted_held h attempt .timedOut).of_slots rfl
  frames := attempted_frames call attempt .timedOut s
  answer := by
    simp only [houtcome, if_true, true_and, timeout, attempted_slot h, Outcome.leave]

theorem AttemptsEnd.completed (h : Held call s) (hattempt : attempt ≤ MAL_MAX_ATTEMPTS)
    {e : UInt32} {response : Option Bytes} {alloc : Bool}
    (houtcome : outcome attempt = .completed e response alloc)
    (hlast : e = RIL_E_SUCCESS ∨ MAL_MAX_ATTEMPTS ≤ attempt) :
    AttemptsEnd outcome call attempt s false attempt
      (wake call attempt (attempted call attempt (.completed e response alloc) s)) where
  started := Nat.le_refl attempt
  bounded := hattempt
  failed := fun _ hk hlast => absurd hlast (not_lt.mpr hk)
  held := (attempted_held h attempt _).of_slots rfl
  frames := attempted_frames call attempt _ s
  answer := by
    simp only [houtcome, wake, attempted_slot h, Outcome.leave, true_and, and_true]
    exact hlast.imp_right (Nat.le_antisymm hattempt)

/-- An attempt that is tried again adds itself in front of what follows: its
text is what an attempt that runs out right behind it leaves. -/
theorem AttemptsEnd.again (h : Held call s) {e : UInt32} {response : Option Bytes} {alloc : Bool}
    (houtcome : outcome attempt = .completed e response alloc) (hfailed : e ≠ RIL_E_SUCCESS)
    {timedOut : Bool} {last : Nat} {t : Mal}
    (hrest : AttemptsEnd outcome call (attempt + 1)
      (wake call attempt (attempted call attempt (.completed e response alloc) s)) timedOut last t) :
    AttemptsEnd outcome call attempt s timedOut last t where
  started := Nat.le_of_succ_le hrest.started
  bounded := hrest.bounded
  failed := by
    intro k hk hlast
    rcases Nat.eq_or_lt_of_le hk with rfl | hlater
    · rw [houtcome]
      exact hfailed
    · exact hrest.failed k hlater hlast
  held := hrest.held
  frames := hrest.frames.trans (attempted_frames call attempt _ s)
  answer := by
    have hlater : attempt < last := hrest.started
    have hanswer := hrest.answer
    cases hoc : outcome last with
    | completed e' response' alloc' =>
        rw [hoc] at hanswer
        exact hanswer
    | timedOut =>
        rw [hoc] at hanswer
        refine ⟨hanswer.1, hanswer.2.trans ?_⟩
        rw [if_neg hlater.ne']
        split_ifs with hnext
        · subst hnext
          rw [Nat.add_sub_cancel, houtcome]
          simp only [wake, attempted_slot h, Outcome.leave]
        · rfl

end Ends

/-- The loop ends with an attempt that ran out, that succeeded, or that was the
last one allowed. -/
theorem malAttempts_end (outcome : Nat → Outcome) : ∀ {fuel attempt : Nat} {s : Mal},
    Held call s → attempt ≤ MAL_MAX_ATTEMPTS → MAL_MAX_ATTEMPTS < attempt + fuel →
      ∃ timedOut last t, malAttempts outcome call fuel attempt s = (timedOut, last, t) ∧
        AttemptsEnd outcome call attempt s timedOut last t := by
  intro fuel
  induction fuel with
  | zero => exact fun _ hattempt hfuel => absurd hfuel (not_lt.mpr hattempt)
  | succ fuel ih =>
      intro attempt s h hattempt hfuel
      cases houtcome : outcome attempt with
      | timedOut =>
          rw [malAttempts_timedOut h houtcome]
          exact ⟨true, attempt, _, rfl, .timedOut h hattempt houtcome⟩
      | completed e response alloc =>
          rw [malAttempts_completed h houtcome]
          split_ifs with hlast
          · exact ⟨false, attempt, _, rfl, .completed h hattempt houtcome hlast⟩
          · obtain ⟨hfailed, hleft⟩ := not_or.mp hlast
            have hnext : Held call
                (wake call attempt (attempted call attempt (.completed e response alloc) s)) :=
              (attempted_held h attempt _).of_slots rfl
            obtain ⟨timedOut, last, t, hrun, hend⟩ := ih hnext (not_le.mp hleft) (by omega)
            exact ⟨timedOut, last, t, hrun, hend.again h houtcome hfailed⟩

end Attempts

section Answer

/-- The server thread between two requests. -/
structure Quiet (s : Mal) : Prop where
  idle : s.phase = .idle
  free : ∀ i, (s.slots i).inUse = false ∧ (s.slots i).pRI = none

/-- The request goes to the vendor: its command is well formed, and the command's
buffer and the token could be allocated. -/
def Issued (r : Request) (env : Surroundings) : Prop :=
  (malCommand r env.cmdAlloc).isOk = true ∧ env.address.isSome = true

/-- The error and the text that belong to the last of `attempts` attempts. -/
def Belongs (env : Surroundings) (attempts : Nat) (err : UInt32) (text : Bytes) : Prop :=
  match env.outcome attempts with
  | .completed e response alloc =>
      err = e ∧ text = Outcome.text (.completed e response alloc)
  | .timedOut => err = RIL_E_GENERIC_FAILURE ∧ text = []

/-- The text that the answer really carries. -/
def sentText (env : Surroundings) (attempts : Nat) : Bytes :=
  match env.outcome attempts with
  | .completed e response alloc => Outcome.parked (.completed e response alloc)
  | .timedOut => if attempts = 1 then [] else (env.outcome (attempts - 1)).parked

def sentErr (env : Surroundings) (attempts : Nat) : UInt32 :=
  match env.outcome attempts with
  | .completed e _ _ => e
  | .timedOut => RIL_E_GENERIC_FAILURE

/-- The attempt behind which the loop is left. -/
structure LastAttempt (env : Surroundings) (last : Nat) : Prop where
  started : 1 ≤ last
  bounded : last ≤ MAL_MAX_ATTEMPTS
  failed : ∀ k, 1 ≤ k → k < last → (env.outcome k).Failed
  final : (env.outcome last).Failed → last = MAL_MAX_ATTEMPTS

variable {s : Mal}

theorem Quiet.exists_freeSlot (h : Quiet s) : ∃ slot, freeSlot s.slots = some slot := by
  cases hfree : freeSlot s.slots with
  | some slot => exact ⟨slot, rfl⟩
  | none =>
      have hnone := List.find?_eq_none.mp hfree 0 (List.mem_finRange _)
      simp [(h.free 0).1] at hnone

/-- `malDispatch` on a command that is well formed takes a free slot. -/
theorem Quiet.dispatch_ok (h : Quiet s) {r : Request} {alloc : Bool} {cmd : Bytes}
    (hcommand : malCommand r alloc = .ok cmd) :
    ∃ slot, (dispatch r alloc true s).phase = .claimed s.requests r cmd slot ∧
      FreeBut slot (dispatch r alloc true s).slots ∧
      ((dispatch r alloc true s).slots slot).inUse = true ∧
      ((dispatch r alloc true s).slots slot).pRI = none ∧
      (dispatch r alloc true s).frames = s.frames := by
  obtain ⟨slot, hslot⟩ := h.exists_freeSlot
  have hfree : FreeBut slot s.slots := fun i _ => h.free i
  refine ⟨slot, ?_⟩
  simp only [dispatch, hcommand, hslot, Function.update_self, true_and, and_true]
  exact ⟨hfree.update _, (h.free slot).2⟩

/-- The slot is given back, and the thread is idle. -/
theorem FreeBut.quiet {slot : Fin MAL_MAX_INFLIGHT} {slots : Slots} (h : FreeBut slot slots)
    {t : Mal} {given : MalSlot} (hphase : t.phase = .idle)
    (hslots : t.slots = Function.update slots slot given)
    (hgiven : given.inUse = false ∧ given.pRI = none) : Quiet t := by
  refine ⟨hphase, fun i => ?_⟩
  rw [hslots]
  by_cases hi : i = slot
  · subst i
    rw [Function.update_self]
    exact hgiven
  · exact h.update given i hi

/-- A request that is not issued is answered at once, with an empty text. -/
theorem malDispatch_local (h : Quiet s) {r : Request} {env : Surroundings}
    (hlocal : ¬Issued r env) :
    (malDispatch r env s).2 = 0 ∧ Quiet (malDispatch r env s).1 ∧
      ∃ err, (malDispatch r env s).1.frames = s.frames ++ [localFrame s.requests r err] := by
  cases hcommand : malCommand r env.cmdAlloc with
  | error e =>
      have hphase : (dispatch r env.cmdAlloc true s).phase = .idle := by
        simp only [dispatch, hcommand, h.idle]
      have hslots : (dispatch r env.cmdAlloc true s).slots = s.slots := by
        simp only [dispatch, hcommand]
      have hdispatch : malDispatch r env s = (dispatch r env.cmdAlloc true s, 0) := by
        simp only [malDispatch, hphase]
      rw [hdispatch]
      refine ⟨rfl, ⟨hphase, fun i => ?_⟩, e, ?_⟩
      · rw [hslots]
        exact h.free i
      · simp only [dispatch, hcommand, malSendFrame, if_true]
  | ok cmd =>
      have haddress : env.address = none := by
        by_contra hsome
        apply hlocal
        exact ⟨by rw [hcommand]; rfl, Option.isSome_iff_ne_none.mpr hsome⟩
      obtain ⟨slot, hphase, hothers, -, hnoToken, hframes⟩ := h.dispatch_ok hcommand
      have hdispatch : malDispatch r env s =
          (createFailed s.requests r slot true (dispatch r env.cmdAlloc true s), 0) := by
        simp only [malDispatch, hphase, haddress]
      rw [hdispatch]
      refine ⟨rfl, hothers.quiet rfl rfl ⟨rfl, hnoToken⟩, RIL_E_NO_MEMORY, ?_⟩
      simp only [createFailed, malSendFrame, if_true, hframes]

/-- What `malFinish` answers is what the slot holds. -/
theorem malFinish_frames (call : Call) (timedOut : Bool) (s : Mal) :
    (malFinish call timedOut s).frames = s.frames ++
      [call.frame (if timedOut then ⟨RIL_E_GENERIC_FAILURE, none⟩ else (s.slots call.slot).err)
        (s.slots call.slot).text] := rfl

/-- An issued request is answered with what the attempts have left. -/
theorem malDispatch_issued (h : Quiet s) {r : Request} {env : Surroundings}
    (hissued : Issued r env) :
    LastAttempt env (malDispatch r env s).2 ∧ Quiet (malDispatch r env s).1 ∧
      ∃ f, (malDispatch r env s).1.frames = s.frames ++ [f] ∧ f.simId = r.simId ∧
        f.serial = r.serial ∧ f.err.value = sentErr env (malDispatch r env s).2 ∧
        f.text.value = sentText env (malDispatch r env s).2 := by
  obtain ⟨hok, haddress⟩ := hissued
  obtain ⟨address, haddress⟩ := Option.isSome_iff_exists.mp haddress
  cases hcommand : malCommand r env.cmdAlloc with
  | error e =>
      rw [hcommand] at hok
      cases hok
  | ok cmd =>
      obtain ⟨slot, hphase, hothers, hinUse, -, hframes⟩ := h.dispatch_ok hcommand
      have hheld : Held (malCall s.requests r cmd slot address)
          (create s.requests r cmd slot address (dispatch r env.cmdAlloc true s)) := by
        constructor
        · simp only [malCall, create, Function.update_self, hinUse]
        · simp only [malCall, create, Function.update_self]
        · exact hothers.update _
      obtain ⟨timedOut, last, t, hrun, hend⟩ :=
        malAttempts_end env.outcome hheld (by decide : 1 ≤ MAL_MAX_ATTEMPTS)
          (by decide : MAL_MAX_ATTEMPTS < 1 + MAL_MAX_ATTEMPTS)
      have hdispatch : malDispatch r env s =
          (malFinish (malCall s.requests r cmd slot address) timedOut t, last) := by
        simp only [malDispatch, hphase, haddress, hrun]
      rw [hdispatch]
      refine ⟨⟨hend.started, hend.bounded, hend.failed, ?_⟩,
        (hend.held.others.update _).quiet rfl rfl ⟨rfl, rfl⟩, _,
        (malFinish_frames _ timedOut t).trans (by rw [hend.frames.trans hframes]), rfl, rfl, ?_, ?_⟩
      · intro hfailed
        have hanswer := hend.answer
        cases houtcome : env.outcome last with
        | timedOut =>
            rw [houtcome] at hfailed
            cases hfailed
        | completed e response alloc =>
            rw [houtcome] at hfailed hanswer
            exact hanswer.2.1.resolve_left hfailed
      · have hanswer := hend.answer
        simp only [sentErr, Call.frame]
        cases houtcome : env.outcome last with
        | timedOut =>
            rw [houtcome] at hanswer
            simp only [hanswer.1, if_true]
        | completed e response alloc =>
            rw [houtcome] at hanswer
            simp only [hanswer.1, Bool.false_eq_true, if_false, hanswer.2.2.1]
      · have hanswer := hend.answer
        simp only [sentText, Call.frame]
        cases houtcome : env.outcome last with
        | timedOut =>
            rw [houtcome] at hanswer
            refine hanswer.2.trans ?_
            simp only [malCall, create, Function.update_self]
        | completed e response alloc =>
            rw [houtcome] at hanswer
            exact hanswer.2.2.2

end Answer

section OneAnswer

/-- Between requests no slot is taken, and answers go where requests come from. -/
structure ServerInvariant (s : MalServer) : Prop where
  quiet : Quiet s.mal
  client : ∀ fd, s.fd = some fd → s.clientFd = fd

/-- A dispatched request adds one frame, whatever happens to it. -/
theorem malDispatch_one_frame {s : Mal} (h : Quiet s) (r : Request) (env : Surroundings) :
    Quiet (malDispatch r env s).1 ∧ (malDispatch r env s).2 ≤ MAL_MAX_ATTEMPTS ∧
      ∃ f, (malDispatch r env s).1.frames = s.frames ++ [f] ∧ f.simId = r.simId ∧
        f.serial = r.serial := by
  by_cases hissued : Issued r env
  · obtain ⟨hlast, hquiet, f, hframes, hsim, hserial, -⟩ := malDispatch_issued h hissued
    exact ⟨hquiet, hlast.bounded, f, hframes, hsim, hserial⟩
  · obtain ⟨hattempts, hquiet, err, hframes⟩ := malDispatch_local h hissued
    exact ⟨hquiet, hattempts ▸ Nat.zero_le _, _, hframes, rfl, rfl⟩

theorem serverStep_keeps {s t : MalServer} {event : ServerEvent} (h : ServerInvariant s)
    (hstep : ServerStep s event t) : ServerInvariant t := by
  cases event with
  | accept fd =>
      obtain ⟨-, rfl⟩ := hstep
      refine ⟨h.quiet, fun fd' hfd => ?_⟩
      rw [← Option.some.inj hfd]
      rfl
  | dispatch r env =>
      obtain ⟨-, rfl⟩ := hstep
      exact ⟨(malDispatch_one_frame h.quiet r env).1, h.client⟩
  | gone =>
      obtain ⟨-, rfl⟩ := hstep
      exact ⟨h.quiet, nofun⟩

theorem server_invariant {s : MalServer} (h : Reachable ServerStart ServerStep s) :
    ServerInvariant s := by
  refine h.invariant ?_ (fun _ _ _ hs hstep => serverStep_keeps hs hstep)
  rintro s rfl
  exact ⟨⟨rfl, fun _ => ⟨rfl, rfl⟩⟩, nofun⟩

/-- A request is answered with one frame on its connection, which echoes serial
and slot and says its own length; at most `MAL_MAX_ATTEMPTS` attempts are made,
and error and text belong to the last of them. -/
def AnsweredOnce (r : Request) (env : Surroundings) (fd : Nat) (s : MalServer) : Prop :=
  let attempts := (malDispatch r env s.mal).2
  attempts ≤ MAL_MAX_ATTEMPTS ∧ ∃ err text,
    (s.dispatch r env).written =
      s.written ++ [((fd : Int), answerBytes r.simId r.serial err text)] ∧
    (bodyLength (answerBytes r.simId r.serial err text)).toNat = 24 + 4 + text.length ∧
    if attempts = 0 then text = [] else Belongs env attempts err text

/-- No attempt that the request reaches runs out behind an attempt that has
parked a text; the text of the completion that ends it is copied, and fits a
frame. -/
def AttemptsLawful (env : Surroundings) : Prop :=
  ∀ n, 1 ≤ n → n ≤ MAL_MAX_ATTEMPTS → (∀ k, 1 ≤ k → k < n → (env.outcome k).Failed) →
    match env.outcome n with
    | .timedOut => ∀ k, 1 ≤ k → k + 1 = n → (env.outcome k).parked = []
    | .completed e response alloc => e = RIL_E_SUCCESS ∨ n = MAL_MAX_ATTEMPTS →
        (alloc = true ∨ Outcome.text (.completed e response alloc) = []) ∧
        24 + 4 + (Outcome.text (.completed e response alloc)).length < 2 ^ 32

/-- An attempt that ends the loop when it is reached is the last one. -/
theorem LastAttempt.eq {env : Surroundings} {m n : Nat} (hm : LastAttempt env m)
    (hn : LastAttempt env n) : m = n := by
  have hnot {a b : Nat} (ha : LastAttempt env a) (hb : LastAttempt env b) : ¬a < b := by
    intro hlt
    have hlast := ha.final (hb.failed a ha.started hlt)
    exact absurd hb.bounded (by omega)
  exact Nat.le_antisymm (not_lt.mp (hnot hn hm)) (not_lt.mp (hnot hm hn))

theorem bodyLength_answerBytes (simId serial err : UInt32) (text : Bytes) :
    bodyLength (answerBytes simId serial err text) = UInt32.ofNat (24 + (4 + text.length)) :=
  bodyLength_malPutBE _

/-- The length word is right exactly when the length fits a word. -/
theorem bodyLength_answerBytes_iff (simId serial err : UInt32) (text : Bytes) :
    (bodyLength (answerBytes simId serial err text)).toNat = 24 + 4 + text.length ↔
      24 + 4 + text.length < 2 ^ 32 := by
  rw [bodyLength_answerBytes, UInt32.toNat_ofNat']
  omega

/-- Error and text can be read off the frame. -/
theorem answerBytes_inj {simId serial err err' : UInt32} {text text' : Bytes}
    (h : answerBytes simId serial err text = answerBytes simId serial err' text') :
    err = err' ∧ text = text' := by
  constructor
  · have hword := congrArg (fun bytes => malGetLE (bytes.drop 24)) h
    exact (malGetLE_malPutLE err _).symm.trans (hword.trans (malGetLE_malPutLE err' _))
  · exact congrArg (fun bytes => bytes.drop 32) h

theorem parked_eq_text_iff {e : UInt32} {response : Option Bytes} {alloc : Bool} :
    Outcome.parked (.completed e response alloc) = Outcome.text (.completed e response alloc) ↔
      alloc = true ∨ Outcome.text (.completed e response alloc) = [] := by
  cases alloc with
  | true => exact iff_of_true rfl (.inl rfl)
  | false =>
      simp only [Outcome.parked, Bool.false_eq_true, if_false, false_or]
      exact eq_comm

/-- The attempts are lawful exactly when the last of them leaves what belongs to
it, in a text that fits a frame. -/
theorem attemptsLawful_iff {env : Surroundings} {last : Nat} (hlast : LastAttempt env last) :
    AttemptsLawful env ↔ Belongs env last (sentErr env last) (sentText env last) ∧
      24 + 4 + (sentText env last).length < 2 ^ 32 := by
  constructor
  · intro hlawful
    have hown := hlawful last hlast.started hlast.bounded hlast.failed
    unfold Belongs sentErr sentText
    cases houtcome : env.outcome last with
    | timedOut =>
        rw [houtcome] at hown
        have hempty : (if last = 1 then [] else (env.outcome (last - 1)).parked) = [] := by
          split_ifs with hone
          · rfl
          · have hstarted := hlast.started
            exact hown (last - 1) (by omega) (by omega)
        simp only [hempty, and_self, true_and]
        norm_num
    | completed e response alloc =>
        rw [houtcome] at hown
        have hend : e = RIL_E_SUCCESS ∨ last = MAL_MAX_ATTEMPTS := by
          by_contra hneither
          obtain ⟨hfailed, hleft⟩ := not_or.mp hneither
          exact hleft (hlast.final (by rw [houtcome]; exact hfailed))
        obtain ⟨hcopied, hfits⟩ := hown hend
        have hparked := parked_eq_text_iff.mpr hcopied
        simp only [hparked]
        exact ⟨⟨trivial, trivial⟩, hfits⟩
  · rintro ⟨hbelongs, hfits⟩ n hn hbound hfailed
    cases houtcome : env.outcome n with
    | timedOut =>
        obtain rfl : n = last := by
          refine LastAttempt.eq ⟨hn, hbound, hfailed, fun hfinal => ?_⟩ hlast
          rw [houtcome] at hfinal
          cases hfinal
        intro k hk hnext
        subst hnext
        have hne : ¬k + 1 = 1 := by omega
        simp only [Belongs, sentText, houtcome, if_neg hne, Nat.add_sub_cancel] at hbelongs
        exact hbelongs.2
    | completed e response alloc =>
        intro hend
        obtain rfl : n = last := by
          refine LastAttempt.eq ⟨hn, hbound, hfailed, fun hfinal => ?_⟩ hlast
          rw [houtcome] at hfinal
          exact hend.resolve_left hfinal
        simp only [Belongs, sentText, houtcome] at hbelongs hfits
        refine ⟨parked_eq_text_iff.mp hbelongs.2, ?_⟩
        rw [← hbelongs.2]
        exact hfits

/-- The command `AT` for the first slot. -/
def atRequest : Request :=
  ⟨0, RIL_REQUEST_AT_COMMAND_WITH_PROXY, 7, [0, 0, 0, 0, 2, 0, 0, 0, 65, 84]⟩

def connected : MalServer := MalServer.accept 5 {}

theorem connected_reachable : Reachable ServerStart ServerStep connected := by
  have hstart : Reachable ServerStart ServerStep {} := .init rfl
  exact hstart.next (.accept 5) ⟨rfl, rfl⟩

/-- The first attempt fails with a text, the second one runs out. -/
def staleText : Surroundings where
  cmdAlloc := true
  address := some 64
  outcome := fun n => if n = 1 then .completed 1 (some [66]) true else .timedOut

end OneAnswer

end MeizuM5c.Ril
