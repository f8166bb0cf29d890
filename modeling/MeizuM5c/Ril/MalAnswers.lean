import MeizuM5c.Lib.Transition
import MeizuM5c.Ril.Mal

/-!
Whose answer a MAL frame carries, under every interleaving of the server
thread with the vendor's completions. The vendor completes a token at most
once for each time it was issued, as late as it likes. As long as no
completion is written into a slot that another request has taken over, every
frame carries what its own token was completed with.
-/

namespace MeizuM5c.Ril

open Lib

/-- The steps between which the threads may be interleaved. -/
inductive MalLabel where
  | dispatch (r : Request) (cmdAlloc frameAlloc : Bool)
  | createFailed (frameAlloc : Bool)
  | create (address : Nat)
  | resetDone
  | onRequest
  | wake
  | timeout
  | takeAnswer
  | sendAnswer (alloc : Bool)
  | release
  | ordinaryRequest (pRI : RequestInfo)
  | onRequestComplete (c : Completion)
  | complete (m : Fin MAL_MAX_INFLIGHT × Completion) (alloc : Bool)

def MalStep (s : Mal) : MalLabel → Mal → Prop
  | .dispatch r cmdAlloc frameAlloc, t =>
      s.phase = .idle ∧ t = dispatch r cmdAlloc frameAlloc s
  | .createFailed frameAlloc, t =>
      ∃ request r cmd slot, s.phase = .claimed request r cmd slot ∧
        t = createFailed request r slot frameAlloc s
  | .create address, t =>
      ∃ request r cmd slot, s.phase = .claimed request r cmd slot ∧ address ∉ s.heap ∧
        t = create request r cmd slot address s
  | .resetDone, t => ∃ call n, s.phase = .attempt call n ∧ t = resetDone call n s
  | .onRequest, t => ∃ call n, s.phase = .issue call n ∧ t = onRequest call n s
  | .wake, t =>
      ∃ call n, s.phase = .wait call n ∧ (s.slots call.slot).done = true ∧ t = wake call n s
  | .timeout, t =>
      ∃ call n, s.phase = .wait call n ∧ (s.slots call.slot).done = false ∧ t = timeout call s
  | .takeAnswer, t =>
      ∃ call timedOut, s.phase = .finish call timedOut ∧ t = takeAnswer call timedOut s
  | .sendAnswer alloc, t =>
      ∃ call timedOut err text, s.phase = .send call timedOut err text ∧
        t = sendAnswer call timedOut err text alloc s
  | .release, t =>
      ∃ call timedOut, s.phase = .release call timedOut ∧ t = release call timedOut s
  | .ordinaryRequest pRI, t =>
      pRI.request = none ∧ pRI.address ∉ s.heap ∧ t = ordinaryRequest pRI s
  | .onRequestComplete c, t => c.pRI ∈ s.vendor ∧ t = onRequestComplete c s
  | .complete m alloc, t => m ∈ s.matched ∧ t = complete m alloc s

def MalStart (s : Mal) : Prop := s = {}

/-- At a `malComplete`, the slot is empty or still holds the token that
`malClaim` found there. -/
def StillMatched (s : Mal) : MalLabel → Prop
  | .complete m _ => ∀ pRI, (s.slots m.1).pRI = some pRI → pRI.address = m.2.pRI.address
  | _ => True

def MatchedStep (s : Mal) (label : MalLabel) (t : Mal) : Prop :=
  MalStep s label t ∧ StillMatched s label

section Origin

variable (completions : List Completion) (request : Nat) (serial : UInt32)

/-- The error of a completion of the token created for the request. -/
def ErrFrom (err : Sourced UInt32) : Prop :=
  ∃ c ∈ completions, c.pRI.request = some request ∧ c.pRI.token = serial ∧
    err = ⟨c.e, c.pRI.request⟩

def TextFrom (text : Sourced Bytes) : Prop :=
  ∃ c ∈ completions, c.pRI.request = some request ∧ c.pRI.token = serial ∧
    ∃ alloc, text = ⟨c.text alloc, c.pRI.request⟩

end Origin

/-- What `malDispatch` answers by itself. -/
def LocalErr (err : Sourced UInt32) : Prop :=
  err.source = none ∧ (err.value = RIL_E_GENERIC_FAILURE ∨ err.value = RIL_E_NO_MEMORY)

/-- Error and text of the frame come from completions of the token of its own
request, or from the local failure path. -/
def Frame.Own (completions : List Completion) (f : Frame) : Prop :=
  (LocalErr f.err ∨ ErrFrom completions f.request f.serial f.err) ∧
    (f.text = ⟨[], none⟩ ∨ TextFrom completions f.request f.serial f.text)

/-- No frame carries the answer to another request. -/
def AnswerLaw (s : Mal) : Prop := ∀ f ∈ s.frames, f.Own s.completions

/-- The tokens that the vendor has been given and that have not been written
back yet. -/
def Mal.inFlight (s : Mal) : List RequestInfo := s.vendor ++ s.matched.map (fun m => m.2.pRI)

def Phase.call? : Phase → Option Call
  | .idle | .claimed _ _ _ _ => none
  | .attempt call _ | .issue call _ | .wait call _ | .finish call _
  | .send call _ _ _ | .release call _ => some call

/-- No completion of the current token is to be expected. -/
def Phase.Settled : Phase → Prop
  | .attempt _ _ | .issue _ _ | .finish _ false | .send _ false _ _ | .release _ false => True
  | _ => False

structure TokenInvariant (s : Mal) : Prop where
  owned : ∀ i pRI, (s.slots i).pRI = some pRI →
    ∃ call, s.phase.call? = some call ∧ call.slot = i ∧ call.pRI = pRI
  held : ∀ call, s.phase.call? = some call → (s.slots call.slot).pRI = some call.pRI
  created : ∀ call, s.phase.call? = some call →
    call.pRI.request = some call.request ∧ call.pRI.token = call.serial ∧
      call.pRI.address ∈ s.heap
  unique : (s.inFlight.map RequestInfo.address).Nodup
  allocated : ∀ pRI ∈ s.inFlight, pRI.address ∈ s.heap
  fits : ∀ call, s.phase.call? = some call →
    ∀ pRI ∈ s.inFlight, pRI.address = call.pRI.address → pRI = call.pRI
  recorded : ∀ m ∈ s.matched, m.2 ∈ s.completions

structure AnswerInvariant (s : Mal) : Prop where
  settled : s.phase.Settled → ∀ call, s.phase.call? = some call → call.pRI ∉ s.inFlight
  answered : ∀ call, s.phase.call? = some call → (s.slots call.slot).done = true →
    call.pRI ∉ s.inFlight ∧
      ErrFrom s.completions call.request call.serial (s.slots call.slot).err
  parked : ∀ call, s.phase.call? = some call →
    (s.slots call.slot).text = ⟨[], none⟩ ∨
      TextFrom s.completions call.request call.serial (s.slots call.slot).text
  issued : ∀ call n, s.phase = .issue call n → (s.slots call.slot).done = false
  finished : ∀ call, s.phase = .finish call false → (s.slots call.slot).done = true
  sending : ∀ call timedOut err text, s.phase = .send call timedOut err text →
    (call.frame err text).Own s.completions
  law : AnswerLaw s

structure MalInvariant (s : Mal) : Prop where
  tokens : TokenInvariant s
  answers : AnswerInvariant s

section Frames

variable {completions completions' : List Completion}

theorem ErrFrom.mono (hsub : completions ⊆ completions') {request : Nat} {serial : UInt32}
    {err : Sourced UInt32} (h : ErrFrom completions request serial err) :
    ErrFrom completions' request serial err := by
  obtain ⟨c, hc, hrest⟩ := h
  exact ⟨c, hsub hc, hrest⟩

theorem TextFrom.mono (hsub : completions ⊆ completions') {request : Nat} {serial : UInt32}
    {text : Sourced Bytes} (h : TextFrom completions request serial text) :
    TextFrom completions' request serial text := by
  obtain ⟨c, hc, hrest⟩ := h
  exact ⟨c, hsub hc, hrest⟩

theorem Frame.Own.mono (hsub : completions ⊆ completions') {f : Frame}
    (h : f.Own completions) : f.Own completions' :=
  ⟨h.1.imp_right (ErrFrom.mono hsub), h.2.imp_right (TextFrom.mono hsub)⟩

theorem localFrame_own (request : Nat) (r : Request) {err : UInt32}
    (h : err = RIL_E_GENERIC_FAILURE ∨ err = RIL_E_NO_MEMORY) :
    (localFrame request r err).Own completions :=
  ⟨.inl ⟨rfl, h⟩, .inl rfl⟩

/-- The exits before a slot is taken answer with the two local errors. -/
theorem malCommand_error {r : Request} {alloc : Bool} {e : UInt32}
    (h : malCommand r alloc = .error e) :
    e = RIL_E_GENERIC_FAILURE ∨ e = RIL_E_NO_MEMORY := by
  unfold malCommand at h
  split at h
  · cases h
    exact .inl rfl
  · split at h
    · cases h
      exact .inl rfl
    · simp only at h
      split at h
      · cases h
        exact .inl rfl
      · split at h
        · cases h
          exact .inr rfl
        · cases h

theorem own_malSendFrame {alloc : Bool} {g : Frame} {frames : List Frame}
    (hframes : ∀ f ∈ frames, f.Own completions) (hg : g.Own completions) :
    ∀ f ∈ malSendFrame alloc g frames, f.Own completions := by
  intro f hf
  unfold malSendFrame at hf
  split at hf
  · rcases List.mem_append.mp hf with hf | hf
    · exact hframes f hf
    · rw [List.mem_singleton.mp hf]
      exact hg
  · exact hframes f hf

end Frames

section InFlight

variable {s : Mal}

theorem inFlight_erase_vendor {pRI : RequestInfo} (h : pRI ∈ s.vendor) :
    List.Perm s.inFlight (pRI :: (s.vendor.erase pRI ++ s.matched.map (fun m => m.2.pRI))) :=
  (List.perm_cons_erase h).append_right _

theorem inFlight_erase_matched {m : Fin MAL_MAX_INFLIGHT × Completion} (h : m ∈ s.matched) :
    List.Perm s.inFlight
      (m.2.pRI :: (s.vendor ++ (s.matched.erase m).map (fun m => m.2.pRI))) := by
  have hmap := ((List.perm_cons_erase h).map (fun m => m.2.pRI)).append_left s.vendor
  exact hmap.trans List.perm_middle

/-- A completion that leaves the tokens in flight leaves no other one at its
address. -/
theorem not_mem_of_perm {pRI : RequestInfo} {l rest : List RequestInfo}
    (hperm : List.Perm l (pRI :: rest)) (hunique : (l.map RequestInfo.address).Nodup) :
    ∀ other ∈ rest, other.address ≠ pRI.address := by
  intro other hother heq
  have hnodup := (hperm.map RequestInfo.address).nodup_iff.mp hunique
  rw [List.map_cons, List.nodup_cons] at hnodup
  apply hnodup.1
  rw [← heq]
  exact List.mem_map_of_mem hother

end InFlight

section Tokens

variable {s t : Mal}

theorem update_pRI {slots : Slots} {k : Fin MAL_MAX_INFLIGHT} {x : MalSlot}
    (h : x.pRI = (slots k).pRI) (i : Fin MAL_MAX_INFLIGHT) :
    (Function.update slots k x i).pRI = (slots i).pRI := by
  by_cases hi : i = k
  · subst i
    rw [Function.update_self, h]
  · rw [Function.update_of_ne hi]

/-- A step after which fewer tokens are in flight and the slots hold what
they held. -/
theorem TokenInvariant.fewer (h : TokenInvariant s)
    (hcall : t.phase.call? = s.phase.call?) (hslots : ∀ i, (t.slots i).pRI = (s.slots i).pRI)
    (hsub : List.Subperm t.inFlight s.inFlight) (hheap : ∀ pRI ∈ t.inFlight, pRI.address ∈ t.heap)
    (hlive : ∀ call, s.phase.call? = some call → call.pRI.address ∈ t.heap)
    (hrecorded : ∀ m ∈ t.matched, m.2 ∈ t.completions) : TokenInvariant t := by
  constructor
  · intro i pRI hpRI
    rw [hslots] at hpRI
    rw [hcall]
    exact h.owned i pRI hpRI
  · intro call hc
    rw [hcall] at hc
    rw [hslots]
    exact h.held call hc
  · intro call hc
    rw [hcall] at hc
    exact ⟨(h.created call hc).1, (h.created call hc).2.1, hlive call hc⟩
  · obtain ⟨l, hperm, hl⟩ := hsub
    apply (hperm.map RequestInfo.address).nodup_iff.mp
    exact h.unique.sublist (hl.map RequestInfo.address)
  · exact hheap
  · intro call hc pRI hpRI
    rw [hcall] at hc
    exact h.fits call hc pRI (hsub.subset hpRI)
  · exact hrecorded

/-- A step that neither creates nor frees nor issues a token. -/
theorem TokenInvariant.same (h : TokenInvariant s)
    (hcall : t.phase.call? = s.phase.call?) (hslots : ∀ i, (t.slots i).pRI = (s.slots i).pRI)
    (hheap : t.heap = s.heap) (hvendor : t.vendor = s.vendor) (hmatched : t.matched = s.matched)
    (hcompletions : t.completions = s.completions) : TokenInvariant t := by
  have hflight : t.inFlight = s.inFlight := by rw [Mal.inFlight, Mal.inFlight, hvendor, hmatched]
  apply h.fewer hcall hslots
  · rw [hflight]
  · rw [hflight, hheap]
    exact h.allocated
  · intro call hc
    rw [hheap]
    exact (h.created call hc).2.2
  · rw [hmatched, hcompletions]
    exact h.recorded

/-- Without a token at work, only the frames matter. -/
theorem AnswerInvariant.of_idle (hcall : s.phase.call? = none) (hlaw : AnswerLaw s) :
    AnswerInvariant s := by
  constructor
  · intro _ call hc
    rw [hcall] at hc
    cases hc
  · intro call hc
    rw [hcall] at hc
    cases hc
  · intro call hc
    rw [hcall] at hc
    cases hc
  · intro call n hp
    rw [hp] at hcall
    cases hcall
  · intro call hp
    rw [hp] at hcall
    cases hcall
  · intro call timedOut err text hp
    rw [hp] at hcall
    cases hcall
  · exact hlaw

/-- Fewer tokens in flight and more completions on record, with slots and
server as they were. -/
theorem AnswerInvariant.fewer (h : AnswerInvariant s)
    (hphase : t.phase = s.phase) (hslots : t.slots = s.slots) (hframes : t.frames = s.frames)
    (hflight : t.inFlight ⊆ s.inFlight) (hcompletions : s.completions ⊆ t.completions) :
    AnswerInvariant t := by
  constructor
  · intro hsettled call hcall hmem
    rw [hphase] at hsettled hcall
    exact h.settled hsettled call hcall (hflight hmem)
  · intro call hcall hdone
    rw [hphase] at hcall
    rw [hslots] at hdone ⊢
    obtain ⟨hmem, herr⟩ := h.answered call hcall hdone
    exact ⟨fun hin => hmem (hflight hin), herr.mono hcompletions⟩
  · intro call hcall
    rw [hphase] at hcall
    rw [hslots]
    exact (h.parked call hcall).imp_right (TextFrom.mono hcompletions)
  · intro call n hp
    rw [hphase] at hp
    rw [hslots]
    exact h.issued call n hp
  · intro call hp
    rw [hphase] at hp
    rw [hslots]
    exact h.finished call hp
  · intro call timedOut err text hp
    rw [hphase] at hp
    exact (h.sending call timedOut err text hp).mono hcompletions
  · intro f hf
    rw [hframes] at hf
    exact (h.law f hf).mono hcompletions

end Tokens

section Server

variable {s : Mal} (h : MalInvariant s)
include h

theorem dispatch_keeps {r : Request} {cmdAlloc frameAlloc : Bool} (hp : s.phase = .idle) :
    MalInvariant (dispatch r cmdAlloc frameAlloc s) := by
  unfold dispatch
  cases hcmd : malCommand r cmdAlloc with
  | error e =>
      constructor
      · exact h.tokens.same rfl (fun _ => rfl) rfl rfl rfl rfl
      · apply AnswerInvariant.of_idle
        · simp only [hp, Phase.call?]
        · exact own_malSendFrame h.answers.law (localFrame_own _ r (malCommand_error hcmd))
  | ok cmd =>
      cases hslot : freeSlot s.slots with
      | none =>
          simp only [hslot]
          constructor
          · exact h.tokens.same rfl (fun _ => rfl) rfl rfl rfl rfl
          · apply AnswerInvariant.of_idle
            · simp only [hp, Phase.call?]
            · exact own_malSendFrame h.answers.law (localFrame_own _ r (.inl rfl))
      | some slot =>
          simp only [hslot]
          constructor
          · refine h.tokens.same ?_ (update_pRI rfl) rfl rfl rfl rfl
            simp only [hp, Phase.call?]
          · exact AnswerInvariant.of_idle rfl h.answers.law

theorem createFailed_keeps {request : Nat} {r : Request} {cmd : Bytes}
    {slot : Fin MAL_MAX_INFLIGHT} {frameAlloc : Bool}
    (hp : s.phase = .claimed request r cmd slot) :
    MalInvariant (createFailed request r slot frameAlloc s) := by
  constructor
  · refine h.tokens.same ?_ (update_pRI rfl) rfl rfl rfl rfl
    simp only [createFailed, hp, Phase.call?]
  · apply AnswerInvariant.of_idle rfl
    exact own_malSendFrame h.answers.law (localFrame_own _ r (.inr rfl))

theorem create_keeps {request : Nat} {r : Request} {cmd : Bytes}
    {slot : Fin MAL_MAX_INFLIGHT} {address : Nat}
    (hp : s.phase = .claimed request r cmd slot) (hfresh : address ∉ s.heap) :
    MalInvariant (create request r cmd slot address s) := by
  have hnone : s.phase.call? = none := by rw [hp, Phase.call?]
  -- `calloc` returned an address that no token in flight has.
  have hflight : ∀ pRI ∈ s.inFlight, pRI.address ≠ address := by
    intro pRI hpRI heq
    apply hfresh
    rw [← heq]
    exact h.tokens.allocated pRI hpRI
  constructor
  · constructor
    · intro i pRI hpRI
      simp only [create] at hpRI ⊢
      by_cases hi : i = slot
      · subst i
        rw [Function.update_self] at hpRI
        exact ⟨_, rfl, rfl, Option.some.inj hpRI⟩
      · rw [Function.update_of_ne hi] at hpRI
        obtain ⟨call, hc, -⟩ := h.tokens.owned i pRI hpRI
        rw [hnone] at hc
        cases hc
    · rintro call ⟨⟩
      simp only [create, Function.update_self]
    · rintro call ⟨⟩
      exact ⟨rfl, rfl, List.mem_cons_self⟩
    · exact h.tokens.unique
    · intro pRI hpRI
      exact List.mem_cons_of_mem _ (h.tokens.allocated pRI hpRI)
    · rintro call ⟨⟩ pRI hpRI heq
      exact absurd heq (hflight pRI hpRI)
    · exact h.tokens.recorded
  · constructor
    · rintro - call ⟨⟩ hmem
      exact hflight _ hmem rfl
    · rintro call ⟨⟩ hdone
      simp only [create, Function.update_self] at hdone
      cases hdone
    · rintro call ⟨⟩
      left
      simp only [create, Function.update_self]
    · rintro call n ⟨⟩
    · rintro call ⟨⟩
    · rintro call timedOut err text ⟨⟩
    · exact h.answers.law

theorem resetDone_keeps {call : Call} {n : Nat} (hp : s.phase = .attempt call n) :
    MalInvariant (resetDone call n s) := by
  have hcall : s.phase.call? = some call := by rw [hp, Phase.call?]
  constructor
  · refine h.tokens.same ?_ (update_pRI rfl) rfl rfl rfl rfl
    rw [hcall, resetDone, Phase.call?]
  · constructor
    · rintro - call' ⟨⟩
      apply h.answers.settled _ call hcall
      rw [hp, Phase.Settled]
      trivial
    · rintro call' ⟨⟩ hdone
      simp only [resetDone, Function.update_self] at hdone
      cases hdone
    · rintro call' ⟨⟩
      simp only [resetDone, Function.update_self]
      exact h.answers.parked call hcall
    · rintro call' n' ⟨⟩
      simp only [resetDone, Function.update_self]
    · rintro call' ⟨⟩
    · rintro call' timedOut err text ⟨⟩
    · exact h.answers.law

theorem onRequest_keeps {call : Call} {n : Nat} (hp : s.phase = .issue call n) :
    MalInvariant (onRequest call n s) := by
  have hcall : s.phase.call? = some call := by rw [hp, Phase.call?]
  have hout : call.pRI ∉ s.inFlight := by
    apply h.answers.settled _ call hcall
    rw [hp, Phase.Settled]
    trivial
  have hdone : (s.slots call.slot).done = false := h.answers.issued call n hp
  constructor
  · constructor
    · intro i pRI hpRI
      obtain ⟨call', hc, hrest⟩ := h.tokens.owned i pRI hpRI
      rw [hcall] at hc
      exact ⟨call', hc, hrest⟩
    · rintro call' ⟨⟩
      exact h.tokens.held call hcall
    · rintro call' ⟨⟩
      exact h.tokens.created call hcall
    · change ((call.pRI :: s.inFlight).map RequestInfo.address).Nodup
      rw [List.map_cons, List.nodup_cons]
      refine ⟨?_, h.tokens.unique⟩
      intro hmem
      obtain ⟨pRI, hpRI, heq⟩ := List.mem_map.mp hmem
      rw [h.tokens.fits call hcall pRI hpRI heq] at hpRI
      exact hout hpRI
    · intro pRI hpRI
      rcases List.mem_cons.mp hpRI with rfl | hpRI
      · exact (h.tokens.created call hcall).2.2
      · exact h.tokens.allocated pRI hpRI
    · rintro call' ⟨⟩ pRI hpRI heq
      rcases List.mem_cons.mp hpRI with rfl | hpRI
      · rfl
      · exact h.tokens.fits call hcall pRI hpRI heq
    · exact h.tokens.recorded
  · constructor
    · rintro ⟨⟩
    · rintro call' ⟨⟩ hdone'
      rw [onRequest, hdone] at hdone'
      cases hdone'
    · rintro call' ⟨⟩
      exact h.answers.parked call hcall
    · rintro call' n' ⟨⟩
    · rintro call' ⟨⟩
    · rintro call' timedOut err text ⟨⟩
    · exact h.answers.law

theorem wake_keeps {call : Call} {n : Nat} (hp : s.phase = .wait call n)
    (hdone : (s.slots call.slot).done = true) : MalInvariant (wake call n s) := by
  have hcall : s.phase.call? = some call := by rw [hp, Phase.call?]
  have hcall' : (wake call n s).phase.call? = some call := by
    unfold wake
    split <;> rfl
  constructor
  · exact h.tokens.same (hcall'.trans hcall.symm) (fun _ => rfl) rfl rfl rfl rfl
  · constructor
    · intro _ call' hc
      rw [hcall'] at hc
      cases hc
      exact (h.answers.answered call hcall hdone).1
    · intro call' hc
      rw [hcall'] at hc
      cases hc
      exact h.answers.answered call hcall
    · intro call' hc
      rw [hcall'] at hc
      cases hc
      exact h.answers.parked call hcall
    · intro call' n' hp'
      simp only [wake] at hp'
      split at hp' <;> cases hp'
    · intro call' hp'
      rw [hp', Phase.call?] at hcall'
      cases hcall'
      exact hdone
    · intro call' timedOut err text hp'
      simp only [wake] at hp'
      split at hp' <;> cases hp'
    · exact h.answers.law

theorem timeout_keeps {call : Call} {n : Nat} (hp : s.phase = .wait call n) :
    MalInvariant (timeout call s) := by
  have hcall : s.phase.call? = some call := by rw [hp, Phase.call?]
  constructor
  · refine h.tokens.same ?_ (fun _ => rfl) rfl rfl rfl rfl
    rw [hcall, timeout, Phase.call?]
  · constructor
    · rintro ⟨⟩
    · rintro call' ⟨⟩
      exact h.answers.answered call hcall
    · rintro call' ⟨⟩
      exact h.answers.parked call hcall
    · rintro call' n' ⟨⟩
    · rintro call' ⟨⟩
    · rintro call' timedOut err text ⟨⟩
    · exact h.answers.law

theorem takeAnswer_keeps {call : Call} {timedOut : Bool}
    (hp : s.phase = .finish call timedOut) : MalInvariant (takeAnswer call timedOut s) := by
  have hcall : s.phase.call? = some call := by rw [hp, Phase.call?]
  constructor
  · refine h.tokens.same ?_ (update_pRI rfl) rfl rfl rfl rfl
    rw [hcall, takeAnswer, Phase.call?]
  · constructor
    · rintro hsettled call' ⟨⟩
      apply h.answers.settled _ call hcall
      rw [hp]
      cases timedOut
      · trivial
      · cases hsettled
    · rintro call' ⟨⟩ hdone
      simp only [takeAnswer, Function.update_self] at hdone ⊢
      exact h.answers.answered call hcall hdone
    · rintro call' ⟨⟩
      left
      simp only [takeAnswer, Function.update_self]
    · rintro call' n' ⟨⟩
    · rintro call' ⟨⟩
    · rintro call' timedOut' err text ⟨⟩
      constructor
      · cases timedOut with
        | false =>
            right
            exact (h.answers.answered call hcall (h.answers.finished call hp)).2
        | true => exact .inl ⟨rfl, .inl rfl⟩
      · exact h.answers.parked call hcall
    · exact h.answers.law

theorem sendAnswer_keeps {call : Call} {timedOut : Bool} {err : Sourced UInt32}
    {text : Sourced Bytes} {alloc : Bool} (hp : s.phase = .send call timedOut err text) :
    MalInvariant (sendAnswer call timedOut err text alloc s) := by
  have hcall : s.phase.call? = some call := by rw [hp, Phase.call?]
  constructor
  · refine h.tokens.same ?_ (fun _ => rfl) rfl rfl rfl rfl
    rw [hcall, sendAnswer, Phase.call?]
  · constructor
    · rintro hsettled call' ⟨⟩
      apply h.answers.settled _ call hcall
      rw [hp]
      cases timedOut
      · trivial
      · cases hsettled
    · rintro call' ⟨⟩
      exact h.answers.answered call hcall
    · rintro call' ⟨⟩
      exact h.answers.parked call hcall
    · rintro call' n' ⟨⟩
    · rintro call' ⟨⟩
    · rintro call' timedOut' err' text' ⟨⟩
    · apply own_malSendFrame h.answers.law
      exact h.answers.sending call timedOut err text hp

theorem release_keeps {call : Call} {timedOut : Bool}
    (hp : s.phase = .release call timedOut) : MalInvariant (release call timedOut s) := by
  have hcall : s.phase.call? = some call := by rw [hp, Phase.call?]
  constructor
  · constructor
    · intro i pRI hpRI
      simp only [release] at hpRI
      by_cases hi : i = call.slot
      · subst i
        rw [Function.update_self] at hpRI
        cases hpRI
      · rw [Function.update_of_ne hi] at hpRI
        obtain ⟨call', hc, rfl, -⟩ := h.tokens.owned i pRI hpRI
        rw [hcall] at hc
        cases hc
        exact absurd rfl hi
    · rintro call' ⟨⟩
    · rintro call' ⟨⟩
    · exact h.tokens.unique
    · intro pRI hpRI
      have hmem := h.tokens.allocated pRI hpRI
      cases timedOut with
      | true => exact hmem
      | false =>
          -- The address that is freed belongs to no token in flight.
          apply (List.mem_erase_of_ne _).mpr hmem
          intro heq
          rw [h.tokens.fits call hcall pRI hpRI heq] at hpRI
          apply h.answers.settled _ call hcall hpRI
          rw [hp, Phase.Settled]
          trivial
    · rintro call' ⟨⟩
    · exact h.tokens.recorded
  · exact AnswerInvariant.of_idle rfl h.answers.law

end Server

section Vendor

variable {s : Mal} (h : MalInvariant s)
include h

theorem ordinaryRequest_keeps {pRI : RequestInfo} (hfresh : pRI.address ∉ s.heap) :
    MalInvariant (ordinaryRequest pRI s) := by
  have hne : ∀ call, s.phase.call? = some call → call.pRI.address ≠ pRI.address := by
    intro call hcall heq
    apply hfresh
    rw [← heq]
    exact (h.tokens.created call hcall).2.2
  have hout : ∀ call, s.phase.call? = some call → call.pRI ∉ s.inFlight →
      call.pRI ∉ (ordinaryRequest pRI s).inFlight := by
    intro call hcall hout hmem
    rcases List.mem_cons.mp hmem with heq | hmem
    · apply hne call hcall
      rw [heq]
    · exact hout hmem
  constructor
  · constructor
    · exact h.tokens.owned
    · exact h.tokens.held
    · intro call hcall
      obtain ⟨hrequest, htoken, hmem⟩ := h.tokens.created call hcall
      exact ⟨hrequest, htoken, List.mem_cons_of_mem _ hmem⟩
    · change ((pRI :: s.inFlight).map RequestInfo.address).Nodup
      rw [List.map_cons, List.nodup_cons]
      refine ⟨?_, h.tokens.unique⟩
      intro hmem
      obtain ⟨other, hother, heq⟩ := List.mem_map.mp hmem
      apply hfresh
      rw [← heq]
      exact h.tokens.allocated other hother
    · intro other hother
      rcases List.mem_cons.mp hother with rfl | hother
      · exact List.mem_cons_self
      · exact List.mem_cons_of_mem _ (h.tokens.allocated other hother)
    · intro call hcall other hother heq
      rcases List.mem_cons.mp hother with rfl | hother
      · exact absurd heq.symm (hne call hcall)
      · exact h.tokens.fits call hcall other hother heq
    · exact h.tokens.recorded
  · constructor
    · intro hsettled call hcall
      exact hout call hcall (h.answers.settled hsettled call hcall)
    · intro call hcall hdone
      obtain ⟨hmem, herr⟩ := h.answers.answered call hcall hdone
      exact ⟨hout call hcall hmem, herr⟩
    · exact h.answers.parked
    · exact h.answers.issued
    · exact h.answers.finished
    · exact h.answers.sending
    · exact h.answers.law

theorem onRequestComplete_keeps {c : Completion} (hc : c.pRI ∈ s.vendor) :
    MalInvariant (onRequestComplete c s) := by
  have hperm := inFlight_erase_vendor hc
  have hsub := (List.sublist_cons_self c.pRI _).subperm.trans hperm.symm.subperm
  have hrecord : ∀ d ∈ s.completions, d ∈ s.completions ++ [c] :=
    fun d hd => List.mem_append_left _ hd
  unfold onRequestComplete
  cases hclaim : malClaim s.slots c.pRI with
  | some slot =>
      simp only [hclaim]
      have hperm' : List.Perm
          (s.vendor.erase c.pRI ++ c.pRI :: s.matched.map (fun m => m.2.pRI)) s.inFlight :=
        List.perm_middle.trans hperm.symm
      constructor
      · refine h.tokens.fewer rfl (fun _ => rfl) hperm'.subperm ?_ ?_ ?_
        · intro pRI hpRI
          exact h.tokens.allocated pRI (hperm'.subset hpRI)
        · intro call hcall
          exact (h.tokens.created call hcall).2.2
        · intro m hm
          rcases List.mem_cons.mp hm with rfl | hm
          · exact List.mem_append_right _ (List.mem_singleton_self c)
          · exact hrecord _ (h.tokens.recorded m hm)
      · exact h.answers.fewer rfl rfl rfl hperm'.subset hrecord
  | none =>
      simp only [hclaim]
      split
      case isTrue hordinary =>
        -- The ordinary path frees the token: it is neither in flight any
        -- more nor the one the server works with.
        constructor
        · refine h.tokens.fewer rfl (fun _ => rfl) hsub ?_ ?_ ?_
          · intro pRI hpRI
            apply (List.mem_erase_of_ne _).mpr
            · exact h.tokens.allocated pRI (hsub.subset hpRI)
            · exact not_mem_of_perm hperm h.tokens.unique pRI hpRI
          · intro call hcall
            obtain ⟨hrequest, -, hmem⟩ := h.tokens.created call hcall
            apply (List.mem_erase_of_ne _).mpr hmem
            intro heq
            have hmine := h.tokens.fits call hcall c.pRI (List.mem_append_left _ hc) heq.symm
            rw [hmine, hrequest] at hordinary
            cases hordinary
          · intro m hm
            exact hrecord _ (h.tokens.recorded m hm)
        · exact h.answers.fewer rfl rfl rfl hsub.subset hrecord
      case isFalse =>
        constructor
        · refine h.tokens.fewer rfl (fun _ => rfl) hsub ?_ ?_ ?_
          · intro pRI hpRI
            exact h.tokens.allocated pRI (hsub.subset hpRI)
          · intro call hcall
            exact (h.tokens.created call hcall).2.2
          · intro m hm
            exact hrecord _ (h.tokens.recorded m hm)
        · exact h.answers.fewer rfl rfl rfl hsub.subset hrecord

/-- A completion that still matches its slot is one of the token that the
server works with. -/
theorem completed_eq {m : Fin MAL_MAX_INFLIGHT × Completion} (hm : m ∈ s.matched)
    (hmatch : ∀ pRI, (s.slots m.1).pRI = some pRI → pRI.address = m.2.pRI.address) {call : Call}
    (hcall : s.phase.call? = some call) (hslot : call.slot = m.1) : m.2.pRI = call.pRI := by
  have hmem : m.2.pRI ∈ s.inFlight := (inFlight_erase_matched hm).mem_iff.mpr List.mem_cons_self
  apply h.tokens.fits call hcall m.2.pRI hmem
  apply (hmatch call.pRI _).symm
  rw [← hslot]
  exact h.tokens.held call hcall

omit h in
theorem complete_slot_of_ne (m : Fin MAL_MAX_INFLIGHT × Completion) (alloc : Bool)
    {i : Fin MAL_MAX_INFLIGHT} (hne : i ≠ m.1) : (complete m alloc s).slots i = s.slots i :=
  Function.update_of_ne hne _ _

omit h in
theorem complete_slot_self (m : Fin MAL_MAX_INFLIGHT × Completion) (alloc : Bool) :
    (complete m alloc s).slots m.1 =
      { s.slots m.1 with
        text := ⟨m.2.text alloc, m.2.pRI.request⟩
        err := ⟨m.2.e, m.2.pRI.request⟩
        done := true } :=
  Function.update_self _ _ _

/-- The one step that needs the condition: the token that the slot holds now
is the one that was completed. -/
theorem complete_keeps {m : Fin MAL_MAX_INFLIGHT × Completion} {alloc : Bool}
    (hm : m ∈ s.matched)
    (hmatch : ∀ pRI, (s.slots m.1).pRI = some pRI → pRI.address = m.2.pRI.address) :
    MalInvariant (complete m alloc s) := by
  have hperm := inFlight_erase_matched hm
  have hsub := (List.sublist_cons_self m.2.pRI _).subperm.trans hperm.symm.subperm
  have hmine : ∀ call, s.phase.call? = some call → call.slot = m.1 → m.2.pRI = call.pRI :=
    fun call hcall hs => completed_eq h hm hmatch hcall hs
  have hfrom : ∀ call, s.phase.call? = some call → call.slot = m.1 →
      m.2.pRI.request = some call.request ∧ m.2.pRI.token = call.serial := by
    intro call hcall hs
    rw [hmine call hcall hs]
    exact ⟨(h.tokens.created call hcall).1, (h.tokens.created call hcall).2.1⟩
  constructor
  · refine h.tokens.fewer rfl (update_pRI rfl) hsub ?_ ?_ ?_
    · intro pRI hpRI
      exact h.tokens.allocated pRI (hsub.subset hpRI)
    · intro call hcall
      exact (h.tokens.created call hcall).2.2
    · intro m' hm'
      exact h.tokens.recorded m' (List.mem_of_mem_erase hm')
  · constructor
    · intro hsettled call hcall hin
      exact h.answers.settled hsettled call hcall (hsub.subset hin)
    · intro call hcall hdone
      by_cases hs : call.slot = m.1
      · constructor
        · intro hin
          apply not_mem_of_perm hperm h.tokens.unique call.pRI hin
          rw [hmine call hcall hs]
        · rw [hs, complete_slot_self]
          obtain ⟨hrequest, htoken⟩ := hfrom call hcall hs
          exact ⟨m.2, h.tokens.recorded m hm, hrequest, htoken, rfl⟩
      · rw [complete_slot_of_ne m alloc hs] at hdone ⊢
        obtain ⟨hout, herr⟩ := h.answers.answered call hcall hdone
        exact ⟨fun hin => hout (hsub.subset hin), herr⟩
    · intro call hcall
      by_cases hs : call.slot = m.1
      · right
        rw [hs, complete_slot_self]
        obtain ⟨hrequest, htoken⟩ := hfrom call hcall hs
        exact ⟨m.2, h.tokens.recorded m hm, hrequest, htoken, alloc, rfl⟩
      · rw [complete_slot_of_ne m alloc hs]
        exact h.answers.parked call hcall
    · intro call n hp
      have hcall : s.phase.call? = some call := by
        rw [show s.phase = _ from hp, Phase.call?]
      have hs : call.slot ≠ m.1 := by
        -- Before the token is issued there is nothing to complete.
        intro hs
        have hmem := hperm.mem_iff.mpr List.mem_cons_self
        rw [hmine call hcall hs] at hmem
        apply h.answers.settled _ call hcall hmem
        rw [show s.phase = _ from hp, Phase.Settled]
        trivial
      rw [complete_slot_of_ne m alloc hs]
      exact h.answers.issued call n hp
    · intro call hp
      by_cases hs : call.slot = m.1
      · rw [hs, complete_slot_self]
      · rw [complete_slot_of_ne m alloc hs]
        exact h.answers.finished call hp
    · exact h.answers.sending
    · exact h.answers.law

end Vendor

theorem malStart_invariant {s : Mal} (h : MalStart s) : MalInvariant s := by
  subst h
  constructor
  · constructor
    · rintro i pRI ⟨⟩
    · rintro call ⟨⟩
    · rintro call ⟨⟩
    · exact List.nodup_nil
    · rintro pRI ⟨⟩
    · rintro call ⟨⟩
    · rintro m ⟨⟩
  · apply AnswerInvariant.of_idle rfl
    rintro f ⟨⟩

theorem matchedStep_keeps {s t : Mal} {label : MalLabel} (h : MalInvariant s)
    (hstep : MatchedStep s label t) : MalInvariant t := by
  obtain ⟨hstep, hmatch⟩ := hstep
  cases label with
  | dispatch r cmdAlloc frameAlloc =>
      obtain ⟨hp, rfl⟩ := hstep
      exact dispatch_keeps h hp
  | createFailed frameAlloc =>
      obtain ⟨request, r, cmd, slot, hp, rfl⟩ := hstep
      exact createFailed_keeps h hp
  | create address =>
      obtain ⟨request, r, cmd, slot, hp, hfresh, rfl⟩ := hstep
      exact create_keeps h hp hfresh
  | resetDone =>
      obtain ⟨call, n, hp, rfl⟩ := hstep
      exact resetDone_keeps h hp
  | onRequest =>
      obtain ⟨call, n, hp, rfl⟩ := hstep
      exact onRequest_keeps h hp
  | wake =>
      obtain ⟨call, n, hp, hdone, rfl⟩ := hstep
      exact wake_keeps h hp hdone
  | timeout =>
      obtain ⟨call, n, hp, -, rfl⟩ := hstep
      exact timeout_keeps h hp
  | takeAnswer =>
      obtain ⟨call, timedOut, hp, rfl⟩ := hstep
      exact takeAnswer_keeps h hp
  | sendAnswer alloc =>
      obtain ⟨call, timedOut, err, text, hp, rfl⟩ := hstep
      exact sendAnswer_keeps h hp
  | release =>
      obtain ⟨call, timedOut, hp, rfl⟩ := hstep
      exact release_keeps h hp
  | ordinaryRequest pRI =>
      obtain ⟨-, hfresh, rfl⟩ := hstep
      exact ordinaryRequest_keeps h hfresh
  | onRequestComplete c =>
      obtain ⟨hc, rfl⟩ := hstep
      exact onRequestComplete_keeps h hc
  | complete m alloc =>
      obtain ⟨hm, rfl⟩ := hstep
      exact complete_keeps h hm hmatch

/-- In every run in which no completion reaches a slot that another token has
taken over, every frame that was sent carries its own request's answer. -/
theorem answers_not_crossed {s : Mal} (h : Reachable MalStart MatchedStep s) : AnswerLaw s := by
  have hinv : MalInvariant s := by
    apply Reachable.invariant _ _ h
    · intro s hs
      exact malStart_invariant hs
    · intro s label t hs hstep
      exact matchedStep_keeps hs hstep
  exact hinv.answers.law

section Schedules

/-- The command `A` for the first SIM, under the given serial. -/
private def request (serial : UInt32) : Request :=
  { simId := 0, requestId := 2106, serial, payload := [0, 0, 0, 0, 1, 0, 0, 0, 65] }

private def call (number : Nat) (serial : UInt32) : Call :=
  { request := number, simId := 0, serial, cmd := [65, 0], slot := 0
    pRI := malToken number (request serial) number }

/-- The vendor's answer `OK` to the first request. -/
private def firstAnswer : Completion := { pRI := (call 0 7).pRI, e := 0, response := some [79, 75] }

/-- The dispatch of a request until its token is with the vendor. -/
private def issued (number : Nat) (serial : UInt32) (s : Mal) : Mal :=
  onRequest (call number serial) 1 (resetDone (call number serial) 1
    (create number (request serial) [65, 0] 0 number (dispatch (request serial) true true s)))

private theorem issued_reachable {step : Mal → MalLabel → Mal → Prop} {number : Nat}
    {serial : UInt32} {s : Mal} (h : Reachable MalStart step s)
    (hstep : ∀ s label t, MalStep s label t → StillMatched s label → step s label t)
    (hp : s.phase = .idle) (hnumber : s.requests = number) (hfree : freeSlot s.slots = some 0)
    (hheap : number ∉ s.heap) : Reachable MalStart step (issued number serial s) := by
  have hlength : malGetLE [1, 0, 0, 0, 65] = 1 := by decide
  have hcmd : malCommand (request serial) true = .ok [65, 0] := by
    simp [malCommand, request, RIL_REQUEST_AT_COMMAND_WITH_PROXY, hlength]
  have hdispatch : (dispatch (request serial) true true s).phase =
      .claimed number (request serial) [65, 0] 0 := by
    simp only [dispatch, hcmd, hfree, hnumber]
  have hkept : (dispatch (request serial) true true s).heap = s.heap := by
    simp only [dispatch, hcmd, hfree]
  have hclaimed := h.next (.dispatch (request serial) true true)
    (hstep _ _ _ ⟨hp, rfl⟩ trivial)
  have hcreated := hclaimed.next (.create number)
    (hstep _ _ _ ⟨_, _, _, _, hdispatch, by rwa [hkept], rfl⟩ trivial)
  have hreset := hcreated.next .resetDone (hstep _ _ _ ⟨_, _, rfl, rfl⟩ trivial)
  exact hreset.next .onRequest (hstep _ _ _ ⟨_, _, rfl, rfl⟩ trivial)

/-- The vendor completes the first request and its slot has been found. -/
private def found : Mal := onRequestComplete firstAnswer (issued 0 7 {})

/-- Before the answer is written, the server gives the request up and the
next one takes the slot over. -/
private def takenOver : Mal :=
  issued 1 8 (release (call 0 7) true
    (sendAnswer (call 0 7) true ⟨RIL_E_GENERIC_FAILURE, none⟩ ⟨[], none⟩ true
      (takeAnswer (call 0 7) true (timeout (call 0 7) found))))

private theorem takenOver_reachable : Reachable MalStart MalStep takenOver := by
  have hissued : Reachable MalStart MalStep (issued 0 7 {}) :=
    issued_reachable (.init rfl) (fun _ _ _ h _ => h) rfl rfl (by decide) (by decide)
  have hfound := hissued.next (.onRequestComplete firstAnswer) ⟨by decide, rfl⟩
  have htimeout := hfound.next .timeout ⟨call 0 7, 1, by decide, by decide, rfl⟩
  have htaken := htimeout.next .takeAnswer ⟨_, _, rfl, rfl⟩
  have hsent := htaken.next (.sendAnswer true)
    ⟨call 0 7, true, ⟨RIL_E_GENERIC_FAILURE, none⟩, ⟨[], none⟩, by decide, rfl⟩
  have hreleased := hsent.next .release ⟨_, _, rfl, rfl⟩
  exact issued_reachable hreleased (fun _ _ _ h _ => h) rfl (by decide) (by decide) (by decide)

/-- The second request, serial 8, is answered with the vendor's `OK` to the
first: it was written into the slot after the first request had timed out. -/
theorem answers_crossed :
    ∃ s, Reachable MalStart MalStep s ∧ ¬ AnswerLaw s ∧
      ∃ f ∈ s.frames, f.request = 1 ∧ f.serial = 8 ∧
        f.err = ⟨RIL_E_SUCCESS, some 0⟩ ∧ f.text = ⟨[79, 75], some 0⟩ := by
  have hcomplete := takenOver_reachable.next (.complete (0, firstAnswer) true) ⟨by decide, rfl⟩
  have hwoken := hcomplete.next .wake ⟨call 1 8, 1, by decide, by decide, rfl⟩
  have htaken := hwoken.next .takeAnswer ⟨call 1 8, false, by decide, rfl⟩
  have hsent := htaken.next (.sendAnswer true)
    ⟨call 1 8, false, ⟨RIL_E_SUCCESS, some 0⟩, ⟨[79, 75], some 0⟩, by decide, rfl⟩
  have hframe : (call 1 8).frame ⟨RIL_E_SUCCESS, some 0⟩ ⟨[79, 75], some 0⟩ ∈
      (takeAnswer (call 1 8) false (wake (call 1 8) 1
        (complete (0, firstAnswer) true takenOver))).frames ++
          [(call 1 8).frame ⟨RIL_E_SUCCESS, some 0⟩ ⟨[79, 75], some 0⟩] :=
    List.mem_append_right _ (List.mem_singleton_self _)
  refine ⟨_, hsent, ?_, _, hframe, rfl, rfl, rfl, rfl⟩
  intro hlaw
  obtain ⟨hlocal | ⟨c, -, hc, -, herr⟩, -⟩ := hlaw _ hframe
  · cases hlocal.1
  · have hsource := congrArg Sourced.source herr
    rw [hc] at hsource
    cases hsource

/-- A first request that its own completion answers. -/
theorem answers_not_crossed_first :
    ∃ s, Reachable MalStart MatchedStep s ∧ s.frames ≠ [] ∧ AnswerLaw s := by
  have hissued : Reachable MalStart MatchedStep (issued 0 7 {}) :=
    issued_reachable (.init rfl) (fun _ _ _ h hm => ⟨h, hm⟩) rfl rfl (by decide) (by decide)
  have hfound := hissued.next (.onRequestComplete firstAnswer) ⟨⟨by decide, rfl⟩, trivial⟩
  have hmatch : StillMatched found (.complete (0, firstAnswer) true) := by
    intro pRI hpRI
    have hheld : (found.slots 0).pRI = some firstAnswer.pRI := by decide
    rw [hheld] at hpRI
    cases hpRI
    rfl
  have hcomplete := hfound.next (.complete (0, firstAnswer) true) ⟨⟨by decide, rfl⟩, hmatch⟩
  have hwoken := hcomplete.next .wake ⟨⟨call 0 7, 1, by decide, by decide, rfl⟩, trivial⟩
  have htaken := hwoken.next .takeAnswer ⟨⟨call 0 7, false, by decide, rfl⟩, trivial⟩
  have hsent := htaken.next (.sendAnswer true)
    ⟨⟨call 0 7, false, ⟨RIL_E_SUCCESS, some 0⟩, ⟨[79, 75], some 0⟩, by decide, rfl⟩, trivial⟩
  exact ⟨_, hsent, List.append_ne_nil_of_right_ne_nil _ (List.cons_ne_nil _ _),
    answers_not_crossed hsent⟩

end Schedules

end MeizuM5c.Ril
