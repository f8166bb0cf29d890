import MeizuM5c.Lib.DistinctKeys
import MeizuM5c.Ril.PendingRequests

/-!
The lists hold the requests that wait for an answer. The invariant ties memory,
the lists and the record of requests together; it is kept by every step except
an error response, which answers a request and leaves it on its list.
-/

namespace MeizuM5c.Ril.Pending

open Lib

section Invariant

/-- Whether the request has somebody to answer to. -/
def RequestInfo.answers (r : RequestInfo) : Bool :=
  !r.isLocal && !r.cancelled && r.pCI.responseFunction

/-- The same request, acknowledged or not. -/
def RequestInfo.Same (a b : RequestInfo) : Prop := a = { b with wasAckSent := a.wasAckSent }

namespace RequestInfo.Same

variable {a b c : RequestInfo}

theorem refl : a.Same a := rfl

theorem trans (hab : a.Same b) (hbc : b.Same c) : a.Same c := by
  rw [RequestInfo.Same, hab, hbc]

theorem number_eq (h : a.Same b) : a.number = b.number := by rw [h]

theorem socketId_eq (h : a.Same b) : a.socketId = b.socketId := by rw [h]

theorem answers_eq (h : a.Same b) : a.answers = b.answers := by
  rw [h]
  rfl

end RequestInfo.Same

/-- Each list holds, in the order of their arrival, the requests of its slot that
were not answered. A request is answered once at most, and once its answer is no
longer under way it is answered exactly when there is somebody to answer to. -/
structure PendingLaw (σ : State) : Prop where
  lists : ∀ socket, (σ.pendingRequests socket).map σ.number =
    (σ.added.filter fun r => r.socketId = socket ∧ r.number ∉ σ.settled).map RequestInfo.number
  once : (σ.responses.map Response.number).Nodup
  answered : ∀ r ∈ σ.added, r.number ∈ σ.responses.map Response.number ↔
    r.number ∈ σ.settled ∧ r.answers ∧ r.number ∉ σ.taken.map fun c => σ.number c.1

/-- What holds between memory, the lists and the record of requests as long as
only completions answer. -/
structure Inv (σ : State) : Prop extends PendingLaw σ where
  numbered : ∀ r ∈ σ.added, r.number < σ.added.length
  unique : (σ.added.map RequestInfo.number).Nodup
  distinct : (σ.allocated.map σ.number).Nodup
  owner : ∀ p ∈ σ.allocated, ∃ r ∈ σ.added, (σ.heap p).Same r
  hook : ∀ socket, ∀ p ∈ σ.pendingRequests socket, (σ.heap p).socketId = socket
  underway : ∀ c ∈ σ.taken, σ.number c.1 ∈ σ.settled
  settled_lt : ∀ n ∈ σ.settled, n < σ.added.length
  responses_settled : ∀ n ∈ σ.responses.map Response.number, n ∈ σ.settled

theorem mem_allocated {σ : State} {p : Nat} : p ∈ σ.allocated ↔
    (∃ socket, p ∈ σ.pendingRequests socket) ∨ p ∈ σ.taken.map Prod.fst ∨ p ∈ σ.responded := by
  unfold State.allocated
  simp only [List.mem_append, or_assoc]
  constructor
  · rintro (h | h | h)
    · exact .inl ⟨_, h⟩
    · exact .inl ⟨_, h⟩
    · exact .inr h
  · rintro (⟨socket, h⟩ | h)
    · cases socket with
      | socket1 => exact .inl h
      | socket2 => exact .inr (.inl h)
    · exact .inr (.inr h)

theorem pending_allocated {σ : State} (socket : SocketId) {q : Nat}
    (hq : q ∈ σ.pendingRequests socket) : q ∈ σ.allocated :=
  mem_allocated.mpr (.inl ⟨socket, hq⟩)

theorem taken_allocated {σ : State} {c : Nat × Int} (hc : c ∈ σ.taken) : c.1 ∈ σ.allocated :=
  mem_allocated.mpr (.inr (.inl (List.mem_map_of_mem hc)))

/-- The added request of a number. -/
theorem added_eq {σ : State} (h : Inv σ) {r s : RequestInfo} (hr : r ∈ σ.added) (hs : s ∈ σ.added)
    (heq : r.number = s.number) : r = s :=
  List.inj_on_of_nodup_map h.unique hr hs heq

theorem Inv.initial {σ : State} (h : Initial σ) : Inv σ := by
  obtain ⟨heap, rfl⟩ := h
  constructor
  · constructor <;> simp
  all_goals simp [State.allocated]

end Invariant

section Steps

/-- Memory that is not allocated does not matter, nor do the marks of an
acknowledgement. -/
theorem Inv.of_heap {σ : State} (h : Inv σ) {heap : Nat → RequestInfo} {acking : List Nat}
    {acks : List (SocketId × Int)} (hheap : ∀ q ∈ σ.allocated, (heap q).Same (σ.heap q)) :
    Inv { σ with heap, acking, acks } := by
  have hnumber (l : List Nat) (hl : ∀ q ∈ l, q ∈ σ.allocated) :
      l.map (fun q => (heap q).number) = l.map σ.number :=
    List.map_congr_left fun q hq => (hheap q (hl q hq)).number_eq
  have htakenNumber : σ.taken.map (fun c => (heap c.1).number) =
      σ.taken.map fun c => σ.number c.1 :=
    List.map_congr_left fun c hc => (hheap c.1 (taken_allocated hc)).number_eq
  refine ⟨⟨fun socket => ?_, h.once, fun r hr => ?_⟩, h.numbered, h.unique, ?_, fun p hp => ?_,
    fun socket p hp => ?_, fun c hc => ?_, h.settled_lt, h.responses_settled⟩
  · exact (hnumber _ fun q hq => pending_allocated socket hq).trans (h.lists socket)
  · have hanswered := h.answered r hr
    rw [← htakenNumber] at hanswered
    exact hanswered
  · have hdistinct := h.distinct
    rw [← hnumber _ fun q hq => hq] at hdistinct
    exact hdistinct
  · obtain ⟨r, hr, howner⟩ := h.owner p hp
    exact ⟨r, hr, (hheap p hp).trans howner⟩
  · exact (hheap p (pending_allocated socket hp)).socketId_eq.trans (h.hook socket p hp)
  · have hsettled := h.underway c hc
    rw [State.number, ← (hheap c.1 (taken_allocated hc)).number_eq] at hsettled
    exact hsettled

/-- The state after the completion of a pending token has left the list. -/
def State.unlink (σ : State) (t : Nat) (e : Int) : State :=
  let hook := (σ.heap t).socketId
  { σ with
    pendingRequests := Function.update σ.pendingRequests hook ((σ.pendingRequests hook).erase t)
    taken := (t, e) :: σ.taken
    settled := σ.number t :: σ.settled }

@[simp] theorem unlink_number (σ : State) (t : Nat) (e : Int) :
    (σ.unlink t e).number = σ.number := rfl

@[simp] theorem unlink_taken (σ : State) (t : Nat) (e : Int) :
    (σ.unlink t e).taken = (t, e) :: σ.taken := rfl

@[simp] theorem unlink_settled (σ : State) (t : Nat) (e : Int) :
    (σ.unlink t e).settled = σ.number t :: σ.settled := rfl

theorem unlink_own (σ : State) (t : Nat) (e : Int) :
    (σ.unlink t e).pendingRequests (σ.heap t).socketId =
      (σ.pendingRequests (σ.heap t).socketId).erase t := by
  simp only [State.unlink, Function.update_self]

theorem unlink_other {σ : State} {t : Nat} (e : Int) {socket : SocketId}
    (hsocket : socket ≠ (σ.heap t).socketId) :
    (σ.unlink t e).pendingRequests socket = σ.pendingRequests socket := by
  simp only [State.unlink, Function.update_of_ne hsocket]

/-- `NULL` and a token that is on no list are refused. -/
theorem checkAndDequeue_refused {σ : State} {t : Nat} (isAck : Bool)
    (hrefused : t = 0 ∨ t ∉ σ.pendingRequests (σ.heap t).socketId) :
    checkAndDequeueRequestInfoIfAck σ t isAck = (false, σ) := by
  unfold checkAndDequeueRequestInfoIfAck
  by_cases hnull : t = 0
  · rw [if_pos hnull]
  · rw [if_neg hnull, if_neg (hrefused.resolve_left hnull)]

theorem onRequestComplete_cases (σ : State) (t : Nat) (e : Int) (claimed : Bool) :
    onRequestComplete σ t e claimed = σ ∨
      t ∈ σ.pendingRequests (σ.heap t).socketId ∧
        onRequestComplete σ t e claimed = σ.unlink t e := by
  cases claimed with
  | true => exact .inl rfl
  | false =>
      by_cases hrefused : t = 0 ∨ t ∉ σ.pendingRequests (σ.heap t).socketId
      · left
        simp only [onRequestComplete, checkAndDequeue_refused false hrefused, Bool.false_eq_true,
          if_false]
      · rw [not_or, not_not] at hrefused
        obtain ⟨hnull, hpending⟩ := hrefused
        right
        refine ⟨hpending, ?_⟩
        simp only [onRequestComplete, checkAndDequeueRequestInfoIfAck, if_neg hnull, if_pos hpending,
          Bool.false_eq_true, if_false, if_true, State.unlink]

theorem unlink_perm {σ : State} {t : Nat} (e : Int)
    (hpending : t ∈ σ.pendingRequests (σ.heap t).socketId) :
    (σ.unlink t e).allocated.Perm σ.allocated := by
  have herase := List.perm_cons_erase hpending
  cases hsocket : (σ.heap t).socketId with
  | socket1 =>
      rw [hsocket] at herase
      simp only [State.allocated, State.unlink, hsocket, Function.update_self, List.map_cons, ne_eq,
        reduceCtorEq, not_false_eq_true, Function.update_of_ne]
      apply List.Perm.append_right
      refine List.perm_middle.trans ?_
      rw [← List.cons_append, ← List.cons_append]
      exact (herase.symm.append_right _).append_right _
  | socket2 =>
      rw [hsocket] at herase
      simp only [State.allocated, State.unlink, hsocket, Function.update_self, List.map_cons, ne_eq,
        reduceCtorEq, not_false_eq_true, Function.update_of_ne]
      apply List.Perm.append_right
      refine List.perm_middle.trans ?_
      rw [← List.cons_append]
      apply List.Perm.append_right
      exact List.perm_middle.symm.trans (herase.symm.append_left _)

/-- A pending request has no answer under way. -/
theorem number_not_settled {σ : State} (h : Inv σ) {socket : SocketId} {t : Nat}
    (hpending : t ∈ σ.pendingRequests socket) : σ.number t ∉ σ.settled := by
  have hmem : σ.number t ∈ (σ.pendingRequests socket).map σ.number := List.mem_map_of_mem hpending
  rw [h.lists socket] at hmem
  obtain ⟨r, hr, hnumber⟩ := List.mem_map.mp hmem
  rw [← hnumber]
  have hfiltered := (List.mem_filter.mp hr).2
  rw [decide_eq_true_eq] at hfiltered
  exact hfiltered.2

private theorem pending_nodup {σ : State} (h : Inv σ) (socket : SocketId) :
    ((σ.pendingRequests socket).map σ.number).Nodup := by
  rw [h.lists socket]
  exact h.unique.sublist (List.filter_sublist.map _)

/-- One list loses the request, and only it. -/
private theorem unlink_lists {σ : State} (h : Inv σ) {t : Nat} (e : Int)
    (hpending : t ∈ σ.pendingRequests (σ.heap t).socketId) (socket : SocketId) :
    ((σ.unlink t e).pendingRequests socket).map σ.number =
      (σ.added.filter fun r => r.socketId = socket ∧ r.number ∉ σ.number t :: σ.settled).map
        RequestInfo.number := by
  by_cases hsocket : socket = (σ.heap t).socketId
  · subst hsocket
    rw [unlink_own, map_erase_of_nodup (pending_nodup h _) hpending, h.lists,
      List.filter_map, List.filter_filter]
    congr 1
    apply List.filter_congr
    intro r _
    simp only [Function.comp_apply, List.mem_cons, not_or, Bool.decide_and, ← and_assoc, ne_eq]
    rw [← Bool.and_assoc, Bool.and_comm (decide ¬r.number = σ.number t)]
  · rw [unlink_other e hsocket, h.lists socket]
    congr 1
    apply List.filter_congr
    intro r hr
    obtain ⟨owner, howner, hsame⟩ := h.owner t (pending_allocated _ hpending)
    have hother : r.socketId = socket → r.number ≠ σ.number t := by
      intro hr' hnumber
      have heq : r = owner := added_eq h hr howner (hnumber.trans hsame.number_eq)
      exact hsocket (hr'.symm.trans (heq ▸ hsame.socketId_eq.symm))
    simp only [List.mem_cons, not_or, decide_eq_decide]
    constructor
    · exact fun hin => ⟨hin.1, hother hin.1, hin.2⟩
    · exact fun hin => ⟨hin.1, hin.2.2⟩

theorem Inv.unlink {σ : State} (h : Inv σ) {t : Nat} (e : Int)
    (hpending : t ∈ σ.pendingRequests (σ.heap t).socketId) : Inv (σ.unlink t e) := by
  have hperm := unlink_perm e hpending
  have hallocated : t ∈ σ.allocated := pending_allocated _ hpending
  have hfresh := number_not_settled h hpending
  refine ⟨⟨unlink_lists h e hpending, h.once, fun r hr => ?_⟩, h.numbered, h.unique,
    (hperm.map σ.number).nodup_iff.mpr h.distinct, fun p hp => h.owner p (hperm.mem_iff.mp hp),
    fun socket p hp => ?_, fun c hc => ?_, fun n hn => ?_, fun n hn => ?_⟩
  · have hanswered := h.answered r hr
    by_cases hnumber : r.number = σ.number t
    · have hnone : r.number ∉ σ.responses.map Response.number := fun hin =>
        hfresh (hnumber ▸ h.responses_settled _ hin)
      exact iff_of_false hnone fun hin => hin.2.2 (hnumber ▸ List.mem_cons_self)
    · refine hanswered.trans ?_
      simp only [unlink_number, unlink_taken, unlink_settled, List.mem_cons, List.map_cons, hnumber,
        false_or]
  · have hin : p ∈ σ.pendingRequests socket := by
      by_cases hsocket : socket = (σ.heap t).socketId
      · subst hsocket
        rw [unlink_own] at hp
        exact List.mem_of_mem_erase hp
      · rwa [unlink_other e hsocket] at hp
    exact h.hook socket p hin
  · rcases List.mem_cons.mp hc with rfl | hc
    · exact List.mem_cons_self
    · exact List.mem_cons_of_mem _ (h.underway c hc)
  · rcases List.mem_cons.mp hn with rfl | hn
    · obtain ⟨r, hr, hsame⟩ := h.owner t hallocated
      have hlt := h.numbered r hr
      rw [← hsame.number_eq] at hlt
      exact hlt
    · exact h.settled_lt n hn
  · exact List.mem_cons_of_mem _ (h.responses_settled n hn)

/-- The state once a completion has given its answer, or had none to give. -/
def State.settle (σ : State) (t : Nat) (e : Int) (responses : List Response) : State :=
  { σ with taken := σ.taken.erase (t, e), responded := t :: σ.responded, responses }

theorem respond_cases (version : Int) (σ : State) (t : Nat) (e : Int) (emulated : Bool) :
    (σ.heap t).answers = false ∧ respond version σ t e emulated = σ.settle t e σ.responses ∨
      (σ.heap t).answers = true ∧ respond version σ t e emulated =
        σ.settle t e ((σ.heap t).response version e emulated :: σ.responses) := by
  unfold RequestInfo.answers
  cases hlocal : (σ.heap t).isLocal with
  | true =>
      left
      simp [Pending.respond, hlocal, State.settle]
  | false =>
      cases hcancelled : (σ.heap t).cancelled with
      | true =>
          left
          simp [Pending.respond, hlocal, hcancelled, State.settle]
      | false =>
          cases hfunction : (σ.heap t).pCI.responseFunction with
          | true =>
              right
              simp [Pending.respond, hlocal, hcancelled, hfunction, State.settle]
          | false =>
              left
              simp [Pending.respond, hlocal, hcancelled, hfunction, State.settle]

theorem settle_perm {σ : State} {t : Nat} {e : Int} (responses : List Response)
    (htaken : (t, e) ∈ σ.taken) : (σ.settle t e responses).allocated.Perm σ.allocated := by
  have herase := (List.perm_cons_erase htaken).map Prod.fst
  simp only [State.allocated, State.settle]
  refine List.perm_middle.trans ?_
  rw [← List.cons_append]
  apply List.Perm.append_right
  exact List.perm_middle.symm.trans (herase.symm.append_left _)

/-- Of the answers under way, the one that was given is no longer. -/
private theorem mem_taken_erase {σ : State} (h : Inv σ) {t : Nat} {e : Int}
    (htaken : (t, e) ∈ σ.taken) (n : Nat) :
    (n ∈ (σ.taken.erase (t, e)).map fun c => σ.number c.1) ↔
      n ≠ σ.number t ∧ n ∈ σ.taken.map fun c => σ.number c.1 := by
  have hnodup : (σ.taken.map fun c => σ.number c.1).Nodup := by
    have hsub : (σ.taken.map Prod.fst).Sublist σ.allocated := by
      unfold State.allocated
      exact (List.sublist_append_right _ _).trans (List.sublist_append_left _ _)
    have hdistinct := h.distinct.sublist (hsub.map σ.number)
    rwa [List.map_map] at hdistinct
  exact mem_map_erase_of_nodup hnodup htaken n

/-- The parts of the invariant that an answer leaves as they are. -/
private theorem Inv.settle {σ : State} (h : Inv σ) {t : Nat} {e : Int} {responses : List Response}
    (htaken : (t, e) ∈ σ.taken) (honce : (responses.map Response.number).Nodup)
    (hanswered : ∀ r ∈ σ.added, r.number ∈ responses.map Response.number ↔
      r.number ∈ σ.settled ∧ r.answers ∧
        (r.number = σ.number t ∨ r.number ∉ σ.taken.map fun c => σ.number c.1))
    (hsettled : ∀ n ∈ responses.map Response.number, n ∈ σ.settled) :
    Inv (σ.settle t e responses) := by
  have hperm := settle_perm responses htaken
  refine ⟨⟨h.lists, honce, fun r hr => (hanswered r hr).trans ?_⟩, h.numbered, h.unique,
    (hperm.map σ.number).nodup_iff.mpr h.distinct, fun p hp => h.owner p (hperm.mem_iff.mp hp),
    h.hook, fun c hc => h.underway c (List.mem_of_mem_erase hc), h.settled_lt, hsettled⟩
  have hleft := mem_taken_erase h htaken r.number
  simp only [State.settle]
  refine and_congr_right fun _ => and_congr_right fun _ => ?_
  refine Iff.trans ?_ (not_congr hleft).symm
  rw [not_and_or, not_not]

theorem Inv.respond {σ : State} (h : Inv σ) {t : Nat} {e : Int} (version : Int) (emulated : Bool)
    (htaken : (t, e) ∈ σ.taken) : Inv (respond version σ t e emulated) := by
  have hin : σ.number t ∈ σ.taken.map fun c => σ.number c.1 :=
    List.mem_map.mpr ⟨(t, e), htaken, rfl⟩
  have hsettled : σ.number t ∈ σ.settled := h.underway (t, e) htaken
  obtain ⟨owner, howner, hsame⟩ :=
    h.owner t (taken_allocated htaken)
  have hanswers {r : RequestInfo} (hr : r ∈ σ.added) (hnumber : r.number = σ.number t) :
      r.answers = (σ.heap t).answers := by
    rw [added_eq h hr howner (hnumber.trans hsame.number_eq), hsame.answers_eq]
  have hnone : σ.number t ∉ σ.responses.map Response.number := by
    intro hmem
    have hlaw := h.answered owner howner
    rw [← hsame.number_eq] at hlaw
    exact (hlaw.mp hmem).2.2 hin
  rcases respond_cases version σ t e emulated with ⟨hlocal, heq⟩ | ⟨hone, heq⟩
  · rw [heq]
    refine h.settle htaken h.once (fun r hr => ?_) h.responses_settled
    by_cases hnumber : r.number = σ.number t
    · refine iff_of_false (hnumber ▸ hnone) fun hlaw => ?_
      rw [hanswers hr hnumber, hlocal] at hlaw
      exact Bool.false_ne_true hlaw.2.1
    · rw [h.answered r hr, or_iff_right hnumber]
  · have hresponse : ((σ.heap t).response version e emulated).number = σ.number t := rfl
    rw [heq]
    refine h.settle htaken ?_ (fun r hr => ?_) fun n hn => ?_
    · rw [List.map_cons, hresponse]
      exact List.nodup_cons.mpr ⟨hnone, h.once⟩
    · rw [List.map_cons, List.mem_cons, hresponse, h.answered r hr]
      by_cases hnumber : r.number = σ.number t
      · refine iff_of_true (.inl hnumber) ⟨hnumber ▸ hsettled, ?_, .inl hnumber⟩
        rw [hanswers hr hnumber, hone]
      · rw [or_iff_right hnumber, or_iff_right hnumber]
    · rw [List.map_cons, hresponse] at hn
      rcases List.mem_cons.mp hn with rfl | hn
      · exact hsettled
      · exact h.responses_settled n hn

theorem Inv.free {σ : State} (h : Inv σ) (t : Nat) :
    Inv { σ with responded := σ.responded.erase t } := by
  have hsub : ({ σ with responded := σ.responded.erase t } : State).allocated.Sublist
      σ.allocated := by
    unfold State.allocated
    exact List.erase_sublist.append_left _
  exact ⟨⟨h.lists, h.once, h.answered⟩, h.numbered, h.unique, h.distinct.sublist (hsub.map _),
    fun p hp => h.owner p (hsub.mem hp), h.hook, h.underway, h.settled_lt, h.responses_settled⟩

section Add

variable (commands : Int → CommandInfo) (start : Nat)

/-- The state with one more request, at an address of its own. -/
def State.push (σ : State) (p : Nat) (pRI : RequestInfo) : State :=
  { σ with
    heap := Function.update σ.heap p pRI
    pendingRequests :=
      Function.update σ.pendingRequests pRI.socketId (p :: σ.pendingRequests pRI.socketId)
    added := pRI :: σ.added }

theorem push_own (σ : State) (p : Nat) (pRI : RequestInfo) :
    (σ.push p pRI).pendingRequests pRI.socketId = p :: σ.pendingRequests pRI.socketId := by
  simp only [State.push, Function.update_self]

theorem push_other (σ : State) (p : Nat) {pRI : RequestInfo} {socket : SocketId}
    (hsocket : socket ≠ pRI.socketId) :
    (σ.push p pRI).pendingRequests socket = σ.pendingRequests socket := by
  simp only [State.push, Function.update_of_ne hsocket]

theorem push_perm (σ : State) (p : Nat) (pRI : RequestInfo) :
    (σ.push p pRI).allocated.Perm (p :: σ.allocated) := by
  cases hsocket : pRI.socketId with
  | socket1 =>
      simp only [State.allocated, State.push, hsocket, Function.update_self, ne_eq, reduceCtorEq,
        not_false_eq_true, Function.update_of_ne, List.cons_append]
      rfl
  | socket2 =>
      simp only [State.allocated, State.push, hsocket, Function.update_self, ne_eq, reduceCtorEq,
        not_false_eq_true, Function.update_of_ne, ← List.cons_append]
      exact (List.perm_middle.append_right _).append_right _

theorem push_heap_self (σ : State) (p : Nat) (pRI : RequestInfo) :
    (σ.push p pRI).heap p = pRI := Function.update_self ..

theorem push_heap_of_allocated {σ : State} {p q : Nat} (pRI : RequestInfo) (hfresh : p ∉ σ.allocated)
    (hq : q ∈ σ.allocated) : (σ.push p pRI).heap q = σ.heap q := by
  have hne : q ≠ p := fun heq => hfresh (heq ▸ hq)
  simp only [State.push, Function.update_of_ne hne]

theorem push_number_of_allocated {σ : State} {p q : Nat} (pRI : RequestInfo)
    (hfresh : p ∉ σ.allocated) (hq : q ∈ σ.allocated) :
    (σ.push p pRI).number q = σ.number q :=
  congrArg RequestInfo.number (push_heap_of_allocated pRI hfresh hq)

/-- The number of a new request has not been settled. -/
theorem Inv.unsettled {σ : State} (h : Inv σ) {pRI : RequestInfo}
    (hnumber : pRI.number = σ.added.length) : pRI.number ∉ σ.settled := by
  intro hin
  have hlt := h.settled_lt _ hin
  omega

theorem Inv.number_lt {σ : State} (h : Inv σ) {q : Nat} (hq : q ∈ σ.allocated) :
    σ.number q < σ.added.length := by
  obtain ⟨r, hr, howner⟩ := h.owner q hq
  have hlt := h.numbered r hr
  rwa [← howner.number_eq] at hlt

private theorem push_lists {σ : State} (h : Inv σ) {p : Nat} {pRI : RequestInfo}
    (hnumber : pRI.number = σ.added.length) (hfresh : p ∉ σ.allocated) (socket : SocketId) :
    ((σ.push p pRI).pendingRequests socket).map (σ.push p pRI).number =
      ((pRI :: σ.added).filter fun r => r.socketId = socket ∧ r.number ∉ σ.settled).map
        RequestInfo.number := by
  have hold : (σ.pendingRequests socket).map (σ.push p pRI).number =
      (σ.pendingRequests socket).map σ.number := by
    apply List.map_congr_left
    intro q hq
    exact push_number_of_allocated pRI hfresh (pending_allocated socket hq)
  by_cases hsocket : socket = pRI.socketId
  · subst hsocket
    have hp : (σ.push p pRI).number p = pRI.number := by rw [State.number, push_heap_self]
    rw [push_own, List.map_cons, hold, h.lists, hp, List.filter_cons_of_pos, List.map_cons]
    rw [decide_eq_true_eq]
    exact ⟨rfl, h.unsettled hnumber⟩
  · rw [push_other σ p hsocket, hold, h.lists, List.filter_cons_of_neg]
    rw [decide_eq_true_eq]
    exact fun hin => hsocket hin.1.symm

private theorem push_answered {σ : State} (h : Inv σ) {p : Nat} {pRI : RequestInfo}
    (hnumber : pRI.number = σ.added.length) (hfresh : p ∉ σ.allocated) {r : RequestInfo}
    (hr : r ∈ pRI :: σ.added) : r.number ∈ σ.responses.map Response.number ↔
      r.number ∈ σ.settled ∧ r.answers ∧
        r.number ∉ σ.taken.map fun c => (σ.push p pRI).number c.1 := by
  have hunder : (σ.taken.map fun c => (σ.push p pRI).number c.1) =
      σ.taken.map fun c => σ.number c.1 := by
    apply List.map_congr_left
    intro c hc
    exact push_number_of_allocated pRI hfresh (taken_allocated hc)
  rw [hunder]
  rcases List.mem_cons.mp hr with rfl | hr
  · -- a new request is neither settled nor answered
    have hunsettled := h.unsettled hnumber
    exact iff_of_false (fun hin => hunsettled (h.responses_settled _ hin)) fun hin =>
      hunsettled hin.1
  · exact h.answered r hr

theorem Inv.push {σ : State} (h : Inv σ) {p : Nat} {pRI : RequestInfo}
    (hnumber : pRI.number = σ.added.length) (hfresh : p ∉ σ.allocated) : Inv (σ.push p pRI) := by
  have hperm := push_perm σ p pRI
  refine ⟨⟨push_lists h hnumber hfresh, h.once, fun r hr => push_answered h hnumber hfresh hr⟩,
    fun r hr => ?_, ?_, ?_, fun q hq => ?_, fun socket q hq => ?_, fun c hc => ?_, fun n hn => ?_,
    h.responses_settled⟩
  · simp only [State.push, List.length_cons] at hr ⊢
    rcases List.mem_cons.mp hr with rfl | hr
    · omega
    · exact Nat.lt_succ_of_lt (h.numbered r hr)
  · simp only [State.push, List.map_cons, List.nodup_cons]
    refine ⟨fun hin => ?_, h.unique⟩
    obtain ⟨r, hr, heq⟩ := List.mem_map.mp hin
    have hlt := h.numbered r hr
    omega
  · have hnumbers : σ.allocated.map (σ.push p pRI).number = σ.allocated.map σ.number := by
      apply List.map_congr_left
      intro q hq
      exact push_number_of_allocated pRI hfresh hq
    rw [(hperm.map _).nodup_iff, List.map_cons, hnumbers, List.nodup_cons]
    refine ⟨fun hin => ?_, h.distinct⟩
    obtain ⟨q, hq, heq⟩ := List.mem_map.mp hin
    have hlt := h.number_lt hq
    rw [heq, State.number, push_heap_self] at hlt
    omega
  · rcases List.mem_cons.mp (hperm.mem_iff.mp hq) with rfl | hq
    · refine ⟨pRI, List.mem_cons_self, ?_⟩
      rw [push_heap_self]
      exact .refl
    · obtain ⟨r, hr, howner⟩ := h.owner q hq
      refine ⟨r, List.mem_cons_of_mem _ hr, ?_⟩
      rw [push_heap_of_allocated pRI hfresh hq]
      exact howner
  · by_cases hsocket : socket = pRI.socketId
    · subst hsocket
      rw [push_own] at hq
      rcases List.mem_cons.mp hq with rfl | hq
      · rw [push_heap_self]
      · rw [push_heap_of_allocated pRI hfresh (pending_allocated _ hq), h.hook _ q hq]
    · rw [push_other σ p hsocket] at hq
      rw [push_heap_of_allocated pRI hfresh (pending_allocated _ hq), h.hook _ q hq]
  · have hunder := h.underway c hc
    rw [← push_number_of_allocated pRI hfresh (taken_allocated hc)] at hunder
    exact hunder
  · exact Nat.lt_succ_of_lt (h.settled_lt n hn)

theorem addRequestToList_eq (σ : State) (serial : Int) (slotId : SocketId) (request : Int) {p : Nat}
    (hp : p ≠ 0) : addRequestToList commands start σ serial slotId request p =
      σ.push p (newRequest commands start σ.added.length serial slotId request) := by
  rw [addRequestToList, if_neg hp]
  rfl

end Add

end Steps

section Runs

variable (commands : Int → CommandInfo) (start : Nat) (version : Int)

theorem Inv.onRequestAck {σ : State} (h : Inv σ) (t : Nat) : Inv (onRequestAck σ t) := by
  by_cases hrefused : t = 0 ∨ t ∉ σ.pendingRequests (σ.heap t).socketId
  · simp only [Pending.onRequestAck, checkAndDequeue_refused true hrefused, Bool.false_eq_true,
      if_false]
    exact h
  · rw [not_or, not_not] at hrefused
    obtain ⟨hnull, hpending⟩ := hrefused
    simp only [Pending.onRequestAck, checkAndDequeueRequestInfoIfAck, if_neg hnull, if_pos hpending,
      if_true]
    refine h.of_heap fun q _ => ?_
    by_cases hq : q = t
    · rw [hq, Function.update_self]
      rfl
    · rw [Function.update_of_ne hq]
      exact .refl

theorem Inv.next {σ τ : State} {op : Op} (h : Inv σ)
    (hstep : CompletionStep commands start version σ op τ) : Inv τ := by
  obtain ⟨⟨henabled, rfl⟩, hcompletion⟩ := hstep
  cases op with
  | addRequestToList serial slotId request p =>
      by_cases hp : p = 0
      · simp only [Pending.next, addRequestToList, if_pos hp]
        exact h
      · simp only [Pending.next, addRequestToList_eq commands start σ serial slotId request hp]
        exact h.push rfl henabled
  | sendErrorResponse pRI err => exact absurd rfl (hcompletion pRI err)
  | onRequestAck t => exact h.onRequestAck t
  | acknowledgeRequest t => exact h.of_heap fun _ _ => .refl
  | onRequestComplete t e claimed =>
      simp only [Pending.next]
      rcases onRequestComplete_cases σ t e claimed with heq | ⟨hpending, heq⟩
      · rw [heq]
        exact h
      · rw [heq]
        exact h.unlink e hpending
  | respond t e emulated => exact h.respond version emulated henabled
  | free t => exact h.free t
  | scribble p contents =>
      refine h.of_heap fun q hq => ?_
      have hne : q ≠ p := fun heq => henabled (heq ▸ hq)
      rw [Function.update_of_ne hne]
      exact .refl

/-- The request that a step is about. -/
def Op.address : Op → Nat
  | .addRequestToList _ _ _ p => p
  | .sendErrorResponse pRI _ => pRI
  | .onRequestAck t => t
  | .acknowledgeRequest t => t
  | .onRequestComplete t _ _ => t
  | .respond t _ _ => t
  | .free t => t
  | .scribble p _ => p

/-- The slot that a step is about. -/
def Op.slot (σ : State) : Op → SocketId
  | .addRequestToList _ slotId _ _ => slotId
  | op => (σ.heap op.address).socketId

/-- Other slots are left alone, and on the step's own slot all other entries stay,
in their order. -/
def Frame (σ : State) (op : Op) (τ : State) : Prop :=
  ∀ socket, (socket ≠ op.slot σ → τ.pendingRequests socket = σ.pendingRequests socket) ∧
    (τ.pendingRequests socket).filter (· ≠ op.address) =
      (σ.pendingRequests socket).filter (· ≠ op.address)

private theorem frame_of_eq {σ τ : State} {op : Op} (h : τ.pendingRequests = σ.pendingRequests) :
    Frame σ op τ := fun socket => ⟨fun _ => congrFun h socket, by rw [h]⟩

theorem next_frame (σ : State) (op : Op) : Frame σ op (next commands start version σ op) := by
  cases op with
  | addRequestToList serial slotId request p =>
      by_cases hp : p = 0
      · refine frame_of_eq ?_
        simp only [Pending.next, addRequestToList, if_pos hp]
      · intro socket
        simp only [Pending.next, addRequestToList_eq commands start σ serial slotId request hp]
        by_cases hsocket : socket = slotId
        · subst hsocket
          refine ⟨fun hne => absurd rfl hne, ?_⟩
          have hpush := push_own σ p (newRequest commands start σ.added.length serial socket request)
          simp only [newRequest] at hpush ⊢
          rw [hpush, List.filter_cons_of_neg (by simp [Op.address])]
        · have hother : socket ≠
              (newRequest commands start σ.added.length serial slotId request).socketId := hsocket
          rw [push_other σ p hother]
          exact ⟨fun _ => rfl, rfl⟩
  | sendErrorResponse pRI err => exact frame_of_eq rfl
  | onRequestAck t =>
      refine frame_of_eq ?_
      simp only [Pending.next, onRequestAck, checkAndDequeueRequestInfoIfAck]
      split_ifs <;> rfl
  | acknowledgeRequest t => exact frame_of_eq rfl
  | onRequestComplete t e claimed =>
      simp only [Pending.next]
      rcases onRequestComplete_cases σ t e claimed with heq | ⟨hpending, heq⟩
      · rw [heq]
        exact frame_of_eq rfl
      · rw [heq]
        intro socket
        by_cases hsocket : socket = (σ.heap t).socketId
        · subst hsocket
          rw [unlink_own]
          exact ⟨fun hne => absurd rfl hne, erase_filter_ne _ t⟩
        · rw [unlink_other e hsocket]
          exact ⟨fun _ => rfl, rfl⟩
  | respond t e emulated =>
      refine frame_of_eq ?_
      simp only [Pending.next]
      rcases respond_cases version σ t e emulated with ⟨-, heq⟩ | ⟨-, heq⟩
      · rw [heq]
        rfl
      · rw [heq]
        rfl
  | free t => exact frame_of_eq rfl
  | scribble p contents => exact frame_of_eq rfl

/-- A completion that finds its token on no list has no effect. -/
theorem onRequestComplete_not_pending {σ : State} {t : Nat} (e : Int) (claimed : Bool)
    (h : ∀ socket, t ∉ σ.pendingRequests socket) : onRequestComplete σ t e claimed = σ := by
  rcases onRequestComplete_cases σ t e claimed with heq | ⟨hpending, -⟩
  · exact heq
  · exact absurd hpending (h _)

/-- An error response leaves a request on its list that is answered, or answers
one that was answered before. -/
theorem Inv.not_law_sendErrorResponse {σ : State} (h : Inv σ) {pRI : Nat} (err : Int)
    (hallocated : pRI ∈ σ.allocated) : ¬PendingLaw (sendErrorResponse σ pRI err) := by
  intro hlaw
  obtain ⟨r, hr, howner⟩ := h.owner pRI hallocated
  have hnumber : r.number = σ.number pRI := howner.number_eq.symm
  by_cases hsettled : r.number ∈ σ.settled
  · obtain ⟨-, hanswers, hunder⟩ := (hlaw.answered r hr).mp (hnumber ▸ List.mem_cons_self)
    have hanswered := (h.answered r hr).mpr ⟨hsettled, hanswers, hunder⟩
    rw [hnumber] at hanswered
    exact (List.nodup_cons.mp hlaw.once).1 hanswered
  · have hlisted : r.number ∈ (σ.pendingRequests r.socketId).map σ.number := by
      rw [h.lists r.socketId]
      refine List.mem_map_of_mem (List.mem_filter.mpr ⟨hr, ?_⟩)
      rw [decide_eq_true_eq]
      exact ⟨rfl, hsettled⟩
    have hlists : (σ.pendingRequests r.socketId).map σ.number =
        (σ.added.filter fun s => s.socketId = r.socketId ∧
          s.number ∉ σ.number pRI :: σ.settled).map RequestInfo.number := hlaw.lists r.socketId
    rw [hlists] at hlisted
    obtain ⟨s, hs, heq⟩ := List.mem_map.mp hlisted
    have hunsettled := of_decide_eq_true (List.mem_filter.mp hs).2
    rw [heq, hnumber] at hunsettled
    exact hunsettled.2 List.mem_cons_self

/-- In a run without error responses the lists hold exactly the requests that
wait for their answer, and the first error response ends that. -/
theorem pending_lists_law {σ : State}
    (h : Reachable Initial (CompletionStep commands start version) σ) :
    PendingLaw σ ∧
      (∀ t e claimed, (∀ socket, t ∉ σ.pendingRequests socket) →
        next commands start version σ (.onRequestComplete t e claimed) = σ) ∧
      (∀ op, Enabled σ op → Frame σ op (next commands start version σ op)) ∧
      ∀ op τ, Step commands start version σ op τ →
        (PendingLaw τ ↔ ∀ pRI err, op ≠ .sendErrorResponse pRI err) := by
  have hinv : Inv σ :=
    h.invariant (fun _ hs => Inv.initial hs) fun _ _ _ hs hstep =>
      hs.next commands start version hstep
  refine ⟨hinv.toPendingLaw, fun t e claimed => onRequestComplete_not_pending e claimed,
    fun op _ => next_frame commands start version σ op, fun op τ hstep => ⟨?_, ?_⟩⟩
  · rintro hlaw pRI err rfl
    obtain ⟨⟨hallocated, -⟩, rfl⟩ := hstep
    exact hinv.not_law_sendErrorResponse err hallocated hlaw
  · intro hcompletion
    exact (hinv.next commands start version ⟨hstep, hcompletion⟩).toPendingLaw

end Runs

section Traces

/-- What the index formula finds in the table of `ril_commands.h`. -/
def fileCommands (index : Int) : CommandInfo :=
  (entryAt rilCommands index).getD ⟨0, false, .proxy3⟩

def freshState : State := { heap := fun _ => newRequest fileCommands 0 0 0 .socket1 0 }

def run (ops : List Op) : State := ops.foldl (next fileCommands 0 15) freshState

/-- `getSignalStrength` of the first slot, which this hardware does not support. -/
def signalStrength : List Op :=
  [.addRequestToList 7 .socket1 19 1, .sendErrorResponse 1 6]

/-- `getSignalStrength` as other hardware has it. -/
def signalStrengthCompleted : List Op :=
  [.addRequestToList 7 .socket1 19 1, .onRequestComplete 1 0 false, .respond 1 0 false]

/-- A request that the vendor completes is answered and on no list. -/
theorem signal_strength_completed :
    (run signalStrengthCompleted).responses.map Response.token = [7] ∧
      (run signalStrengthCompleted).pendingRequests .socket1 = [] ∧
      PendingLaw (run signalStrengthCompleted) := by
  refine ⟨by decide +kernel, by decide +kernel, ?_⟩
  refine (pending_lists_law fileCommands 0 15 ?_).1
  have hinit : Reachable Initial (CompletionStep fileCommands 0 15) freshState := .init ⟨_, rfl⟩
  have hadded := hinit.next (.addRequestToList 7 .socket1 19 1) ⟨⟨nofun, rfl⟩, nofun⟩
  have htaken := hadded.next (.onRequestComplete 1 0 false) ⟨⟨trivial, rfl⟩, nofun⟩
  exact htaken.next (.respond 1 0 false) ⟨⟨by decide +kernel, rfl⟩, nofun⟩

/-- The request that was refused is answered, and stays on its list. -/
theorem signal_strength_refused :
    Reachable Initial (Step fileCommands 0 15) (run signalStrength) ∧
      (run signalStrength).responses.map Response.token = [7] ∧
      (run signalStrength).pendingRequests .socket1 = [1] ∧ ¬PendingLaw (run signalStrength) := by
  have hinit : Reachable Initial (Step fileCommands 0 15) freshState := .init ⟨_, rfl⟩
  have hadded := hinit.next (.addRequestToList 7 .socket1 19 1) ⟨nofun, rfl⟩
  refine ⟨hadded.next (.sendErrorResponse 1 6) ⟨by decide +kernel, rfl⟩, by decide +kernel,
    by decide +kernel, fun hlaw => ?_⟩
  exact absurd (hlaw.lists .socket1) (by decide +kernel)

end Traces

end MeizuM5c.Ril.Pending
