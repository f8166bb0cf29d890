import MeizuM5c.Ril.RadioCallbackRuns

/-!
Answers and registrations: they exclude each other, drop only what has failed and come to
an end, as long as every answer takes the lock. One failing answer that does not may close
the lock for good.
-/

namespace MeizuM5c.Ril.Radio

open Lib

section Progress

/-- The steps that a thread has before it at most. -/
def Pc.rank : Pc → Nat
  | .idle => 0
  | .leave _ => 1
  | .rdlock _ => 2
  | .unlockReset _ => 3
  | .compare _ _ _ => 4
  | .wrlock _ _ _ => 5
  | .unlock _ _ _ => 6
  | .failed _ _ => 7
  | .call _ => 8
  | .look _ => 9
  | .enter _ => 10
  | .unlockSet _ => 1
  | .set _ _ _ => 2
  | .wrlockSet _ _ _ => 3

/-- The steps that all threads have before them at most. -/
def work (s : State) : Nat := ∑ t ∈ s.busy, (s.pc t).rank

variable {s s' : State} {t : Nat} {ok : Bool}

theorem advance_rank (h : advance s t ok = some s') :
    s'.ended ≠ none ∨ (s'.pc t).rank < (s.pc t).rank := by
  unfold advance at h
  cases hpc : s.pc t with
  | idle => simp [hpc] at h
  | enter a =>
      simp only [hpc, lockOf_eq, Option.bind_eq_bind, Option.bind_eq_some_iff] at h
      obtain ⟨l, hl, h⟩ := h
      obtain rfl := Option.some.inj h
      simp [Pc.rank]
  | look a =>
      simp only [hpc] at h
      cases hcallback : (s.services a.slotId a.kind).callbacks.get a.callback with
      | some f =>
          simp only [hcallback, Option.some.injEq] at h
          subst h
          simp [Pc.rank]
      | none =>
          simp only [hcallback, Option.some.injEq] at h
          subst h
          simp [Pc.rank]
  | call a =>
      simp only [hpc] at h
      cases hcallback : (s.services a.slotId a.kind).callbacks.get a.callback with
      | some f =>
          simp only [hcallback] at h
          cases ok with
          | true =>
              obtain rfl := Option.some.inj h
              simp [Pc.rank]
          | false =>
              obtain rfl := Option.some.inj h
              simp [Pc.rank]
      | none =>
          simp only [hcallback, Option.some.injEq] at h
          subst h
          simp
  | failed a on =>
      obtain rfl : _ = s' := by simpa [hpc] using h
      simp [Pc.rank]
  | unlock a on counter =>
      obtain rfl : _ = s' := by simpa [hpc] using h
      simp [Pc.rank]
  | wrlock a on counter =>
      simp only [hpc, lockOf_eq, Option.bind_eq_bind, Option.bind_eq_some_iff] at h
      obtain ⟨l, hl, h⟩ := h
      obtain rfl := Option.some.inj h
      simp [Pc.rank]
  | compare a on counter =>
      obtain rfl : _ = s' := by simpa [hpc] using h
      simp [Pc.rank]
  | unlockReset a =>
      obtain rfl : _ = s' := by simpa [hpc] using h
      simp [Pc.rank]
  | rdlock a =>
      simp only [hpc, lockOf_eq, Option.bind_eq_bind, Option.bind_eq_some_iff] at h
      obtain ⟨l, hl, h⟩ := h
      obtain rfl := Option.some.inj h
      simp [Pc.rank]
  | leave a =>
      obtain rfl : _ = s' := by simpa [hpc] using h
      simp [Pc.rank, State.finish]
  | wrlockSet slotId kind callbacks =>
      simp only [hpc, lockOf_eq, Option.bind_eq_bind, Option.bind_eq_some_iff] at h
      obtain ⟨l, hl, h⟩ := h
      obtain rfl := Option.some.inj h
      simp [Pc.rank]
  | set slotId kind callbacks =>
      obtain rfl : _ = s' := by simpa [hpc] using h
      simp [Pc.rank]
  | unlockSet slotId =>
      obtain rfl : _ = s' := by simpa [hpc] using h
      simp [Pc.rank, State.finish]

/-- A thread waits for the lock only. -/
theorem waits_for_lock (h : advance s t ok = none) :
    s.pc t = .idle ∨ ((s.pc t).reads = false ∧ (s.pc t).writes = false ∧
      (s.lock.rdlock = none ∨ s.lock.wrlock t = none)) := by
  unfold advance at h
  cases hpc : s.pc t with
  | idle => exact .inl rfl
  | enter a =>
      simp only [hpc, lockOf_eq, Option.bind_eq_bind, Option.bind_eq_none_iff] at h
      refine .inr ⟨rfl, rfl, .inl ?_⟩
      rw [Option.eq_none_iff_forall_ne_some]
      intro l hl
      cases h l hl
  | rdlock a =>
      simp only [hpc, lockOf_eq, Option.bind_eq_bind, Option.bind_eq_none_iff] at h
      refine .inr ⟨rfl, rfl, .inl ?_⟩
      rw [Option.eq_none_iff_forall_ne_some]
      intro l hl
      cases h l hl
  | wrlock a on counter =>
      simp only [hpc, lockOf_eq, Option.bind_eq_bind, Option.bind_eq_none_iff] at h
      refine .inr ⟨rfl, rfl, .inr ?_⟩
      rw [Option.eq_none_iff_forall_ne_some]
      intro l hl
      cases h l hl
  | wrlockSet slotId kind callbacks =>
      simp only [hpc, lockOf_eq, Option.bind_eq_bind, Option.bind_eq_none_iff] at h
      refine .inr ⟨rfl, rfl, .inr ?_⟩
      rw [Option.eq_none_iff_forall_ne_some]
      intro l hl
      cases h l hl
  | look a =>
      simp only [hpc] at h
      split at h <;> cases h
  | call a =>
      simp only [hpc] at h
      split at h
      · split_ifs at h
      · cases h
  | failed a on => simp [hpc] at h
  | unlock a on counter => simp [hpc] at h
  | compare a on counter => simp [hpc] at h
  | unlockReset a => simp [hpc] at h
  | leave a => simp [hpc] at h
  | set slotId kind callbacks => simp [hpc] at h
  | unlockSet slotId => simp [hpc] at h

theorem Sound.work_lt (h : Sound s) (hadvance : advance s t ok = some s') : work s' < work s := by
  have heffect := advance_effect (h.counted.entered t) hadvance
  have hsound := h.run hadvance
  have hlower : (s'.pc t).rank < (s.pc t).rank :=
    (advance_rank hadvance).resolve_left (fun hended => hended hsound.ended)
  have hbefore : s.pc t ≠ .idle := by
    intro hidle
    simp [hidle, Pc.rank] at hlower
  have hbusy : t ∈ s.busy := (h.counted.busy t).mpr hbefore
  have hsubset : s'.busy ⊆ s.busy := by
    intro u hu
    rcases eq_or_ne u t with rfl | hne
    · exact hbusy
    · rw [hsound.counted.busy, heffect.others u hne] at hu
      exact (h.counted.busy u).mpr hu
  have hidle : ∀ u ∈ s.busy, u ∉ s'.busy → (s'.pc u).rank = 0 := by
    intro u _ hu
    rw [hsound.counted.busy, not_not] at hu
    rw [hu]
    rfl
  calc work s' = ∑ u ∈ s.busy, (s'.pc u).rank := Finset.sum_subset hsubset hidle
    _ < ∑ u ∈ s.busy, (s.pc u).rank := by
        refine Finset.sum_lt_sum ?_ ⟨t, hbusy, hlower⟩
        intro u _
        rcases eq_or_ne u t with rfl | hne
        · exact hlower.le
        · rw [heffect.others u hne]
    _ = work s := rfl

/-- As long as a thread has something to do, one can do it. -/
theorem Sound.advances (h : Sound s) (hbusy : s.pc t ≠ .idle) :
    ∃ u, s.pc u ≠ .idle ∧ ∀ ok, ∃ s', advance s u ok = some s' := by
  have hgoes : ∀ u, s.pc u ≠ .idle →
      ((s.pc u).reads = true ∨ (s.pc u).writes = true ∨
        (s.lock.writer = none ∧ s.lock.readers = 0)) →
      ∀ ok, ∃ s', advance s u ok = some s' := by
    intro u hu hlock ok
    cases hadvance : advance s u ok with
    | some s' => exact ⟨s', rfl⟩
    | none =>
        rcases waits_for_lock hadvance with hidle | ⟨hreads, hwrites, hwaits⟩
        · exact absurd hidle hu
        · simp only [hreads, hwrites, Bool.false_eq_true, false_or] at hlock
          simp [RwLock.rdlock, RwLock.wrlock, hlock] at hwaits
  cases hwriter : s.lock.writer with
  | some u =>
      have hwrites := (h.counted.writer u).mp hwriter
      have hu : s.pc u ≠ .idle := by
        intro hidle
        rw [hidle] at hwrites
        cases hwrites
      exact ⟨u, hu, hgoes u hu (.inr (.inl hwrites))⟩
  | none =>
      rcases Nat.eq_zero_or_pos s.lock.readers with hreaders | hreaders
      · exact ⟨t, hbusy, hgoes t hbusy (.inr (.inr ⟨hwriter, hreaders⟩))⟩
      · have hexact := h.exact
        unfold RwLock.surplus at hexact
        obtain ⟨u, hin⟩ : s.reading.Nonempty := Finset.card_pos.mp (by omega)
        have hreads := (h.counted.reading u).mp hin
        have hu : s.pc u ≠ .idle := by
          intro hidle
          rw [hidle] at hreads
          cases hreads
        exact ⟨u, hu, hgoes u hu (.inl hreads)⟩

end Progress

/-- Several actions, one after the other. -/
def performAll : List Action → State → Option State
  | [], s => some s
  | a :: actions, s =>
      match s.ended with
      | none => (perform s a).bind (performAll actions)
      | some _ => none

/-- No answer that has not taken the lock gives it back. -/
def QuietStep (s : State) (a : Action) (s' : State) : Prop :=
  Step s a s' ∧ ∀ t ok, a = .run t ok →
    ∀ b on counter, s.pc t = .unlock b on counter → b.locked = true

section Blocked

variable {s s' : State} {t : Nat} {a : Answer}

theorem performAll_cons {b : Action} (hended : s.ended = none) (h : perform s b = some s')
    (actions : List Action) : performAll (b :: actions) s = performAll actions s' := by
  simp only [performAll, hended, h, Option.bind_some]

theorem counted_performAll {actions : List Action} (h : Counted s)
    (hall : performAll actions s = some s') : Counted s' := by
  induction actions generalizing s with
  | nil =>
      obtain rfl := Option.some.inj hall
      exact h
  | cons b actions ih =>
      unfold performAll at hall
      cases hended : s.ended with
      | some e => simp [hended] at hall
      | none =>
          simp only [hended, Option.bind_eq_some_iff] at hall
          obtain ⟨s₁, hperform, hall⟩ := hall
          exact ih (h.step ⟨hended, hperform⟩) hall

/-- A lock with a hold too many keeps it, lets no thread write, and no service changes. -/
theorem quiet_blocked {b : Action} (h : Counted s) (hlost : 0 < s.lock.surplus s.reading)
    (hstep : QuietStep s b s') :
    0 < s'.lock.surplus s'.reading ∧ s'.services = s.services := by
  obtain ⟨⟨-, hperform⟩, hquiet⟩ := hstep
  obtain ⟨hlock, -, -, -, -, hservices⟩ := perform_effect h hperform
  have hwriter := RwLock.writer_of_surplus hlost
  have hnone := h.no_writer hwriter b.thread
  refine ⟨?_, hservices.resolve_right (by simp [hnone])⟩
  cases hlock with
  | same hsame hreading _ _ _ => rwa [hsame, hreading]
  | read hrdlock hreading hbefore _ _ _ =>
      have hout : b.thread ∉ s.reading := by simp [h.reading, hbefore]
      rwa [hreading, RwLock.surplus_rdlock hrdlock hout]
  | lost hrdlock hreading _ _ _ _ _ =>
      rw [hreading, RwLock.surplus_rdlock_lost hrdlock]
      omega
  | unread hunlocks hreading _ hbefore _ hreads =>
      have hin : b.thread ∈ s.reading := by
        rw [h.reading]
        rcases hreads with hreads | ⟨c, on, counter, hunlock, hunlocked⟩
        · exact hreads
        · cases b with
          | run u ok =>
              have hlocked := hquiet u ok rfl c on counter hunlock
              rw [hunlocked] at hlocked
              cases hlocked
          | answer u d =>
              have hpc : s.pc u = .unlock c on counter := hunlock
              simp [perform, hpc] at hperform
          | setResponseFunctions u slotId kind callbacks =>
              have hpc : s.pc u = .unlock c on counter := hunlock
              simp [perform, hpc] at hperform
      rcases hunlocks with ⟨hunlock, -⟩ | ⟨-, hsame, -⟩
      · rwa [hreading, RwLock.surplus_unlock (h.writer_ne hbefore) hunlock hin]
      · rw [hreading, hsame, RwLock.surplus_unlock_refused hin]
        omega
  | write hwrlock _ _ _ _ _ =>
      rw [RwLock.wrlock_of_surplus hlost] at hwrlock
      cases hwrlock
  | unwrite _ _ _ _ hbefore _ =>
      rw [hnone] at hbefore
      cases hbefore

theorem quiet_run_blocked (h : Counted s) (hlost : 0 < s.lock.surplus s.reading)
    (hrun : Reachable (· = s) QuietStep s') :
    s'.services = s.services ∧ ∀ u, (s'.pc u).writes = false := by
  have hkept : Counted s' ∧ 0 < s'.lock.surplus s'.reading ∧ s'.services = s.services := by
    refine Reachable.invariant
      (P := fun s' => Counted s' ∧ 0 < s'.lock.surplus s'.reading ∧ s'.services = s.services)
      ?_ ?_ hrun
    · rintro s₁ rfl
      exact ⟨h, hlost, rfl⟩
    · rintro s₁ b s₂ ⟨hcounted, hlost, hservices⟩ hstep
      obtain ⟨hlost', hservices'⟩ := quiet_blocked hcounted hlost hstep
      exact ⟨hcounted.step hstep.1, hlost', hservices'.trans hservices⟩
  obtain ⟨hcounted, hlost', hservices⟩ := hkept
  exact ⟨hservices, hcounted.no_writer (RwLock.writer_of_surplus hlost')⟩

/-- A call that fails, up to the moment when the lock is given back. -/
theorem failing_call (hended : s.ended = none) (hidle : s.pc t = .idle)
    (hunlocked : a.locked = false)
    (hcallback : ((s.services a.slotId a.kind).callbacks.get a.callback).isSome = true) :
    ∃ s' on, s'.pc t = .unlock a on (s.services a.slotId a.kind).counter ∧
      s'.rwlocks = s.rwlocks ∧ s'.reading = s.reading ∧ s'.services = s.services ∧
      s'.asserts = s.asserts ∧ s'.ended = none ∧
      ∀ actions, performAll (.answer t a :: List.replicate 3 (.run t false) ++ actions) s =
        performAll actions s' := by
  obtain ⟨f, hf⟩ := Option.isSome_iff_exists.mp hcallback
  let on := (s.services a.slotId a.kind).callbacks
  let s₁ := s.start t (.look a)
  let s₂ := s₁.move t (.call a)
  let s₃ := s₂.move t (.failed a on)
  let s₄ := s₃.move t (.unlock a on (s.services a.slotId a.kind).counter)
  have h₁ : perform s (.answer t a) = some s₁ := by simp [perform, hidle, hunlocked, s₁]
  have hlook : s₁.pc t = .look a := by simp [s₁, State.start]
  have h₂ : perform s₁ (.run t false) = some s₂ := by
    have hcallback₁ : (s₁.services a.slotId a.kind).callbacks.get a.callback = some f := hf
    simp [perform, advance, hlook, hcallback₁, s₂]
  have hcall : s₂.pc t = .call a := by simp [s₂]
  have h₃ : perform s₂ (.run t false) = some s₃ := by
    have hcallback₂ : (s₂.services a.slotId a.kind).callbacks.get a.callback = some f := hf
    simp only [perform, advance, hcall, hcallback₂]
    rfl
  have hfailed : s₃.pc t = .failed a on := by simp [s₃]
  have h₄ : perform s₃ (.run t false) = some s₄ := by
    simp only [perform, advance, hfailed]
    rfl
  refine ⟨s₄, on, by simp [s₄], rfl, rfl, rfl, rfl, hended, ?_⟩
  intro actions
  change performAll (_ :: _ :: _ :: _ :: actions) s = _
  rw [performAll_cons hended h₁, performAll_cons (s := s₁) hended h₂,
    performAll_cons (s := s₂) hended h₃, performAll_cons (s := s₃) hended h₄]

/-- Where the asserts are not compiled in, `checkReturnStatus` of a thread that has not taken
the lock finds it free, drops the callbacks and leaves the lock held. -/
theorem reset_without_lock {on : Callbacks} {counter : Nat} (hended : s.ended = none)
    (hpc : s.pc t = .unlock a on counter) (hunlocked : a.locked = false)
    (hfree : s.lock = .free) (hasserts : s.asserts = false)
    (hcounter : counter = (s.services a.slotId a.kind).counter) :
    ∃ s', performAll (List.replicate 6 (.run t false)) s = some s' ∧ s'.pc t = .idle ∧
      s'.reading = s.reading.erase t ∧ s'.lock.readers = 1 ∧
      (s'.services a.slotId a.kind).callbacks = {} := by
  let l : RwLock Nat := ⟨0, some t, .inr rfl⟩
  let s₁ := ({ s with reading := s.reading.erase t } : State).move t (.wrlock a on counter)
  let s₂ := (s₁.withLock a.slotId l).move t (.compare a on counter)
  let s₃ := (s₂.withService a.slotId a.kind
    ((s₂.services a.slotId a.kind).reset counter)).move t (.unlockReset a)
  let s₄ := (s₃.withLock a.slotId .free).move t (.rdlock a)
  let s₅ := (s₄.withLock a.slotId ⟨1, none, .inl rfl⟩).move t (.leave a)
  have h₁ : perform s (.run t false) = some s₁ := by
    simp [perform, advance, hpc, State.unlockRead, State.unlock, hfree, hasserts, RwLock.unlock,
      RwLock.free, s₁]
  have hwrlock : s₁.pc t = .wrlock a on counter := by simp [s₁]
  have hlock₁ : s₁.lock = .free := hfree
  have h₂ : perform s₁ (.run t false) = some s₂ := by
    simp [perform, advance, hwrlock, hlock₁, RwLock.wrlock, RwLock.free, s₂, l]
  have hcompare : s₂.pc t = .compare a on counter := by simp [s₂]
  have h₃ : perform s₂ (.run t false) = some s₃ := by
    simp only [perform, advance, hcompare]
    rfl
  have hunlock : s₃.pc t = .unlockReset a := by simp [s₃]
  have hlock₃ : s₃.lock = l := lock_withLock s₁ a.slotId l
  have h₄ : perform s₃ (.run t false) = some s₄ := by
    simp [perform, advance, hunlock, State.unlock, hlock₃, RwLock.unlock, s₄, l]
  have hrdlock : s₄.pc t = .rdlock a := by simp [s₄]
  have hlock₄ : s₄.lock = .free := lock_withLock s₃ a.slotId .free
  have h₅ : perform s₄ (.run t false) = some s₅ := by
    simp only [perform, advance, hrdlock, lockOf_eq, hlock₄, hunlocked]
    rfl
  have hleave : s₅.pc t = .leave a := by simp [s₅]
  have h₆ : perform s₅ (.run t false) = some (s₅.finish t) := by
    simp [perform, advance, hleave, hunlocked]
  refine ⟨s₅.finish t, ?_, by simp [State.finish], rfl, ?_, ?_⟩
  · change performAll [_, _, _, _, _, _] s = _
    rw [performAll_cons hended h₁, performAll_cons (s := s₁) hended h₂,
      performAll_cons (s := s₂) hended h₃, performAll_cons (s := s₃) hended h₄,
      performAll_cons (s := s₄) hended h₅, performAll_cons (s := s₅) hended h₆]
    rfl
  · exact congrArg RwLock.readers (lock_withLock s₄ a.slotId ⟨1, none, .inl rfl⟩)
  · have hservice : (s₅.finish t).services a.slotId a.kind =
        (s.services a.slotId a.kind).reset counter := by
      change Function.update s.services a.slotId (Function.update _ a.kind _) a.slotId a.kind = _
      rw [Function.update_self, Function.update_self]
      rfl
    rw [hservice, Service.reset, if_pos hcounter]

theorem assert_without_lock {on : Callbacks} {counter : Nat} (hended : s.ended = none)
    (hpc : s.pc t = .unlock a on counter) (hfree : s.lock = .free) (hasserts : s.asserts = true) :
    ∃ s', performAll [.run t false] s = some s' ∧ s'.ended = some .assertFailed := by
  have hunlock : s.unlock t a.slotId = { s with ended := some .assertFailed } := by
    simp [State.unlock, hfree, hasserts, RwLock.unlock, RwLock.free]
  refine ⟨(s.unlockRead t a.slotId).move t (.wrlock a on counter), ?_, ?_⟩
  · simp [performAll, hended, perform, advance, hpc]
  · rw [move_ended]
    change (s.unlock t a.slotId).ended = _
    rw [hunlock]

end Blocked

section Written

variable {s s' : State} {b : Action}

/-- The steps that change a service. -/
theorem services_of_step (h : Counted s) (hperform : perform s b = some s') (slotId : Slot)
    (kind : Kind) :
    s'.services slotId kind = s.services slotId kind ∨
    (∃ a on counter, s.pc b.thread = .compare a on counter ∧ a.slotId = slotId ∧ a.kind = kind ∧
      s'.services slotId kind = (s.services slotId kind).reset counter) ∨
    ∃ callbacks, s.pc b.thread = .set slotId kind callbacks ∧
      s'.services slotId kind = (s.services slotId kind).set callbacks := by
  rcases (perform_effect h hperform).services with hsame | hwrites
  · exact .inl (by rw [hsame])
  · cases b with
    | answer t a =>
        unfold perform at hperform
        change (s.pc t).writes = true at hwrites
        cases hpc : s.pc t with
        | idle => simp [hpc, Pc.writes] at hwrites
        | _ => simp [hpc] at hperform
    | setResponseFunctions t slot k callbacks =>
        unfold perform at hperform
        change (s.pc t).writes = true at hwrites
        cases hpc : s.pc t with
        | idle => simp [hpc, Pc.writes] at hwrites
        | _ => simp [hpc] at hperform
    | run t ok =>
        change (s.pc t).writes = true at hwrites
        change advance s t ok = some s' at hperform
        cases hpc : s.pc t with
        | compare a on counter =>
            obtain rfl : _ = s' := by simpa [advance, hpc] using hperform
            rcases em (slotId = a.slotId ∧ kind = a.kind) with ⟨rfl, rfl⟩ | hother
            · exact .inr (.inl ⟨a, on, counter, hpc, rfl, rfl, withService_self ..⟩)
            · exact .inl (withService_of_ne _ hother)
        | set slot k callbacks =>
            obtain rfl : _ = s' := by simpa [advance, hpc] using hperform
            rcases em (slotId = slot ∧ kind = k) with ⟨rfl, rfl⟩ | hother
            · exact .inr (.inr ⟨callbacks, hpc, withService_self ..⟩)
            · exact .inl (withService_of_ne _ hother)
        | unlockReset a =>
            obtain rfl : _ = s' := by simpa [advance, hpc] using hperform
            left
            rw [move_services, (unlock_rest s t a.slotId).2.2.1]
        | unlockSet slot =>
            obtain rfl : _ = s' := by simpa [advance, hpc] using hperform
            left
            change (s.unlock t slot).services slotId kind = _
            rw [(unlock_rest s t slot).2.2.1]
        | _ => simp [hpc, Pc.writes] at hwrites

end Written

section Sample

def firstSlot : Slot := ⟨0, by decide⟩

/-- The framework registers, and an answer through its callbacks fails. -/
def radioActions : List Action :=
  .setResponseFunctions 0 firstSlot .radio ⟨some 5, some 6⟩ :: List.replicate 3 (.run 0 true) ++
    .answer 1 ⟨firstSlot, .radio, .response, true⟩ :: List.replicate 7 (.run 1 false)

def radioRun : List Action → State → State
  | [], s => s
  | a :: actions, s => radioRun actions ((perform s a).getD s)

/-- The state after some of the actions. -/
def radioSample (k : Nat) : State := radioRun (radioActions.take k) { asserts := false }

theorem radioSample_step {k : Nat} {a : Action}
    (h : Reachable Initial LockedStep (radioSample k))
    (hperform : perform (radioSample k) a = some (radioSample (k + 1)))
    (hended : (radioSample k).ended = none) (hlocked : ∀ t b, a = .answer t b → b.locked = true) :
    Reachable Initial LockedStep (radioSample (k + 1)) :=
  h.next a ⟨⟨hended, hperform⟩, hlocked⟩

theorem radioSample_four : Reachable Initial LockedStep (radioSample 4) := by
  have h₀ : Reachable Initial LockedStep (radioSample 0) := .init ⟨false, rfl⟩
  have h₁ : Reachable Initial LockedStep (radioSample 1) :=
    radioSample_step h₀ (a := .setResponseFunctions 0 firstSlot .radio ⟨some 5, some 6⟩) rfl rfl
      (by simp)
  have h₂ : Reachable Initial LockedStep (radioSample 2) :=
    radioSample_step h₁ (a := .run 0 true) rfl rfl (by simp)
  have h₃ : Reachable Initial LockedStep (radioSample 3) :=
    radioSample_step h₂ (a := .run 0 true) rfl rfl (by simp)
  exact radioSample_step h₃ (a := .run 0 true) rfl rfl (by simp)

theorem radioSample_eleven : Reachable Initial LockedStep (radioSample 11) := by
  have h₅ : Reachable Initial LockedStep (radioSample 5) :=
    radioSample_step radioSample_four (a := .answer 1 ⟨firstSlot, .radio, .response, true⟩) rfl rfl
      (by simp)
  have h₆ : Reachable Initial LockedStep (radioSample 6) :=
    radioSample_step h₅ (a := .run 1 false) rfl rfl (by simp)
  have h₇ : Reachable Initial LockedStep (radioSample 7) :=
    radioSample_step h₆ (a := .run 1 false) rfl rfl (by simp)
  have h₈ : Reachable Initial LockedStep (radioSample 8) :=
    radioSample_step h₇ (a := .run 1 false) rfl rfl (by simp)
  have h₉ : Reachable Initial LockedStep (radioSample 9) :=
    radioSample_step h₈ (a := .run 1 false) rfl rfl (by simp)
  have h₁₀ : Reachable Initial LockedStep (radioSample 10) :=
    radioSample_step h₉ (a := .run 1 false) rfl rfl (by simp)
  exact radioSample_step h₁₀ (a := .run 1 false) rfl rfl (by simp)

theorem radioSample_drops :
    LockedStep (radioSample 11) (.run 1 false) (radioSample 12) := ⟨⟨rfl, rfl⟩, by simp⟩

end Sample

section Results

variable {s s' : State} {t : Nat} {a : Answer} {b : Action}

/-- When every answer takes the lock, no assert about it fails, no call goes through a
callback that has been dropped, and a thread that sets or drops callbacks is the only one
that has the lock. -/
theorem answers_exclude_registrations (h : Reachable Initial LockedStep s) :
    s.ended = none ∧ s.lock.readers = s.reading.card ∧
      ∀ t, (s.pc t).writes = true → s.lock.writer = some t ∧
        ∀ u, u ≠ t → (s.pc u).reads = false ∧ (s.pc u).writes = false := by
  have hsound := sound h
  have hexact := hsound.exact
  unfold RwLock.surplus at hexact
  refine ⟨hsound.ended, by omega, ?_⟩
  intro t hwrites
  have hwriter := (hsound.counted.writer t).mpr hwrites
  refine ⟨hwriter, ?_⟩
  intro u hu
  refine ⟨hsound.no_readers hwrites u, ?_⟩
  cases hwrites' : (s.pc u).writes with
  | false => rfl
  | true =>
      have hwriter' := (hsound.counted.writer u).mpr hwrites'
      rw [hwriter] at hwriter'
      exact absurd (Option.some.inj hwriter').symm hu

theorem answers_exclude_registrations_eleven :
    (radioSample 11).ended = none ∧
      (radioSample 11).lock.readers = (radioSample 11).reading.card ∧
      ∀ t, ((radioSample 11).pc t).writes = true → (radioSample 11).lock.writer = some t ∧
        ∀ u, u ≠ t → ((radioSample 11).pc u).reads = false ∧ ((radioSample 11).pc u).writes = false :=
  answers_exclude_registrations radioSample_eleven

/-- When every answer takes the lock, a step drops only the callbacks through which the call
of the thread has failed, and each registration is dropped once at most. -/
theorem drops_what_failed (h : Reachable Initial LockedStep s) (hstep : LockedStep s b s')
    (slotId : Slot) (kind : Kind) :
    (s'.services slotId kind = s.services slotId kind ∨
      (∃ a on counter, s.pc b.thread = .compare a on counter ∧ a.slotId = slotId ∧
        a.kind = kind ∧ (on.get a.callback).isSome = true ∧
        (s.services slotId kind).callbacks = on ∧ (s'.services slotId kind).callbacks = {}) ∨
      ∃ callbacks, s.pc b.thread = .set slotId kind callbacks ∧
        (s'.services slotId kind).callbacks = callbacks) ∧
      (s'.services slotId kind).resets ≤ (s'.services slotId kind).registrations := by
  have hsound := sound h
  refine ⟨?_, ((hsound.step hstep).services slotId kind).resets⟩
  rcases services_of_step hsound.counted hstep.1.2 slotId kind with
    hsame | ⟨a, on, counter, hpc, rfl, rfl, hreset⟩ | ⟨callbacks, hpc, hset⟩
  · exact .inl hsame
  · have hcompare := hsound.pcs b.thread
    rw [hpc] at hcompare
    obtain ⟨-, hcalled, -, hsame⟩ := hcompare
    unfold Service.reset at hreset
    split_ifs at hreset with hcounter
    · right
      left
      exact ⟨a, on, counter, hpc, rfl, rfl, hcalled, hsame hcounter, by rw [hreset]⟩
    · exact .inl hreset
  · right
    right
    exact ⟨callbacks, hpc, by rw [hset]; rfl⟩

theorem drops_what_failed_eleven :
    ((radioSample 12).services firstSlot .radio = (radioSample 11).services firstSlot .radio ∨
      (∃ a on counter, (radioSample 11).pc 1 = .compare a on counter ∧ a.slotId = firstSlot ∧
        a.kind = .radio ∧ (on.get a.callback).isSome = true ∧
        ((radioSample 11).services firstSlot .radio).callbacks = on ∧
        ((radioSample 12).services firstSlot .radio).callbacks = {}) ∨
      ∃ callbacks, (radioSample 11).pc 1 = .set firstSlot .radio callbacks ∧
        ((radioSample 12).services firstSlot .radio).callbacks = callbacks) ∧
      ((radioSample 12).services firstSlot .radio).resets ≤
        ((radioSample 12).services firstSlot .radio).registrations :=
  drops_what_failed radioSample_eleven radioSample_drops firstSlot .radio

/-- When every answer takes the lock, there is always a thread that can go on, and each of
its steps leaves less to do: without new answers and registrations all come to an end. -/
theorem comes_to_rest (h : Reachable Initial LockedStep s) :
    (∀ t, s.pc t ≠ .idle → ∃ u, s.pc u ≠ .idle ∧ ∀ ok, ∃ s', LockedStep s (.run u ok) s') ∧
      ∀ u ok s', LockedStep s (.run u ok) s' → work s' < work s := by
  have hsound := sound h
  refine ⟨?_, ?_⟩
  · intro t hbusy
    obtain ⟨u, hu, hgoes⟩ := hsound.advances hbusy
    refine ⟨u, hu, ?_⟩
    intro ok
    obtain ⟨s', hadvance⟩ := hgoes ok
    exact ⟨s', ⟨hsound.ended, hadvance⟩, by simp⟩
  · intro u ok s' hstep
    exact hsound.work_lt hstep.1.2

theorem comes_to_rest_eleven :
    (∀ t, (radioSample 11).pc t ≠ .idle →
      ∃ u, (radioSample 11).pc u ≠ .idle ∧ ∀ ok, ∃ s', LockedStep (radioSample 11) (.run u ok) s') ∧
      ∀ u ok s', LockedStep (radioSample 11) (.run u ok) s' → work s' < work (radioSample 11) :=
  comes_to_rest radioSample_eleven

/-- An answer that has not taken the lock, whose call fails while the lock is free: an assert
fails, or the callbacks are dropped and the lock is held by nobody. Then no thread gets it
for writing any more, of either SIM, and nothing is registered, unless another such answer
fails. -/
theorem unlocked_failure_blocks (h : Reachable Initial LockedStep s) (hidle : s.pc t = .idle)
    (hfree : s.lock = .free) (hunlocked : a.locked = false)
    (hcallback : ((s.services a.slotId a.kind).callbacks.get a.callback).isSome = true) :
    (s.asserts = true → ∃ s₁, performAll (.answer t a :: List.replicate 4 (.run t false)) s =
      some s₁ ∧ s₁.ended = some .assertFailed) ∧
    (s.asserts = false → ∃ s₁, performAll (.answer t a :: List.replicate 9 (.run t false)) s =
      some s₁ ∧ s₁.pc t = .idle ∧ (s₁.services a.slotId a.kind).callbacks = {} ∧
      ∀ s', Reachable (· = s₁) QuietStep s' →
        s'.services = s₁.services ∧ ∀ u, (s'.pc u).writes = false) := by
  have hsound := sound h
  obtain ⟨s', on, hpc, hrwlocks, hreading, hservices, hasserts', hended, hall⟩ :=
    failing_call hsound.ended hidle hunlocked hcallback
  have hfree' : s'.lock = .free := (congrFun hrwlocks _).trans hfree
  refine ⟨?_, ?_⟩
  · intro hasserts
    obtain ⟨s₁, hrun, hfailed⟩ :=
      assert_without_lock hended hpc hfree' (hasserts'.trans hasserts)
    exact ⟨s₁, (hall [.run t false]).trans hrun, hfailed⟩
  · intro hasserts
    obtain ⟨s₁, hrun, hidle', hreading', hreaders, hdropped⟩ :=
      reset_without_lock hended hpc hunlocked hfree' (hasserts'.trans hasserts) (by rw [hservices])
    have hwhole : performAll (.answer t a :: List.replicate 9 (.run t false)) s = some s₁ :=
      (hall (List.replicate 6 (.run t false))).trans hrun
    refine ⟨s₁, hwhole, hidle', hdropped, ?_⟩
    intro s₂ hquiet
    refine quiet_run_blocked (counted_performAll hsound.counted hwhole) ?_ hquiet
    have hexact := hsound.exact
    unfold RwLock.surplus at hexact ⊢
    have hempty : s.reading.card = 0 := by
      rw [hfree] at hexact
      simpa [RwLock.free] using hexact
    have hnone : s.reading = ∅ := Finset.card_eq_zero.mp hempty
    simp [hreaders, hreading', hreading, hnone]

theorem unlocked_failure_blocks_four :
    ((radioSample 4).asserts = true → ∃ s₁,
      performAll (.answer 1 ⟨firstSlot, .radio, .response, false⟩ :: List.replicate 4 (.run 1 false))
        (radioSample 4) = some s₁ ∧ s₁.ended = some .assertFailed) ∧
    ((radioSample 4).asserts = false → ∃ s₁,
      performAll (.answer 1 ⟨firstSlot, .radio, .response, false⟩ :: List.replicate 9 (.run 1 false))
        (radioSample 4) = some s₁ ∧ s₁.pc 1 = .idle ∧ (s₁.services firstSlot .radio).callbacks = {} ∧
      ∀ s', Reachable (· = s₁) QuietStep s' →
        s'.services = s₁.services ∧ ∀ u, (s'.pc u).writes = false) :=
  unlocked_failure_blocks radioSample_four rfl rfl rfl rfl

end Results

end MeizuM5c.Ril.Radio
