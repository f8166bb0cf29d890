import MeizuM5c.Ril.RadioCallbacks

/-!
What a step does to the lock and to the callbacks, and what follows for every run: with
and without answers that do not take the lock.
-/

namespace MeizuM5c.Ril.Radio

open Lib

theorem getRadioServiceRwlock_eq (slotId : Slot) :
    getRadioServiceRwlock slotId = .radioServiceRwlock := by
  have hslot : slotId.val < 2 := slotId.isLt
  exact if_neg (by omega)

/-- The thread has a hold for reading to give back. -/
def Pc.reads : Pc → Bool
  | .look a => a.locked
  | .call a => a.locked
  | .failed a _ => a.locked
  | .unlock a _ _ => a.locked
  | .leave a => a.locked
  | _ => false

/-- The thread has the lock for writing. -/
def Pc.writes : Pc → Bool
  | .compare _ _ _ => true
  | .unlockReset _ => true
  | .set _ _ _ => true
  | .unlockSet _ => true
  | _ => false

def Action.thread : Action → Nat
  | .answer t _ => t
  | .setResponseFunctions t _ _ _ => t
  | .run t _ => t

section State

variable (s : State) (t : Nat) (slotId : Slot) (pc : Pc) (l : RwLock Nat)

@[simp] theorem lockOf_eq : s.lockOf slotId = s.lock := by
  unfold State.lockOf State.lock
  rw [getRadioServiceRwlock_eq]

@[simp] theorem lock_withLock : (s.withLock slotId l).lock = l := by
  unfold State.withLock State.lock
  simp [getRadioServiceRwlock_eq]

@[simp] theorem move_pc_self : (s.move t pc).pc t = pc := by simp [State.move]

@[simp] theorem move_services : (s.move t pc).services = s.services := rfl
@[simp] theorem move_ended : (s.move t pc).ended = s.ended := rfl

end State

/-- A hold is given back, or the thread has none and the assert tells. -/
def Unlocks (s : State) (t : Nat) (s' : State) : Prop :=
  (s.lock.unlock t = some s'.lock ∧ s'.ended = s.ended) ∨
  (s.lock.unlock t = none ∧ s'.lock = s.lock ∧
    s'.ended = if s.asserts then some .assertFailed else s.ended)

section Unlock

variable (s : State) (t : Nat) (slotId : Slot)

theorem unlocks_unlock : Unlocks s t (s.unlock t slotId) := by
  unfold Unlocks State.unlock
  rw [lockOf_eq]
  cases hunlock : s.lock.unlock t with
  | some l => exact .inl ⟨by simp, rfl⟩
  | none =>
      refine .inr ⟨rfl, ?_⟩
      cases hasserts : s.asserts with
      | true => exact ⟨rfl, rfl⟩
      | false => exact ⟨rfl, rfl⟩

/-- Nothing else is touched. -/
theorem unlock_rest :
    (s.unlock t slotId).pc = s.pc ∧ (s.unlock t slotId).reading = s.reading ∧
      (s.unlock t slotId).services = s.services ∧ (s.unlock t slotId).busy = s.busy ∧
      (s.unlock t slotId).asserts = s.asserts := by
  unfold State.unlock
  rw [lockOf_eq]
  cases s.lock.unlock t with
  | some l => exact ⟨rfl, rfl, rfl, rfl, rfl⟩
  | none =>
      cases hasserts : s.asserts with
      | true => exact ⟨rfl, rfl, rfl, rfl, rfl⟩
      | false => exact ⟨rfl, rfl, rfl, rfl, hasserts⟩

end Unlock

/-- What a step of a thread does to the lock. -/
inductive LockEffect (s : State) (t : Nat) (s' : State) : Prop where
  | same : s'.lock = s.lock → s'.reading = s.reading → (s'.pc t).reads = (s.pc t).reads →
      (s'.pc t).writes = (s.pc t).writes →
      (s'.ended = s.ended ∨ ∃ a, s.pc t = .call a ∧
        (s.services a.slotId a.kind).callbacks.get a.callback = none) → LockEffect s t s'
  | read : s.lock.rdlock = some s'.lock → s'.reading = insert t s.reading →
      (s.pc t).reads = false → (s'.pc t).reads = true → (s'.pc t).writes = (s.pc t).writes →
      s'.ended = s.ended → LockEffect s t s'
  /-- The hold will not be given back. -/
  | lost : s.lock.rdlock = some s'.lock → s'.reading = s.reading → (s.pc t).reads = false →
      (s'.pc t).reads = false → (s'.pc t).writes = (s.pc t).writes → s'.ended = s.ended →
      (∃ a, s.pc t = .rdlock a ∧ a.locked = false) → LockEffect s t s'
  /-- A thread that has no hold for reading may give back that of another. -/
  | unread : Unlocks s t s' → s'.reading = s.reading.erase t → (s'.pc t).reads = false →
      (s.pc t).writes = false → (s'.pc t).writes = false →
      ((s.pc t).reads = true ∨ ∃ a on counter, s.pc t = .unlock a on counter ∧ a.locked = false) →
      LockEffect s t s'
  | write : s.lock.wrlock t = some s'.lock → s'.reading = s.reading → (s.pc t).reads = false →
      (s'.pc t).reads = false → (s'.pc t).writes = true → s'.ended = s.ended → LockEffect s t s'
  | unwrite : Unlocks s t s' → s'.reading = s.reading → (s.pc t).reads = false →
      (s'.pc t).reads = false → (s.pc t).writes = true → (s'.pc t).writes = false →
      LockEffect s t s'

/-- What a step leaves to the other threads, and which threads are busy after it. -/
structure Effect (s : State) (t : Nat) (s' : State) : Prop where
  lock : LockEffect s t s'
  others : ∀ u, u ≠ t → s'.pc u = s.pc u
  busy : (∀ u, u ∈ s.busy ↔ s.pc u ≠ .idle) → ∀ u, u ∈ s'.busy ↔ s'.pc u ≠ .idle
  asserts : s'.asserts = s.asserts
  entered : ∀ a, s'.pc t = .enter a → a.locked = true
  services : s'.services = s.services ∨ (s.pc t).writes = true

section Effect

variable {s s' : State} {t : Nat}

/-- A thread that goes on and has more to do. -/
theorem Effect.of_going (pc : Pc) (hlock : LockEffect s t s')
    (hpc : s'.pc = Function.update s.pc t pc) (hbefore : s.pc t ≠ .idle)
    (hafter : pc ≠ .idle ∧ ∀ a, pc ≠ .enter a) (hbusy : s'.busy = s.busy)
    (hasserts : s'.asserts = s.asserts)
    (hservices : s'.services = s.services ∨ (s.pc t).writes = true) : Effect s t s' := by
  refine ⟨hlock, ?_, ?_, hasserts, ?_, hservices⟩
  · intro u hu
    rw [hpc, Function.update_of_ne hu]
  · intro hb u
    rw [hbusy, hpc]
    rcases eq_or_ne u t with rfl | hu
    · simp [hb, hbefore, hafter.1]
    · simp [hb, hu]
  · intro a ha
    rw [hpc, Function.update_self] at ha
    exact absurd ha (hafter.2 a)

/-- A thread that has come to its end. -/
theorem Effect.of_finished (hlock : LockEffect s t s')
    (hpc : s'.pc = Function.update s.pc t .idle) (hbusy : s'.busy = s.busy.erase t)
    (hasserts : s'.asserts = s.asserts)
    (hservices : s'.services = s.services ∨ (s.pc t).writes = true) : Effect s t s' := by
  refine ⟨hlock, ?_, ?_, hasserts, ?_, hservices⟩
  · intro u hu
    rw [hpc, Function.update_of_ne hu]
  · intro hb u
    rw [hbusy, hpc]
    rcases eq_or_ne u t with rfl | hu
    · simp
    · simp [hb, hu]
  · intro a ha
    rw [hpc, Function.update_self] at ha
    cases ha

theorem Effect.of_started {pc : Pc} (hlock : LockEffect s t s')
    (hpc : s'.pc = Function.update s.pc t pc) (hafter : pc ≠ .idle)
    (hbusy : s'.busy = insert t s.busy) (hasserts : s'.asserts = s.asserts)
    (hentered : ∀ a, pc = .enter a → a.locked = true) (hservices : s'.services = s.services) :
    Effect s t s' := by
  refine ⟨hlock, ?_, ?_, hasserts, ?_, .inl hservices⟩
  · intro u hu
    rw [hpc, Function.update_of_ne hu]
  · intro hb u
    rw [hbusy, hpc]
    rcases eq_or_ne u t with rfl | hu
    · simp [hafter]
    · simp [hb, hu]
  · intro a ha
    rw [hpc, Function.update_self] at ha
    exact hentered a ha

/-- A step of `checkReturnStatus` or of a response function that leaves the lock alone. -/
theorem effect_move {pc : Pc} (hbefore : s.pc t ≠ .idle)
    (hafter : pc ≠ .idle ∧ ∀ a, pc ≠ .enter a)
    (hreads : pc.reads = (s.pc t).reads) (hwrites : pc.writes = (s.pc t).writes) :
    Effect s t (s.move t pc) := by
  refine Effect.of_going pc ?_ rfl hbefore hafter rfl rfl (.inl rfl)
  refine .same rfl rfl ?_ ?_ (.inl rfl)
  · rw [move_pc_self, hreads]
  · rw [move_pc_self, hwrites]

/-- The thread that has entered will take the lock. -/
theorem advance_effect {ok : Bool} (hentered : ∀ a, s.pc t = .enter a → a.locked = true)
    (h : advance s t ok = some s') : Effect s t s' := by
  unfold advance at h
  cases hpc : s.pc t with
  | idle => simp [hpc] at h
  | enter a =>
      simp only [hpc, lockOf_eq, Option.bind_eq_bind, Option.bind_eq_some_iff] at h
      obtain ⟨l, hl, h⟩ := h
      obtain rfl := Option.some.inj h
      refine .of_going (.look a) ?_ rfl (by simp [hpc]) (by simp) rfl rfl (.inl rfl)
      refine .read ?_ rfl ?_ ?_ ?_ rfl
      · rw [hl]
        exact congrArg some (lock_withLock s a.slotId l).symm
      · simp [hpc, Pc.reads]
      · simp [Pc.reads, hentered a hpc]
      · simp [hpc, Pc.writes]
  | look a =>
      simp only [hpc] at h
      cases hcallback : (s.services a.slotId a.kind).callbacks.get a.callback with
      | some f =>
          simp only [hcallback, Option.some.injEq] at h
          subst h
          exact effect_move (by simp [hpc]) (by simp) (by simp [hpc, Pc.reads])
            (by simp [hpc, Pc.writes])
      | none =>
          simp only [hcallback, Option.some.injEq] at h
          subst h
          exact effect_move (by simp [hpc]) (by simp) (by simp [hpc, Pc.reads])
            (by simp [hpc, Pc.writes])
  | call a =>
      simp only [hpc] at h
      cases hcallback : (s.services a.slotId a.kind).callbacks.get a.callback with
      | some f =>
          simp only [hcallback] at h
          cases ok with
          | true =>
              obtain rfl := Option.some.inj h
              exact effect_move (by simp [hpc]) (by simp) (by simp [hpc, Pc.reads])
                (by simp [hpc, Pc.writes])
          | false =>
              obtain rfl := Option.some.inj h
              exact effect_move (by simp [hpc]) (by simp) (by simp [hpc, Pc.reads])
                (by simp [hpc, Pc.writes])
      | none =>
          simp only [hcallback, Option.some.injEq] at h
          subst h
          refine ⟨.same rfl rfl rfl rfl (.inr ⟨a, hpc, hcallback⟩), fun _ _ => rfl,
            fun hbusy => hbusy, rfl, ?_, .inl rfl⟩
          intro b hb
          rw [hpc] at hb
          cases hb
  | failed a on =>
      simp only [hpc, Option.some.injEq] at h
      subst h
      exact effect_move (by simp [hpc]) (by simp) (by simp [hpc, Pc.reads])
        (by simp [hpc, Pc.writes])
  | unlock a on counter =>
      simp only [hpc, Option.some.injEq] at h
      subst h
      obtain ⟨hpcs, hreading, hservices, hbusy, hasserts⟩ := unlock_rest s t a.slotId
      refine .of_going (.wrlock a on counter) ?_ (congrArg (Function.update · t _) hpcs)
        (by simp [hpc]) (by simp) hbusy hasserts (.inl hservices)
      refine .unread (unlocks_unlock s t a.slotId) rfl ?_ ?_ ?_ ?_
      · simp [Pc.reads]
      · simp [hpc, Pc.writes]
      · simp [Pc.writes]
      · cases hlocked : a.locked with
        | true => exact .inl (by simp [hpc, Pc.reads, hlocked])
        | false => exact .inr ⟨a, on, counter, hpc, hlocked⟩
  | wrlock a on counter =>
      simp only [hpc, lockOf_eq, Option.bind_eq_bind, Option.bind_eq_some_iff] at h
      obtain ⟨l, hl, h⟩ := h
      obtain rfl := Option.some.inj h
      refine .of_going (.compare a on counter) ?_ rfl (by simp [hpc]) (by simp) rfl rfl (.inl rfl)
      refine .write ?_ rfl ?_ ?_ ?_ rfl
      · rw [hl]
        exact congrArg some (lock_withLock s a.slotId l).symm
      · simp [hpc, Pc.reads]
      · simp [Pc.reads]
      · simp [Pc.writes]
  | compare a on counter =>
      simp only [hpc, Option.some.injEq] at h
      subst h
      refine .of_going (.unlockReset a) ?_ rfl (by simp [hpc]) (by simp) rfl rfl
        (.inr (by simp [hpc, Pc.writes]))
      refine .same rfl rfl ?_ ?_ (.inl rfl)
      · simp [hpc, Pc.reads]
      · simp [hpc, Pc.writes]
  | unlockReset a =>
      simp only [hpc, Option.some.injEq] at h
      subst h
      obtain ⟨hpcs, hreading, hservices, hbusy, hasserts⟩ := unlock_rest s t a.slotId
      refine .of_going (.rdlock a) ?_ (congrArg (Function.update · t _) hpcs)
        (by simp [hpc]) (by simp) hbusy hasserts (.inl hservices)
      refine .unwrite (unlocks_unlock s t a.slotId) hreading ?_ ?_ ?_ ?_
      · simp [hpc, Pc.reads]
      · simp [Pc.reads]
      · simp [hpc, Pc.writes]
      · simp [Pc.writes]
  | rdlock a =>
      simp only [hpc, lockOf_eq, Option.bind_eq_bind, Option.bind_eq_some_iff] at h
      obtain ⟨l, hl, h⟩ := h
      obtain rfl := Option.some.inj h
      have hlock : s.lock.rdlock = some (s.withLock a.slotId l).lock := by
        rw [hl, lock_withLock]
      refine .of_going (.leave a) ?_ rfl (by simp [hpc]) (by simp) rfl rfl (.inl rfl)
      cases hlocked : a.locked with
      | true =>
          refine .read hlock rfl ?_ ?_ ?_ rfl
          · simp [hpc, Pc.reads]
          · simp [Pc.reads, hlocked]
          · simp [hpc, Pc.writes]
      | false =>
          refine .lost hlock rfl ?_ ?_ ?_ rfl ⟨a, hpc, hlocked⟩
          · simp [hpc, Pc.reads]
          · simp [Pc.reads, hlocked]
          · simp [hpc, Pc.writes]
  | leave a =>
      simp only [hpc, Option.some.injEq] at h
      subst h
      cases hlocked : a.locked with
      | true =>
          obtain ⟨hpcs, hreading, hservices, hbusy, hasserts⟩ := unlock_rest s t a.slotId
          refine .of_finished ?_ (congrArg (Function.update · t _) hpcs)
            (congrArg (Finset.erase · t) hbusy) hasserts (.inl hservices)
          refine .unread (unlocks_unlock s t a.slotId) rfl ?_ ?_ ?_ (.inl ?_)
          · simp [State.finish, Pc.reads]
          · simp [hpc, Pc.writes]
          · simp [State.finish, Pc.writes]
          · simp [hpc, Pc.reads, hlocked]
      | false =>
          refine .of_finished ?_ rfl rfl rfl (.inl rfl)
          refine .same rfl rfl ?_ ?_ (.inl rfl)
          · simp [State.finish, hpc, Pc.reads, hlocked]
          · simp [State.finish, hpc, Pc.writes]
  | wrlockSet slotId kind callbacks =>
      simp only [hpc, lockOf_eq, Option.bind_eq_bind, Option.bind_eq_some_iff] at h
      obtain ⟨l, hl, h⟩ := h
      obtain rfl := Option.some.inj h
      refine .of_going (.set slotId kind callbacks) ?_ rfl (by simp [hpc]) (by simp) rfl rfl (.inl rfl)
      refine .write ?_ rfl ?_ ?_ ?_ rfl
      · rw [hl]
        exact congrArg some (lock_withLock s slotId l).symm
      · simp [hpc, Pc.reads]
      · simp [Pc.reads]
      · simp [Pc.writes]
  | set slotId kind callbacks =>
      simp only [hpc, Option.some.injEq] at h
      subst h
      refine .of_going (.unlockSet slotId) ?_ rfl (by simp [hpc]) (by simp) rfl rfl
        (.inr (by simp [hpc, Pc.writes]))
      refine .same rfl rfl ?_ ?_ (.inl rfl)
      · simp [hpc, Pc.reads]
      · simp [hpc, Pc.writes]
  | unlockSet slotId =>
      simp only [hpc, Option.some.injEq] at h
      subst h
      obtain ⟨hpcs, hreading, hservices, hbusy, hasserts⟩ := unlock_rest s t slotId
      refine .of_finished ?_ (congrArg (Function.update · t _) hpcs)
        (congrArg (Finset.erase · t) hbusy) hasserts (.inl hservices)
      refine .unwrite (unlocks_unlock s t slotId) hreading ?_ ?_ ?_ ?_
      · simp [hpc, Pc.reads]
      · simp [State.finish, Pc.reads]
      · simp [hpc, Pc.writes]
      · simp [State.finish, Pc.writes]

/-- A thread that begins has no lock yet. -/
theorem effect_start {pc : Pc} (hbefore : s.pc t = .idle) (hafter : pc ≠ .idle)
    (hreads : pc.reads = false) (hwrites : pc.writes = false)
    (hentered : ∀ a, pc = .enter a → a.locked = true) : Effect s t (s.start t pc) := by
  refine .of_started ?_ rfl hafter rfl rfl hentered rfl
  have hpc : (s.start t pc).pc t = pc := by simp [State.start]
  refine .same rfl rfl ?_ ?_ (.inl rfl)
  · rw [hpc, hbefore, hreads]
    rfl
  · rw [hpc, hbefore, hwrites]
    rfl

end Effect

/-- The threads that hold the lock, as their steps tell. -/
structure Counted (s : State) : Prop where
  reading : ∀ t, t ∈ s.reading ↔ (s.pc t).reads = true
  busy : ∀ t, t ∈ s.busy ↔ s.pc t ≠ .idle
  writer : ∀ t, s.lock.writer = some t ↔ (s.pc t).writes = true
  entered : ∀ t a, s.pc t = .enter a → a.locked = true

section Counted

variable {s s' : State} {t : Nat}

theorem writes_of_reads {pc : Pc} (h : pc.reads = true) : pc.writes = false := by
  cases pc with
  | look a => rfl
  | call a => rfl
  | failed a on => rfl
  | unlock a on counter => rfl
  | leave a => rfl
  | idle => cases h
  | enter a => cases h
  | wrlock a on counter => cases h
  | compare a on counter => cases h
  | unlockReset a => cases h
  | rdlock a => cases h
  | wrlockSet slotId kind callbacks => cases h
  | set slotId kind callbacks => cases h
  | unlockSet slotId => cases h

theorem Counted.initial (h : Initial s) : Counted s := by
  obtain ⟨asserts, rfl⟩ := h
  refine ⟨?_, ?_, ?_, ?_⟩
  · simp [Pc.reads]
  · simp
  · simp [State.lock, RwLock.free, Pc.writes]
  · simp

/-- The lock of the state after a step of one thread, when nobody is the writer. -/
theorem Counted.no_writer (h : Counted s) (hwriter : s.lock.writer = none) (u : Nat) :
    (s.pc u).writes = false := by
  cases hwrites : (s.pc u).writes with
  | false => rfl
  | true =>
      have hu := (h.writer u).mpr hwrites
      rw [hwriter] at hu
      cases hu

theorem Counted.unlock_writer (h : Counted s) (hunlocks : Unlocks s t s')
    (hwrites : (s.pc t).writes = true) : s'.lock = .free ∧ s'.ended = s.ended := by
  have hfree := RwLock.unlock_writer ((h.writer t).mpr hwrites)
  rcases hunlocks with ⟨hsome, hended⟩ | ⟨hnone, -⟩
  · rw [hfree] at hsome
    exact ⟨(Option.some.inj hsome).symm, hended⟩
  · rw [hfree] at hnone
    cases hnone

theorem Counted.writer_ne (h : Counted s) (hwrites : (s.pc t).writes = false) :
    s.lock.writer ≠ some t := by
  intro hwriter
  rw [(h.writer t).mp hwriter] at hwrites
  cases hwrites

/-- No thread is the writer after a step of one that is not. -/
theorem Counted.writer_of_none (h : Counted s) (hothers : ∀ u, u ≠ t → s'.pc u = s.pc u)
    (hwriter : s.lock.writer = none) (hwriter' : s'.lock.writer = none)
    (hafter : (s'.pc t).writes = false) (u : Nat) :
    s'.lock.writer = some u ↔ (s'.pc u).writes = true := by
  have hwrites : (s'.pc u).writes = false := by
    rcases eq_or_ne u t with rfl | hu
    · exact hafter
    · rw [hothers u hu, h.no_writer hwriter u]
  simp [hwriter', hwrites]

theorem Counted.writer_of_same (h : Counted s) (hothers : ∀ u, u ≠ t → s'.pc u = s.pc u)
    (hlock : s'.lock = s.lock) (hwrites : (s'.pc t).writes = (s.pc t).writes) (u : Nat) :
    s'.lock.writer = some u ↔ (s'.pc u).writes = true := by
  rw [hlock, h.writer]
  rcases eq_or_ne u t with rfl | hu
  · rw [hwrites]
  · rw [hothers u hu]

theorem Counted.writer_of_effect (h : Counted s) (hlock : LockEffect s t s')
    (hothers : ∀ u, u ≠ t → s'.pc u = s.pc u) (u : Nat) :
    s'.lock.writer = some u ↔ (s'.pc u).writes = true := by
  cases hlock with
  | same hsame _ _ hwrites _ => exact h.writer_of_same hothers hsame hwrites u
  | read hrdlock _ _ _ hwrites _ =>
      obtain ⟨hwriter, -, hwriter'⟩ := RwLock.rdlock_eq_some_iff.mp hrdlock
      refine h.writer_of_none hothers hwriter hwriter' ?_ u
      rw [hwrites, h.no_writer hwriter t]
  | lost hrdlock _ _ _ hwrites _ _ =>
      obtain ⟨hwriter, -, hwriter'⟩ := RwLock.rdlock_eq_some_iff.mp hrdlock
      refine h.writer_of_none hothers hwriter hwriter' ?_ u
      rw [hwrites, h.no_writer hwriter t]
  | unread hunlocks _ _ hbefore hafter _ =>
      rcases hunlocks with ⟨hsome, -⟩ | ⟨-, hsame, -⟩
      · obtain ⟨hreaders, hwriter'⟩ :=
          (RwLock.unlock_eq_some_iff (h.writer_ne hbefore)).mp hsome
        have hwriter : s.lock.writer = none := by
          refine s.lock.alone.resolve_right ?_
          omega
        exact h.writer_of_none hothers hwriter hwriter' hafter u
      · exact h.writer_of_same hothers hsame (hafter.trans hbefore.symm) u
  | write hwrlock _ _ _ hafter _ =>
      obtain ⟨hwriter, -, -, hwriter'⟩ := RwLock.wrlock_eq_some_iff.mp hwrlock
      rcases eq_or_ne u t with rfl | hu
      · simp [hwriter', hafter]
      · rw [hothers u hu, h.no_writer hwriter u, hwriter']
        simp [hu.symm]
  | unwrite hunlocks _ _ _ hbefore hafter =>
      obtain ⟨hfree, -⟩ := h.unlock_writer hunlocks hbefore
      have hwrites : (s'.pc u).writes = false := by
        rcases eq_or_ne u t with rfl | hu
        · exact hafter
        · rw [hothers u hu]
          cases hwrites : (s.pc u).writes with
          | false => rfl
          | true =>
              have hu' := (h.writer u).mpr hwrites
              rw [(h.writer t).mpr hbefore] at hu'
              exact absurd (Option.some.inj hu').symm hu
      simp [hfree, RwLock.free, hwrites]

theorem Counted.of_effect (h : Counted s) (heffect : Effect s t s') : Counted s' := by
  obtain ⟨hlock, hothers, hbusy, -, hentered, -⟩ := heffect
  refine ⟨?_, hbusy h.busy, ?_, ?_⟩
  · intro u
    rcases eq_or_ne u t with rfl | hu
    · cases hlock with
      | same _ hreading hreads _ _ => rw [hreading, hreads, h.reading]
      | read _ hreading _ hafter _ _ => simp [hreading, hafter]
      | lost _ hreading hbefore hafter _ _ _ => simp [hreading, hafter, h.reading, hbefore]
      | unread _ hreading hafter _ _ _ => simp [hreading, hafter]
      | write _ hreading hbefore hafter _ _ => simp [hreading, hafter, h.reading, hbefore]
      | unwrite _ hreading hbefore hafter _ _ => simp [hreading, hafter, h.reading, hbefore]
    · rw [hothers u hu]
      cases hlock with
      | same _ hreading _ _ _ => rw [hreading, h.reading]
      | read _ hreading _ _ _ _ => simp [hreading, hu, h.reading]
      | lost _ hreading _ _ _ _ _ => simp [hreading, h.reading]
      | unread _ hreading _ _ _ _ => simp [hreading, hu, h.reading]
      | write _ hreading _ _ _ _ => simp [hreading, h.reading]
      | unwrite _ hreading _ _ _ _ => simp [hreading, h.reading]
  · exact h.writer_of_effect hlock hothers
  · intro u a hu
    rcases eq_or_ne u t with rfl | hne
    · exact hentered a hu
    · exact h.entered u a (hothers u hne ▸ hu)

theorem perform_effect {a : Action} (h : Counted s) (hperform : perform s a = some s') :
    Effect s a.thread s' := by
  cases a with
  | answer t b =>
      unfold perform at hperform
      cases hpc : s.pc t with
      | idle =>
          simp only [hpc, Option.some.injEq] at hperform
          subst hperform
          cases hlocked : b.locked with
          | true => exact effect_start hpc (by simp) rfl rfl (by simp [hlocked])
          | false => exact effect_start hpc (by simp) (by simp [Pc.reads, hlocked]) rfl (by simp)
      | _ => simp [hpc] at hperform
  | setResponseFunctions t slotId kind callbacks =>
      unfold perform at hperform
      cases hpc : s.pc t with
      | idle =>
          simp only [hpc, Option.some.injEq] at hperform
          subst hperform
          exact effect_start hpc (by simp) rfl rfl (by simp)
      | _ => simp [hpc] at hperform
  | run t ok => exact advance_effect (h.entered t) hperform

theorem Counted.step {a : Action} (h : Counted s) (hstep : Step s a s') : Counted s' :=
  h.of_effect (perform_effect h hstep.2)

end Counted

/-- The counter moves with every registration and every reset, and what is reset was
registered. -/
structure Service.Sound (service : Service) : Prop where
  counter : service.counter = service.registrations + service.resets
  resets : service.resets ≤ service.registrations
  registered : service.callbacks ≠ {} → service.resets < service.registrations

/-- What a thread that takes the lock may rely on where it is. -/
def PcSound (services : Slot → Kind → Service) : Pc → Prop
  | .enter a => a.locked = true
  | .look a => a.locked = true
  | .call a =>
      a.locked = true ∧ ((services a.slotId a.kind).callbacks.get a.callback).isSome = true
  | .failed a on =>
      a.locked = true ∧ (on.get a.callback).isSome = true ∧
        (services a.slotId a.kind).callbacks = on
  | .unlock a on counter =>
      a.locked = true ∧ (on.get a.callback).isSome = true ∧
        (services a.slotId a.kind).callbacks = on ∧ counter = (services a.slotId a.kind).counter
  | .wrlock a on counter =>
      a.locked = true ∧ (on.get a.callback).isSome = true ∧
        counter ≤ (services a.slotId a.kind).counter ∧
        (counter = (services a.slotId a.kind).counter → (services a.slotId a.kind).callbacks = on)
  | .compare a on counter =>
      a.locked = true ∧ (on.get a.callback).isSome = true ∧
        counter ≤ (services a.slotId a.kind).counter ∧
        (counter = (services a.slotId a.kind).counter → (services a.slotId a.kind).callbacks = on)
  | .unlockReset a => a.locked = true
  | .rdlock a => a.locked = true
  | .leave a => a.locked = true
  | _ => True

/-- No service changes but with its counter. -/
def Newer (services services' : Slot → Kind → Service) : Prop :=
  ∀ slotId kind, services' slotId kind = services slotId kind ∨
    (services slotId kind).counter < (services' slotId kind).counter

/-- What holds of every state that is reached when all answers take the lock. -/
structure Sound (s : State) : Prop where
  counted : Counted s
  ended : s.ended = none
  exact : s.lock.surplus s.reading = 0
  pcs : ∀ t, PcSound s.services (s.pc t)
  services : ∀ slotId kind, (s.services slotId kind).Sound

section Sound

variable {s s' : State} {t : Nat} {services services' : Slot → Kind → Service}

/-- A thread that does not hold the lock need not know what others have set. -/
theorem PcSound.newer {pc : Pc} (h : PcSound services pc) (hreads : pc.reads = false)
    (hnewer : Newer services services') : PcSound services' pc := by
  cases pc with
  | call a => simp [Pc.reads, h.1] at hreads
  | failed a on => simp [Pc.reads, h.1] at hreads
  | unlock a on counter => simp [Pc.reads, h.1] at hreads
  | wrlock a on counter =>
      obtain ⟨hlocked, hcalled, hle, hsame⟩ := h
      rcases hnewer a.slotId a.kind with heq | hlt
      · exact ⟨hlocked, hcalled, by rw [heq]; exact hle, by rw [heq]; exact hsame⟩
      · exact ⟨hlocked, hcalled, by omega, fun _ => by omega⟩
  | compare a on counter =>
      obtain ⟨hlocked, hcalled, hle, hsame⟩ := h
      rcases hnewer a.slotId a.kind with heq | hlt
      · exact ⟨hlocked, hcalled, by rw [heq]; exact hle, by rw [heq]; exact hsame⟩
      · exact ⟨hlocked, hcalled, by omega, fun _ => by omega⟩
  | idle => exact h
  | enter a => exact h
  | look a => exact h
  | unlockReset a => exact h
  | rdlock a => exact h
  | leave a => exact h
  | wrlockSet slotId kind callbacks => exact h
  | set slotId kind callbacks => exact h
  | unlockSet slotId => exact h

/-- While a thread writes, no thread reads. -/
theorem Sound.no_readers (h : Sound s) (hwrites : (s.pc t).writes = true) (u : Nat) :
    (s.pc u).reads = false := by
  have hwriter := (h.counted.writer t).mpr hwrites
  have hreaders := RwLock.readers_of_writer hwriter
  have hexact := h.exact
  unfold RwLock.surplus at hexact
  have hnone : s.reading = ∅ := Finset.card_eq_zero.mp (by omega)
  have hu := h.counted.reading u
  rw [hnone] at hu
  simpa using hu

/-- A hold that a thread has is there. -/
theorem Sound.unlocks (h : Sound s) (hunlocks : Unlocks s t s')
    (hin : t ∈ s.reading) : s.lock.unlock t = some s'.lock ∧ s'.ended = s.ended := by
  rcases hunlocks with hsome | ⟨hnone, -⟩
  · exact hsome
  · have hwrites := writes_of_reads ((h.counted.reading t).mp hin)
    have hreaders := (RwLock.unlock_eq_none_iff (h.counted.writer_ne hwrites)).mp hnone
    have hexact := h.exact
    have hcard : 0 < s.reading.card := Finset.card_pos.mpr ⟨t, hin⟩
    unfold RwLock.surplus at hexact
    omega

/-- The lock stays exact and nothing ends the process. -/
theorem Sound.of_effect (h : Sound s) (hlock : LockEffect s t s') :
    s'.ended = none ∧ s'.lock.surplus s'.reading = 0 := by
  have hpc := h.pcs t
  cases hlock with
  | same hsame hreading _ _ hended =>
      refine ⟨?_, by rw [hsame, hreading, h.exact]⟩
      rcases hended with hended | ⟨a, hcall, hnone⟩
      · rw [hended, h.ended]
      · rw [hcall] at hpc
        obtain ⟨-, hsome⟩ := hpc
        rw [hnone] at hsome
        cases hsome
  | read hrdlock hreading hbefore _ _ hended =>
      refine ⟨hended.trans h.ended, ?_⟩
      have hout : t ∉ s.reading := by simp [h.counted.reading, hbefore]
      rw [hreading, RwLock.surplus_rdlock hrdlock hout, h.exact]
  | lost _ _ _ _ _ _ hunlocked =>
      obtain ⟨a, hrdlock, hunlocked⟩ := hunlocked
      rw [hrdlock] at hpc
      exact absurd (show a.locked = true from hpc) (by simp [hunlocked])
  | unread hunlocks hreading _ hbefore _ hreads =>
      rcases hreads with hreads | ⟨a, on, counter, hunlock, hunlocked⟩
      · have hin := (h.counted.reading t).mpr hreads
        obtain ⟨hunlock, hended⟩ := h.unlocks hunlocks hin
        refine ⟨hended.trans h.ended, ?_⟩
        rw [hreading, RwLock.surplus_unlock (h.counted.writer_ne hbefore) hunlock hin, h.exact]
      · rw [hunlock] at hpc
        exact absurd (show a.locked = true from hpc.1) (by simp [hunlocked])
  | write hwrlock hreading _ _ _ hended =>
      refine ⟨hended.trans h.ended, ?_⟩
      obtain ⟨-, hreaders, hreaders', -⟩ := RwLock.wrlock_eq_some_iff.mp hwrlock
      have hexact := h.exact
      unfold RwLock.surplus at hexact ⊢
      rw [hreading, hreaders', ← hexact, hreaders]
  | unwrite hunlocks hreading _ _ hbefore _ =>
      obtain ⟨hfree, hended⟩ := h.counted.unlock_writer hunlocks hbefore
      have hreaders := RwLock.readers_of_writer ((h.counted.writer t).mpr hbefore)
      have hexact := h.exact
      refine ⟨hended.trans h.ended, ?_⟩
      unfold RwLock.surplus at hexact ⊢
      rw [hreading, hfree, ← hexact, hreaders]
      rfl

theorem Service.Sound.reset {service : Service} (h : service.Sound) {counter : Nat}
    (hcalled : counter = service.counter → service.callbacks ≠ {}) :
    (service.reset counter).Sound := by
  unfold Service.reset
  split_ifs with hsame
  · have hregistered := h.registered (hcalled hsame)
    have hcounter := h.counter
    refine ⟨?_, ?_, ?_⟩
    · simp only
      omega
    · exact hregistered
    · intro hnot
      exact absurd rfl hnot
  · exact h

theorem Service.Sound.set {service : Service} (h : service.Sound) (callbacks : Callbacks) :
    (service.set callbacks).Sound := by
  have hcounter := h.counter
  have hresets := h.resets
  refine ⟨?_, ?_, ?_⟩
  · simp only [Service.set]
    omega
  · simp only [Service.set]
    omega
  · intro _
    simp only [Service.set]
    omega

theorem callbacks_ne_of_get {callbacks : Callbacks} {which : Callback}
    (h : (callbacks.get which).isSome = true) : callbacks ≠ {} := by
  rintro rfl
  cases which with
  | response => cases h
  | indication => cases h

theorem withService_self (slotId : Slot) (kind : Kind) (service : Service) :
    (s.withService slotId kind service).services slotId kind = service := by
  simp [State.withService]

theorem withService_of_ne {slotId slot : Slot} {kind k : Kind} (service : Service)
    (h : ¬ (slot = slotId ∧ k = kind)) :
    (s.withService slotId kind service).services slot k = s.services slot k := by
  rcases eq_or_ne slot slotId with rfl | hslot
  · have hkind : k ≠ kind := fun hkind => h ⟨rfl, hkind⟩
    simp [State.withService, hkind]
  · simp [State.withService, hslot]

theorem withService_newer {slotId : Slot} {kind : Kind} {service : Service}
    (h : service = s.services slotId kind ∨ (s.services slotId kind).counter < service.counter) :
    Newer s.services (s.withService slotId kind service).services := by
  intro slot k
  rcases em (slot = slotId ∧ k = kind) with ⟨rfl, rfl⟩ | hother
  · rw [withService_self]
    exact h
  · exact .inl (withService_of_ne service hother)

theorem withService_sound {slotId : Slot} {kind : Kind} {service : Service}
    (h : ∀ slotId kind, (s.services slotId kind).Sound) (hservice : service.Sound) (slot : Slot)
    (k : Kind) : ((s.withService slotId kind service).services slot k).Sound := by
  rcases em (slot = slotId ∧ k = kind) with ⟨rfl, rfl⟩ | hother
  · rw [withService_self]
    exact hservice
  · rw [withService_of_ne service hother]
    exact h slot k

/-- Only a thread that writes changes a service, and it changes the counter with it. -/
theorem Sound.advanced (h : Sound s) {ok : Bool} (hadvance : advance s t ok = some s') :
    (s'.services = s.services ∨ (s.pc t).writes = true ∧ Newer s.services s'.services) ∧
      (∀ slotId kind, (s'.services slotId kind).Sound) ∧ PcSound s'.services (s'.pc t) := by
  have hsound := h.pcs t
  unfold advance at hadvance
  cases hpc : s.pc t with
  | idle => simp [hpc] at hadvance
  | enter a =>
      rw [hpc] at hsound
      simp only [hpc, lockOf_eq, Option.bind_eq_bind, Option.bind_eq_some_iff] at hadvance
      obtain ⟨l, hl, hadvance⟩ := hadvance
      obtain rfl := Option.some.inj hadvance
      refine ⟨.inl rfl, h.services, ?_⟩
      rw [move_pc_self]
      exact hsound
  | look a =>
      rw [hpc] at hsound
      simp only [hpc] at hadvance
      cases hcallback : (s.services a.slotId a.kind).callbacks.get a.callback with
      | some f =>
          simp only [hcallback, Option.some.injEq] at hadvance
          subst hadvance
          refine ⟨.inl rfl, h.services, ?_⟩
          rw [move_pc_self]
          exact ⟨hsound, by rw [move_services, hcallback]; rfl⟩
      | none =>
          simp only [hcallback, Option.some.injEq] at hadvance
          subst hadvance
          refine ⟨.inl rfl, h.services, ?_⟩
          rw [move_pc_self]
          exact hsound
  | call a =>
      rw [hpc] at hsound
      simp only [hpc] at hadvance
      obtain ⟨hlocked, hsome⟩ := hsound
      cases hcallback : (s.services a.slotId a.kind).callbacks.get a.callback with
      | some f =>
          simp only [hcallback] at hadvance
          cases ok with
          | true =>
              obtain rfl := Option.some.inj hadvance
              refine ⟨.inl rfl, h.services, ?_⟩
              rw [move_pc_self]
              exact hlocked
          | false =>
              obtain rfl := Option.some.inj hadvance
              refine ⟨.inl rfl, h.services, ?_⟩
              rw [move_pc_self]
              exact ⟨hlocked, hsome, rfl⟩
      | none =>
          rw [hcallback] at hsome
          cases hsome
  | failed a on =>
      rw [hpc] at hsound
      obtain ⟨hlocked, hcalled, hsame⟩ := hsound
      simp only [hpc, Option.some.injEq] at hadvance
      subst hadvance
      refine ⟨.inl rfl, h.services, ?_⟩
      rw [move_pc_self]
      exact ⟨hlocked, hcalled, hsame, rfl⟩
  | unlock a on counter =>
      rw [hpc] at hsound
      obtain ⟨hlocked, hcalled, hsame, rfl⟩ := hsound
      simp only [hpc, Option.some.injEq] at hadvance
      subst hadvance
      obtain ⟨-, -, hservices, -⟩ := unlock_rest s t a.slotId
      refine ⟨.inl hservices, fun slotId kind => ?_, ?_⟩
      · change ((s.unlock t a.slotId).services slotId kind).Sound
        rw [hservices]
        exact h.services slotId kind
      · rw [move_pc_self]
        change PcSound (s.unlock t a.slotId).services _
        rw [hservices]
        exact ⟨hlocked, hcalled, le_rfl, fun _ => hsame⟩
  | wrlock a on counter =>
      rw [hpc] at hsound
      simp only [hpc, lockOf_eq, Option.bind_eq_bind, Option.bind_eq_some_iff] at hadvance
      obtain ⟨l, hl, hadvance⟩ := hadvance
      obtain rfl := Option.some.inj hadvance
      refine ⟨.inl rfl, h.services, ?_⟩
      rw [move_pc_self]
      exact hsound
  | compare a on counter =>
      rw [hpc] at hsound
      obtain ⟨hlocked, hcalled, hle, hsame⟩ := hsound
      simp only [hpc, Option.some.injEq] at hadvance
      subst hadvance
      refine ⟨.inr ⟨by rfl, withService_newer ?_⟩, withService_sound h.services ?_, ?_⟩
      · unfold Service.reset
        split_ifs with heq
        · right
          simp only
          omega
        · exact .inl rfl
      · refine (h.services a.slotId a.kind).reset ?_
        intro heq
        rw [hsame heq]
        exact callbacks_ne_of_get hcalled
      · rw [move_pc_self]
        exact hlocked
  | unlockReset a =>
      rw [hpc] at hsound
      simp only [hpc, Option.some.injEq] at hadvance
      subst hadvance
      obtain ⟨-, -, hservices, -⟩ := unlock_rest s t a.slotId
      refine ⟨.inl hservices, fun slotId kind => ?_, ?_⟩
      · rw [move_services, hservices]
        exact h.services slotId kind
      · rw [move_pc_self]
        exact hsound
  | rdlock a =>
      rw [hpc] at hsound
      simp only [hpc, lockOf_eq, Option.bind_eq_bind, Option.bind_eq_some_iff] at hadvance
      obtain ⟨l, hl, hadvance⟩ := hadvance
      obtain rfl := Option.some.inj hadvance
      refine ⟨.inl rfl, h.services, ?_⟩
      rw [move_pc_self]
      exact hsound
  | leave a =>
      rw [hpc] at hsound
      have hlocked : a.locked = true := hsound
      simp only [hpc, hlocked, if_true, Option.some.injEq] at hadvance
      subst hadvance
      obtain ⟨-, -, hservices, -⟩ := unlock_rest s t a.slotId
      refine ⟨.inl hservices, fun slotId kind => ?_, ?_⟩
      · change ((s.unlock t a.slotId).services slotId kind).Sound
        rw [hservices]
        exact h.services slotId kind
      · simp [State.finish, PcSound]
  | wrlockSet slotId kind callbacks =>
      simp only [hpc, lockOf_eq, Option.bind_eq_bind, Option.bind_eq_some_iff] at hadvance
      obtain ⟨l, hl, hadvance⟩ := hadvance
      obtain rfl := Option.some.inj hadvance
      refine ⟨.inl rfl, h.services, ?_⟩
      rw [move_pc_self]
      trivial
  | set slotId kind callbacks =>
      simp only [hpc, Option.some.injEq] at hadvance
      subst hadvance
      refine ⟨.inr ⟨by rfl, withService_newer (.inr ?_)⟩,
        withService_sound h.services ((h.services slotId kind).set callbacks), ?_⟩
      · simp only [Service.set]
        omega
      · rw [move_pc_self]
        trivial
  | unlockSet slotId =>
      simp only [hpc, Option.some.injEq] at hadvance
      subst hadvance
      obtain ⟨-, -, hservices, -⟩ := unlock_rest s t slotId
      refine ⟨.inl hservices, fun slot kind => ?_, ?_⟩
      · change ((s.unlock t slotId).services slot kind).Sound
        rw [hservices]
        exact h.services slot kind
      · simp [State.finish, PcSound]

theorem Sound.initial (h : Initial s) : Sound s := by
  refine ⟨Counted.initial h, ?_, ?_, ?_, ?_⟩
  all_goals obtain ⟨asserts, rfl⟩ := h
  · rfl
  · rfl
  · intro t
    trivial
  · intro slotId kind
    exact ⟨rfl, le_rfl, fun hnot => absurd rfl hnot⟩

theorem Sound.start (h : Sound s) {pc : Pc} (hbefore : s.pc t = .idle) (hafter : pc ≠ .idle)
    (hreads : pc.reads = false) (hwrites : pc.writes = false)
    (hentered : ∀ a, pc = .enter a → a.locked = true) (hpc : PcSound s.services pc) :
    Sound (s.start t pc) := by
  have heffect := effect_start hbefore hafter hreads hwrites hentered
  refine ⟨h.counted.of_effect heffect, h.ended, h.exact, ?_, h.services⟩
  intro u
  rcases eq_or_ne u t with rfl | hu
  · simpa [State.start] using hpc
  · rw [heffect.others u hu]
    exact h.pcs u

theorem Sound.run (h : Sound s) {ok : Bool} (hadvance : advance s t ok = some s') :
    Sound s' := by
  have heffect := advance_effect (h.counted.entered t) hadvance
  obtain ⟨hended, hexact⟩ := h.of_effect heffect.lock
  obtain ⟨hwritten, hservices, hpc⟩ := h.advanced hadvance
  refine ⟨h.counted.of_effect heffect, hended, hexact, ?_, hservices⟩
  intro u
  rcases eq_or_ne u t with rfl | hu
  · exact hpc
  · rw [heffect.others u hu]
    rcases hwritten with hsame | ⟨hwrites, hnewer⟩
    · rw [hsame]
      exact h.pcs u
    · exact (h.pcs u).newer (h.no_readers hwrites u) hnewer

theorem Sound.step {a : Action} (h : Sound s) (hstep : LockedStep s a s') : Sound s' := by
  obtain ⟨⟨-, hperform⟩, hanswer⟩ := hstep
  cases a with
  | answer t b =>
      have hlocked := hanswer t b rfl
      unfold perform at hperform
      cases hpc : s.pc t with
      | idle =>
          simp only [hpc, hlocked, if_true, Option.some.injEq] at hperform
          subst hperform
          exact h.start hpc (by simp) rfl rfl (by simp [hlocked]) hlocked
      | _ => simp [hpc] at hperform
  | setResponseFunctions t slotId kind callbacks =>
      unfold perform at hperform
      cases hpc : s.pc t with
      | idle =>
          simp only [hpc, Option.some.injEq] at hperform
          subst hperform
          exact h.start hpc (by simp) rfl rfl (by simp) trivial
      | _ => simp [hpc] at hperform
  | run t ok => exact h.run hperform

theorem sound (h : Reachable Initial LockedStep s) : Sound s :=
  Reachable.invariant (P := Sound) (fun _ => Sound.initial) (fun _ _ _ => Sound.step) h

end Sound

end MeizuM5c.Ril.Radio
