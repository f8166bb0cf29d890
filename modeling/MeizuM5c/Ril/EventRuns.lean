import MeizuM5c.Ril.EventLoop

/-!
What holds in every run of the loop and its clients. Timers are in the order of their
deadlines, watches are what `select` is asked for, and what becomes due is called once, in
the order in which it became due.
-/

namespace MeizuM5c.Ril.Events

open Lib

section Frames

variable {m m' : Memory} {clock clock' : Timeval} {timers pending : List Address} {a : Address}

theorem SameFixed.deadline (h : SameFixed m m') : deadline m' = deadline m := by
  funext a
  have hmap := congrArg (Option.map RilEvent.timeout) (h a)
  rw [Option.map_map, Option.map_map] at hmap
  exact congrArg (fun t : Option Timeval => t.getD ⟨0, 0⟩) hmap

theorem deadline_update_of_ne {x : Option RilEvent} {b : Address} (hb : b ≠ a) :
    deadline (Function.update m a x) b = deadline m b := by
  unfold deadline
  rw [Function.update_of_ne hb]

theorem fdOf_update_of_ne {x : Option RilEvent} {b : Address} (hb : b ≠ a) :
    fdOf (Function.update m a x) b = fdOf m b := by
  unfold fdOf
  rw [Function.update_of_ne hb]

/-- An event in neither ring may change, and come and go. -/
theorem Rings.update_idle {head other : Address} {l k : List Address}
    (h : Rings m head l other k) (hidle : nextOf m a = none) {x : Option RilEvent}
    (hx : x.bind RilEvent.next = none) : Rings (Function.update m a x) head l other k := by
  have hl := h.notMem_of_idle hidle
  have hk := h.symm.notMem_of_idle hidle
  have hnext : nextOf (Function.update m a x) = nextOf m := by
    funext b
    by_cases hb : b = a
    · rw [hb, hidle]
      unfold nextOf
      rw [Function.update_self]
      exact hx
    · unfold nextOf
      rw [Function.update_of_ne hb]
  have hprev : ∀ b, b ≠ a → prevOf (Function.update m a x) b = prevOf m b := by
    intro b hb
    unfold prevOf
    rw [Function.update_of_ne hb]
  refine ⟨?_, ?_, h.apart, ?_⟩
  · rw [hnext]
    exact h.ring.congr (fun b _ => rfl) (fun b hb => hprev b (fun heq => hl (heq ▸ hb)))
  · rw [hnext]
    exact h.beside.congr (fun b _ => rfl) (fun b hb => hprev b (fun heq => hk (heq ▸ hb)))
  · rw [hnext]
    exact h.idle

/-- Timers in the order of their deadlines, which can be normalised, and pending timers past
theirs. A timer has no descriptor. -/
structure Timed (m : Memory) (clock : Timeval) (timers pending : List Address) : Prop where
  rings : Rings m .timerList timers .pendingList pending
  sorted : timers.Pairwise (NotLater m)
  unwatched : ∀ a ∈ timers, fdOf m a = -1
  normal : ∀ a ∈ timers, (deadline m a).Normal
  past : ∀ a ∈ pending, fdOf m a = -1 → deadline m a < clock

theorem Timed.frame (h : Timed m clock timers pending)
    (hrings : Rings m' .timerList timers .pendingList pending)
    (hsame : ∀ a, a ∈ timers ∨ a ∈ pending → deadline m' a = deadline m a ∧ fdOf m' a = fdOf m a)
    (hclock : clock ≤ clock') : Timed m' clock' timers pending := by
  refine ⟨hrings, ?_, ?_, ?_, ?_⟩
  · apply h.sorted.imp_of_mem
    intro a b ha hb hab
    unfold NotLater
    rw [(hsame a (.inl ha)).1, (hsame b (.inl hb)).1]
    exact hab
  · intro a ha
    rw [(hsame a (.inl ha)).2]
    exact h.unwatched a ha
  · intro a ha
    rw [(hsame a (.inl ha)).1]
    exact h.normal a ha
  · intro a ha hfd
    rw [(hsame a (.inr ha)).2] at hfd
    rw [(hsame a (.inr ha)).1]
    exact lt_of_lt_of_le (h.past a ha hfd) hclock

/-- An event that is nowhere is in neither list. -/
theorem Timed.ne_of_idle (h : Timed m clock timers pending) (hidle : nextOf m a = none) :
    ∀ b, b ∈ timers ∨ b ∈ pending → b ≠ a := by
  rintro b (hb | hb) heq
  · exact h.rings.notMem_of_idle hidle (List.mem_cons_of_mem _ (heq ▸ hb))
  · exact h.rings.symm.notMem_of_idle hidle (List.mem_cons_of_mem _ (heq ▸ hb))

end Frames

/-- What the loop relies on where it is. Asleep, it wakes up no later than the first of the
timers that were there when it looked. -/
def PcSound (r : Reactor) (timers pending : List Address) : Prop :=
  match r.pc with
  | .copy => pending = []
  | .load _ => pending = []
  | .calculate _ tev => pending = [] ∧ tev ∈ Address.timerList :: timers ∧ ∀ a ∈ timers,
      a ∈ r.since ∨ tev ∈ timers ∧ deadline r.events.mem tev ≤ deadline r.events.mem a
  | .select _ asked tv => pending = [] ∧ ∀ a ∈ timers, a ∈ r.since ∨
      ∃ t, tv = some t ∧ (t = ⟨0, 0⟩ ∨ timeradd asked t ≤ deadline r.events.mem a)
  | .timeouts rfds n => pending = [] ∧ (rfds.card : Int) ≤ n
  | .readies rfds n => (∀ a ∈ pending, fdOf r.events.mem a = -1) ∧ (rfds.card : Int) ≤ n
  | .fire => True
  | .firing ev => ev = pending.headD .pendingList
  | .stopped => pending = []

structure Sound (r : Reactor) (timers pending : List Address) : Prop where
  timed : Timed r.events.mem r.clock timers pending
  watches : Watches r.events
  pc : PcSound r timers pending
  moved : r.moved = r.called.map (fun c => c.1.ev) ++ pending
  counted : (r.armed ++ r.readied).Perm (r.moved ++ timers)
  called : ∀ c ∈ r.called, c.1.fd = -1 → c.1.timeout < c.2

section Clients

variable {r : Reactor} {timers pending : List Address} {n : Nat}

theorem PcSound.frame (h : PcSound r timers pending) {events : State}
    (hsame : ∀ a, a ∈ timers ∨ a ∈ pending →
      deadline events.mem a = deadline r.events.mem a ∧ fdOf events.mem a = fdOf r.events.mem a) :
    PcSound { r with events } timers pending := by
  unfold PcSound at h ⊢
  cases hpc : r.pc with
  | copy =>
      rw [hpc] at h
      exact h
  | load rfds =>
      rw [hpc] at h
      exact h
  | calculate rfds tev =>
      rw [hpc] at h
      refine ⟨h.1, h.2.1, ?_⟩
      intro a ha
      rcases h.2.2 a ha with hsince | ⟨htev, hle⟩
      · exact .inl hsince
      · right
        simp only
        rw [(hsame a (.inl ha)).1, (hsame tev (.inl htev)).1]
        exact ⟨htev, hle⟩
  | select rfds asked tv =>
      rw [hpc] at h
      refine ⟨h.1, ?_⟩
      intro a ha
      simp only
      rw [(hsame a (.inl ha)).1]
      exact h.2 a ha
  | timeouts rfds n =>
      rw [hpc] at h
      exact h
  | readies rfds n =>
      rw [hpc] at h
      refine ⟨?_, h.2⟩
      intro a ha
      simp only
      rw [(hsame a (.inr ha)).2]
      exact h.1 a ha
  | fire => trivial
  | firing ev =>
      rw [hpc] at h
      exact h
  | stopped =>
      rw [hpc] at h
      exact h

/-- A client that leaves the events of both rings alone. -/
theorem Sound.client (h : Sound r timers pending) {events : State} (hwatches : Watches events)
    (hrings : Rings events.mem .timerList timers .pendingList pending)
    (hsame : ∀ a, a ∈ timers ∨ a ∈ pending →
      deadline events.mem a = deadline r.events.mem a ∧ fdOf events.mem a = fdOf r.events.mem a) :
    Sound { r with events } timers pending :=
  ⟨h.timed.frame hrings hsame le_rfl, hwatches, h.pc.frame hsame, h.moved, h.counted, h.called⟩

theorem sound_rilEventSet (h : Sound r timers pending) (hidle : Idle r.events (.event n)) (fd : Int)
    (persist : Bool) (func param : Nat) :
    Sound { r with events := rilEventSet (.event n) fd persist func param r.events }
      timers pending := by
  have hne := h.timed.ne_of_idle hidle.1
  apply h.client
  · refine h.watches.frame ?_ ?_ ?_ ?_ ?_
    · rfl
    · rfl
    · rfl
    · intro i a ha
      have hout : a ≠ .event n := fun heq => hidle.2 i (heq ▸ ha)
      simp only [rilEventSet]
      rw [Function.update_of_ne hout]
    · intro k e he
      simp only [rilEventSet] at he
      by_cases hk : Address.event k = .event n
      · rw [hk, Function.update_self] at he
        exact .inl (congrArg RilEvent.index (Option.some.inj he)).symm
      · rw [Function.update_of_ne hk] at he
        exact .inr ⟨e, he, rfl⟩
  · exact h.timed.rings.update_idle hidle.1 rfl
  · intro a ha
    exact ⟨deadline_update_of_ne (hne a ha), fdOf_update_of_ne (hne a ha)⟩

theorem sound_free (h : Sound r timers pending) (hidle : Idle r.events (.event n)) :
    Sound { r with events := free (.event n) r.events } timers pending := by
  have hne := h.timed.ne_of_idle hidle.1
  apply h.client
  · refine h.watches.frame ?_ ?_ ?_ ?_ ?_
    · rfl
    · rfl
    · rfl
    · intro i a ha
      have hout : a ≠ .event n := fun heq => hidle.2 i (heq ▸ ha)
      simp only [free]
      rw [Function.update_of_ne hout]
    · intro k e he
      simp only [free] at he
      by_cases hk : Address.event k = .event n
      · rw [hk, Function.update_self] at he
        cases he
      · rw [Function.update_of_ne hk] at he
        exact .inr ⟨e, he, rfl⟩
  · exact h.timed.rings.update_idle hidle.1 rfl
  · intro a ha
    exact ⟨deadline_update_of_ne (hne a ha), fdOf_update_of_ne (hne a ha)⟩

/-- A slot number is noted in an event. -/
theorem Rings.index {m : Memory} {head other a : Address} {l k : List Address} {e : RilEvent}
    (h : Rings m head l other k) (he : m a = some e) (index : Int) :
    Rings (Function.update m a (some { e with index })) head l other k := by
  apply h.congr
  · rw [nextOf_update]
    exact Function.update_eq_self_iff.mpr (nextOf_of_some he).symm
  · rw [prevOf_update]
    exact Function.update_eq_self_iff.mpr (prevOf_of_some he).symm

theorem sound_rilEventAdd (h : Sound r timers pending) (henabled : Enabled r (.rilEventAdd n)) :
    ∃ events, rilEventAdd (.event n) r.events = some events ∧
      Sound { r with events } timers pending := by
  obtain ⟨hidle, e, he, hfits, hnew⟩ := henabled
  cases hfree : freeSlot r.events with
  | none => exact ⟨r.events, rilEventAdd_full hfree, h⟩
  | some i =>
      obtain ⟨hadd, hwatches⟩ := rilEventAdd_eq h.watches hfree rfl he hfits hidle.2 hnew
      have hfixed := sameFixed_index he (i : Nat)
      refine ⟨_, hadd, h.client hwatches (h.timed.rings.index he _) ?_⟩
      intro a _
      exact ⟨congrFun hfixed.deadline a, congrFun hfixed.fdOf a⟩

theorem sound_rilEventDel (h : Sound r timers pending) (henabled : Enabled r (.rilEventDel n)) :
    ∃ events, rilEventDel (.event n) r.events = some events ∧
      Sound { r with events } timers pending := by
  obtain ⟨e, he⟩ := henabled
  obtain ⟨events, hdel, hwatches, hcases⟩ := rilEventDel_eq h.watches he
  refine ⟨events, hdel, ?_⟩
  rcases hcases with ⟨rfl, -⟩ | ⟨i, nfds, -, rfl⟩
  · exact h
  · have hfixed := sameFixed_index he (-1)
    apply h.client hwatches (h.timed.rings.index he _)
    intro a _
    exact ⟨congrFun hfixed.deadline a, congrFun hfixed.fdOf a⟩

theorem timeradd_normal {now tv : Timeval} (hnow : now.Normal) (htv : tv.Normal) :
    (timeradd now tv).Normal := by
  unfold Timeval.Normal at *
  simp only [timeradd]
  split_ifs <;> simp only <;> omega

theorem PcSound.timer (h : PcSound r timers pending) (events : State) {ev : Address}
    {timers' : List Address} (hmem : ∀ a, a ∈ timers' ↔ a = ev ∨ a ∈ timers)
    (hne : ∀ a, a ∈ timers ∨ a ∈ pending → a ≠ ev)
    (hsame : ∀ a, a ≠ ev →
      deadline events.mem a = deadline r.events.mem a ∧ fdOf events.mem a = fdOf r.events.mem a)
    (clock : Timeval) (armed : List Address) :
    PcSound { r with events, clock, armed, since := r.since ++ [ev] } timers' pending := by
  unfold PcSound at h ⊢
  cases hpc : r.pc with
  | copy =>
      rw [hpc] at h
      exact h
  | load rfds =>
      rw [hpc] at h
      exact h
  | calculate rfds tev =>
      rw [hpc] at h
      refine ⟨h.1, ?_, ?_⟩
      · rcases List.mem_cons.mp h.2.1 with htev | htev
        · exact List.mem_cons.mpr (.inl htev)
        · exact List.mem_cons_of_mem _ ((hmem tev).mpr (.inr htev))
      · intro a ha
        rcases (hmem a).mp ha with rfl | ha
        · exact .inl (by simp)
        · rcases h.2.2 a ha with hsince | ⟨htev, hle⟩
          · exact .inl (List.mem_append_left _ hsince)
          · right
            simp only
            rw [(hsame a (hne a (.inl ha))).1, (hsame tev (hne tev (.inl htev))).1]
            exact ⟨(hmem tev).mpr (.inr htev), hle⟩
  | select rfds asked tv =>
      rw [hpc] at h
      refine ⟨h.1, ?_⟩
      intro a ha
      rcases (hmem a).mp ha with rfl | ha
      · exact .inl (by simp)
      · rcases h.2 a ha with hsince | hwake
        · exact .inl (List.mem_append_left _ hsince)
        · right
          simp only
          rw [(hsame a (hne a (.inl ha))).1]
          exact hwake
  | timeouts rfds n =>
      rw [hpc] at h
      exact h
  | readies rfds n =>
      rw [hpc] at h
      refine ⟨?_, h.2⟩
      intro a ha
      simp only
      rw [(hsame a (hne a (.inr ha))).2]
      exact h.1 a ha
  | fire => trivial
  | firing ev =>
      rw [hpc] at h
      exact h
  | stopped =>
      rw [hpc] at h
      exact h

theorem sound_rilTimerAdd (h : Sound r timers pending) {tv now : Timeval}
    (henabled : Enabled r (.rilTimerAdd n (some tv) now)) {fuel : Nat}
    (hfuel : timers.length < fuel) :
    ∃ events, rilTimerAdd fuel (.event n) (some tv) now r.events = some events ∧
      Sound { r with events, clock := now, armed := r.armed ++ [.event n],
                     since := r.since ++ [.event n] }
        (timers.orderedInsert (NotLater events.mem) (.event n)) pending := by
  obtain ⟨hidle, ⟨e, he⟩, hclock, hnow, htv⟩ := henabled
  obtain ⟨mem, hadd, hrings, hdata⟩ := rilTimerAdd_eq tv now h.timed.rings he hidle.1 hfuel
  have hne := h.timed.ne_of_idle hidle.1
  have hmem : ∀ a, a ∈ timers.orderedInsert (NotLater mem) (.event n) ↔ a = .event n ∨ a ∈ timers :=
    fun a => List.mem_orderedInsert (NotLater mem)
  have hsame : ∀ a, a ≠ .event n →
      deadline mem a = deadline r.events.mem a ∧ fdOf mem a = fdOf r.events.mem a := by
    intro a ha
    rw [hdata.deadline, hdata.fixed.fdOf, deadline_update_of_ne ha, fdOf_update_of_ne ha]
    exact ⟨rfl, rfl⟩
  have hdeadline : deadline mem (.event n) = timeradd now tv := by
    rw [hdata.deadline, deadline_eq (Function.update_self ..)]
  have hfd : fdOf mem (.event n) = -1 := by
    rw [hdata.fixed.fdOf, fdOf_eq (Function.update_self ..)]
  refine ⟨_, hadd, ⟨?_, ?_, ?_, ?_, ?_⟩, ?_, ?_, ?_, ?_, ?_⟩
  · exact hrings
  · apply List.Pairwise.orderedInsert
    apply h.timed.sorted.imp_of_mem
    intro a b ha hb hab
    unfold NotLater
    rw [(hsame a (hne a (.inl ha))).1, (hsame b (hne b (.inl hb))).1]
    exact hab
  · intro a ha
    rcases (hmem a).mp ha with rfl | ha
    · exact hfd
    · rw [(hsame a (hne a (.inl ha))).2]
      exact h.timed.unwatched a ha
  · intro a ha
    rcases (hmem a).mp ha with rfl | ha
    · rw [hdeadline]
      exact timeradd_normal hnow (htv tv rfl)
    · rw [(hsame a (hne a (.inl ha))).1]
      exact h.timed.normal a ha
  · intro a ha hafd
    have hsamea := hsame a (hne a (.inr ha))
    rw [hsamea.2] at hafd
    rw [hsamea.1]
    exact lt_of_lt_of_le (h.timed.past a ha hafd) hclock
  · refine h.watches.frame ?_ ?_ ?_ ?_ ?_
    · rfl
    · rfl
    · rfl
    · intro i a ha
      have hout : a ≠ .event n := fun heq => hidle.2 i (heq ▸ ha)
      simp only
      rw [hdata a, Function.update_of_ne hout]
    · intro k f hf
      obtain ⟨g, hg, hgf⟩ := hdata.symm.event hf
      by_cases hk : Address.event k = .event n
      · rw [hk, Function.update_self] at hg
        rw [hk]
        refine .inr ⟨e, he, ?_⟩
        rw [← (unlinked_eq hgf).2.1, ← Option.some.inj hg]
      · rw [Function.update_of_ne hk] at hg
        exact .inr ⟨g, hg, (unlinked_eq hgf).2.1⟩
  · exact h.pc.timer { r.events with mem } hmem hne hsame now _
  · exact h.moved
  · have hinsert := List.perm_orderedInsert (NotLater mem) (.event n) timers
    have hnew : (r.armed ++ [Address.event n] ++ r.readied).Perm
        (Address.event n :: (r.armed ++ r.readied)) := by
      rw [List.append_assoc]
      exact List.perm_middle
    have hplaced : (Address.event n :: (r.moved ++ timers)).Perm
        (r.moved ++ timers.orderedInsert (NotLater mem) (.event n)) :=
      List.perm_middle.symm.trans (hinsert.symm.append_left r.moved)
    exact hnew.trans ((h.counted.cons _).trans hplaced)
  · exact h.called

end Clients

section Loop

variable {r : Reactor} {timers pending : List Address} {now : Timeval}

theorem sound_copyFds (h : Sound r timers pending) (hpc : r.pc = .copy) :
    Sound { r with pc := .load r.events.readFds } timers pending := by
  have hnone := h.pc
  unfold PcSound at hnone
  rw [hpc] at hnone
  exact ⟨h.timed, h.watches, hnone, h.moved, h.counted, h.called⟩

/-- The first timer is the earliest. -/
theorem sound_loadTimer (h : Sound r timers pending) {rfds : Finset Int}
    (hpc : r.pc = .load rfds) :
    (∀ fuel, exec fuel r .loadTimer =
        some { r with pc := .calculate rfds (timers.headD .timerList), since := [] }) ∧
      Sound { r with pc := .calculate rfds (timers.headD .timerList), since := [] }
        timers pending := by
  have hnone := h.pc
  unfold PcSound at hnone
  rw [hpc] at hnone
  obtain ⟨head, hhead, hnext⟩ := nextOf_eq_some h.timed.rings.ring.next_head
  constructor
  · intro fuel
    unfold exec
    simp only [hpc, Option.bind_eq_bind, hhead, Option.bind_some, hnext]
  · refine ⟨h.timed, h.watches, ⟨hnone, ?_, ?_⟩, h.moved, h.counted, h.called⟩
    · have hfirst : timers.headD .timerList ∈ Address.timerList :: ([] ++ timers) :=
        headD_mem_append
      exact hfirst
    · intro a ha
      right
      have hsorted := h.timed.sorted
      cases timers with
      | nil => cases ha
      | cons b timers =>
          rw [List.headD_cons]
          refine ⟨List.mem_cons_self, ?_⟩
          rcases List.mem_cons.mp ha with rfl | ha
          · exact le_rfl
          · exact List.rel_of_pairwise_cons hsorted ha

theorem timeradd_timersub {d : Timeval} (hd : d.Normal) :
    timeradd now (timersub d now) = d := by
  obtain ⟨sec, usec⟩ := d
  unfold Timeval.Normal at hd
  simp only at hd
  by_cases hless : usec - now.usec < 0
  · have hsub : timersub ⟨sec, usec⟩ now =
        ⟨sec - now.sec - 1, usec - now.usec + 1000000⟩ := if_pos hless
    have hcarry : now.usec + (usec - now.usec + 1000000) ≥ 1000000 := by omega
    rw [hsub]
    refine (if_pos hcarry).trans ?_
    rw [Timeval.mk.injEq]
    constructor
    · simp only
      omega
    · simp only
      omega
  · have hsub : timersub ⟨sec, usec⟩ now = ⟨sec - now.sec, usec - now.usec⟩ := if_neg hless
    have hnocarry : ¬ now.usec + (usec - now.usec) ≥ 1000000 := by omega
    rw [hsub]
    refine (if_neg hnocarry).trans ?_
    rw [Timeval.mk.injEq]
    constructor
    · simp only
      omega
    · simp only
      omega

theorem sound_calcTimeout (h : Sound r timers pending) {rfds : Finset Int} {tev : Address}
    (hpc : r.pc = .calculate rfds tev) (hclock : r.clock ≤ now) :
    ∃ tv, (∀ fuel, exec fuel r (.calcTimeout now) =
        some { r with pc := .select rfds now tv, clock := now }) ∧
      Sound { r with pc := .select rfds now tv, clock := now } timers pending := by
  have hcalc := h.pc
  unfold PcSound at hcalc
  rw [hpc] at hcalc
  obtain ⟨hnone, htev, hfirst⟩ := hcalc
  have htimed : Timed r.events.mem now timers pending :=
    h.timed.frame h.timed.rings (fun a _ => ⟨rfl, rfl⟩) hclock
  -- the sleep ends with the first timer, or at once
  obtain ⟨tv, htv, hwake⟩ : ∃ tv, calcNextTimeout tev now r.events = some tv ∧
      ∀ a ∈ timers, a ∈ r.since ∨
        ∃ t, tv = some t ∧ (t = ⟨0, 0⟩ ∨ timeradd now t ≤ deadline r.events.mem a) := by
    unfold calcNextTimeout
    rcases List.mem_cons.mp htev with rfl | htev
    · refine ⟨none, if_pos rfl, ?_⟩
      intro a ha
      rcases hfirst a ha with hsince | ⟨hin, -⟩
      · exact .inl hsince
      · exact absurd rfl (ne_head h.timed.rings hin)
    · rw [if_neg (ne_head h.timed.rings htev)]
      obtain ⟨e, he⟩ := h.timed.rings.exists_event (List.mem_cons_of_mem _ htev)
      rw [he, Option.bind_eq_bind, Option.bind_some]
      split_ifs with hcmp
      · refine ⟨_, rfl, ?_⟩
        intro a ha
        rcases hfirst a ha with hsince | ⟨-, hle⟩
        · exact .inl hsince
        · right
          refine ⟨_, rfl, .inr ?_⟩
          have hnormal := h.timed.normal tev htev
          rw [deadline_eq he] at hnormal hle
          rw [timeradd_timersub hnormal]
          exact hle
      · refine ⟨_, rfl, ?_⟩
        intro a _
        exact .inr ⟨_, rfl, .inl rfl⟩
  refine ⟨tv, ?_, ?_⟩
  · intro fuel
    unfold exec
    simp only [hpc, Option.bind_eq_bind, htv, Option.bind_some]
  · exact ⟨htimed, h.watches, ⟨hnone, hwake⟩, h.moved, h.counted, h.called⟩

theorem pending_of_select (h : Sound r timers pending)
    (hpc : ∃ rfds asked tv, r.pc = .select rfds asked tv) : pending = [] := by
  obtain ⟨rfds, asked, tv, hpc⟩ := hpc
  have hselect := h.pc
  unfold PcSound at hselect
  rw [hpc] at hselect
  exact hselect.1

theorem sound_select (h : Sound r timers pending) {answer : Finset Int}
    (henabled : Enabled r (.select answer)) :
    Sound { r with pc := .timeouts answer answer.card } timers pending := by
  obtain ⟨rfds, asked, tv, hpc, -⟩ := henabled
  have hnone := pending_of_select h ⟨rfds, asked, tv, hpc⟩
  exact ⟨h.timed, h.watches, ⟨hnone, le_rfl⟩, h.moved, h.counted, h.called⟩

theorem sound_selectFails (h : Sound r timers pending) {eintr : Bool}
    (henabled : Enabled r (.selectFails eintr)) :
    Sound { r with pc := if eintr then .copy else .stopped } timers pending := by
  have hnone := pending_of_select h henabled
  refine ⟨h.timed, h.watches, ?_, h.moved, h.counted, h.called⟩
  cases eintr with
  | true => exact hnone
  | false => exact hnone

/-- The timers that are due become pending, the earliest first. -/
theorem sound_processTimeouts (h : Sound r timers pending) {rfds : Finset Int} {n : Int}
    (hpc : r.pc = .timeouts rfds n) :
    ∃ r' mem, r' = { r with events := { r.events with mem }, clock := now,
                            moved := r.moved ++ timers.takeWhile (due r.events.mem now),
                            pc := .readies rfds n } ∧
      (∀ fuel > timers.length, exec fuel r (.processTimeouts now) = some r') ∧
      SameFixed r.events.mem mem ∧
      Sound r' (timers.dropWhile (due r.events.mem now)) (timers.takeWhile (due r.events.mem now)) := by
  have htimeouts := h.pc
  unfold PcSound at htimeouts
  rw [hpc] at htimeouts
  obtain ⟨rfl, hn⟩ := htimeouts
  have hall : ∀ a ∈ timers.takeWhile (due r.events.mem now), a ∈ timers :=
    fun a ha => (List.takeWhile_prefix _).subset ha
  have hrest : ∀ a ∈ timers.dropWhile (due r.events.mem now), a ∈ timers :=
    fun a ha => (List.dropWhile_suffix _).subset ha
  -- enough fuel is as good as more
  obtain ⟨mem, hrun, hrings, hsame⟩ :=
    processTimeouts_eq now h.timed.rings (Nat.lt_succ_self timers.length)
  refine ⟨_, mem, rfl, ?_, hsame.fixed, ?_⟩
  · intro fuel hfuel
    have hmore := processTimeouts_mono hrun (Nat.succ_le_of_lt hfuel)
    unfold exec
    simp only [hpc, Option.bind_eq_bind, hmore, Option.bind_some]
  · refine ⟨⟨hrings, ?_, ?_, ?_, ?_⟩, h.watches.sameData hsame, ⟨?_, hn⟩, ?_, ?_, h.called⟩
    · apply (h.timed.sorted.sublist (List.dropWhile_sublist _)).imp
      intro a b hab
      unfold NotLater
      rw [hsame.deadline]
      exact hab
    · intro a ha
      rw [hsame.fixed.fdOf]
      exact h.timed.unwatched a (hrest a ha)
    · intro a ha
      rw [hsame.deadline]
      exact h.timed.normal a (hrest a ha)
    · intro a ha _
      rw [hsame.deadline]
      have hdue := List.all_eq_true.mp List.all_takeWhile a ha
      exact of_decide_eq_true hdue
    · intro a ha
      simp only
      rw [hsame.fixed.fdOf]
      exact h.timed.unwatched a (hall a ha)
    · have hmoved := h.moved
      rw [List.append_nil] at hmoved
      simp only
      rw [hmoved]
    · have hcounted := h.counted
      simp only
      rw [List.append_assoc, List.takeWhile_append_dropWhile]
      exact hcounted

theorem sound_firePending (h : Sound r timers pending) :
    (∀ fuel, exec fuel r .firePending =
        some { r with pc := .firing (pending.headD .pendingList) }) ∧
      Sound { r with pc := .firing (pending.headD .pendingList) } timers pending := by
  obtain ⟨head, hhead, hnext⟩ := nextOf_eq_some h.timed.rings.beside.next_head
  constructor
  · intro fuel
    unfold exec
    simp only [Option.bind_eq_bind, hhead, Option.bind_some, hnext]
  · exact ⟨h.timed, h.watches, rfl, h.moved, h.counted, h.called⟩

/-- The loop of `firePending` ends with nothing pending. -/
theorem sound_fireEnd (h : Sound r timers pending) (hpc : r.pc = .firing .pendingList) :
    Sound { r with pc := .copy } timers pending := by
  have hfiring := h.pc
  unfold PcSound at hfiring
  rw [hpc] at hfiring
  have hnone : pending = [] := by
    cases pending with
    | nil => rfl
    | cons a pending =>
        rw [List.headD_cons] at hfiring
        have hnodup := h.timed.rings.beside.nodup
        rw [← hfiring] at hnodup
        exact absurd List.mem_cons_self (List.nodup_cons.mp hnodup).1
  exact ⟨h.timed, h.watches, hnone, h.moved, h.counted, h.called⟩

/-- The first pending event is called. -/
theorem sound_fireNext (h : Sound r timers pending) {ev : Address} (hpc : r.pc = .firing ev)
    (hev : ev ≠ .pendingList) :
    ∃ rest e mem r', pending = ev :: rest ∧ r.events.mem ev = some e ∧
      r' = { r with events := { r.events with mem },
                    called := r.called ++ [(⟨ev, e.func, e.fd, e.param, e.timeout⟩, r.clock)],
                    pc := .firing (rest.headD .pendingList) } ∧
      (∀ fuel, exec fuel r .fireNext = some r') ∧ SameFixed r.events.mem mem ∧
      Sound r' timers rest := by
  have hfiring := h.pc
  unfold PcSound at hfiring
  rw [hpc] at hfiring
  cases pending with
  | nil => exact absurd hfiring hev
  | cons a rest =>
      rw [List.headD_cons] at hfiring
      subst hfiring
      obtain ⟨e, he⟩ := h.timed.rings.symm.exists_event
        (List.mem_cons_of_mem _ (List.mem_cons_self (a := ev) (l := rest)))
      obtain ⟨mem, hrun, hrings, hsame⟩ := fireOne_eq h.timed.rings he
      have hwas := h.timed
      have htimed : Timed mem r.clock timers rest := by
        refine ⟨hrings, ?_, ?_, ?_, ?_⟩
        · apply hwas.sorted.imp
          intro a b hab
          unfold NotLater
          rw [hsame.deadline]
          exact hab
        · rw [hsame.fixed.fdOf]
          exact hwas.unwatched
        · rw [hsame.deadline]
          exact hwas.normal
        · rw [hsame.deadline, hsame.fixed.fdOf]
          exact fun a ha => hwas.past a (List.mem_cons_of_mem ev ha)
      refine ⟨rest, e, mem, _, rfl, he, rfl, ?_, hsame.fixed, ?_⟩
      · intro fuel
        unfold exec
        simp only [hpc, if_neg hev, Option.bind_eq_bind, hrun, Option.bind_some]
      · refine ⟨htimed, h.watches.sameData hsame, rfl, ?_, h.counted, ?_⟩
        · simp only [List.map_append, List.map_cons, List.map_nil, List.append_assoc,
            List.singleton_append]
          exact h.moved
        · intro c hc hfd
          rcases List.mem_append.mp hc with hc | hc
          · exact h.called c hc hfd
          · rw [List.mem_singleton.mp hc] at hfd ⊢
            have hpast := hwas.past ev List.mem_cons_self
            rw [fdOf_eq he, deadline_eq he] at hpast
            exact hpast hfd

/-- The watched events that are ready become pending, in the order of their slots. -/
theorem sound_processReadReadies (h : Sound r timers pending) {rfds : Finset Int} {n : Int}
    (hpc : r.pc = .readies rfds n) :
    ∃ r' events, r' = { r with events, moved := r.moved ++ readyList r.events rfds,
                               readied := r.readied ++ readyList r.events rfds, pc := .fire } ∧
      (∀ fuel, exec fuel r .processReadReadies = some r') ∧
      events.watchTable = slotAfter r.events rfds (List.finRange MAX_FD_EVENTS) ∧
      SameFixed r.events.mem events.mem ∧
      Sound r' timers (pending ++ readyList r.events rfds) := by
  have hreadies := h.pc
  unfold PcSound at hreadies
  rw [hpc] at hreadies
  obtain ⟨hpending, hn⟩ := hreadies
  -- a watched event has a descriptor, which nothing in the rings has by now
  have hidle : ∀ i ∈ List.finRange MAX_FD_EVENTS, ∀ a, r.events.watchTable i = some a →
      nextOf r.events.mem a = none := by
    intro i _ a ha
    obtain ⟨e, he, -, hfits⟩ := h.watches.event i a ha
    have hfd : fdOf r.events.mem a ≠ -1 := by
      rw [fdOf_eq he]
      have hbounds := fits_bounds hfits
      omega
    obtain ⟨k, hk⟩ := h.watches.client i a ha
    apply h.timed.rings.idle a
    · intro hmem
      rcases List.mem_cons.mp hmem with hhead | hmem
      · rw [hk] at hhead
        cases hhead
      · exact hfd (h.timed.unwatched a hmem)
    · intro hmem
      rcases List.mem_cons.mp hmem with hhead | hmem
      · rw [hk] at hhead
        cases hhead
      · exact hfd (hpending a hmem)
  have hcount : ((readyList r.events rfds).length : Int) ≤ n := by
    have hle := ready_length_le h.watches rfds
    omega
  obtain ⟨events, hrun, hwatches, hrings, htable, hfixed⟩ :=
    readReadies_eq h.watches h.timed.rings.symm (List.nodup_finRange MAX_FD_EVENTS) hidle hcount
  refine ⟨_, events, rfl, ?_, htable, hfixed, ?_⟩
  · intro fuel
    unfold exec
    simp only [hpc, Option.bind_eq_bind, processReadReadies, hrun, Option.bind_some]
    rfl
  · refine ⟨⟨hrings.symm, ?_, ?_, ?_, ?_⟩, hwatches, trivial, ?_, ?_, h.called⟩
    · apply h.timed.sorted.imp
      intro a b hab
      unfold NotLater
      rw [hfixed.deadline]
      exact hab
    · rw [hfixed.fdOf]
      exact h.timed.unwatched
    · rw [hfixed.deadline]
      exact h.timed.normal
    · intro a ha hfd
      rw [hfixed.fdOf] at hfd
      rw [hfixed.deadline]
      rcases List.mem_append.mp ha with ha | ha
      · exact h.timed.past a ha hfd
      · -- a watched event is no timer
        obtain ⟨i, -, hi⟩ := List.mem_filterMap.mp ha
        obtain ⟨hwatched, -⟩ := readyAt_eq_some.mp hi
        obtain ⟨e, he, -, hfits⟩ := h.watches.event i a hwatched
        rw [fdOf_eq he] at hfd
        have hbounds := fits_bounds hfits
        omega
    · simp only
      rw [h.moved, List.append_assoc]
    · have hready : (r.moved ++ timers ++ readyList r.events rfds).Perm
          (r.moved ++ readyList r.events rfds ++ timers) := by
        rw [List.append_assoc, List.append_assoc]
        exact List.perm_append_comm.append_left r.moved
      simp only
      rw [← List.append_assoc]
      exact (h.counted.append_right _).trans hready

end Loop

section Runs

variable {r r' : Reactor} {timers pending : List Address} {a : Action}

theorem exec_mono {fuel fuel' : Nat} (h : exec fuel r a = some r') (hle : fuel ≤ fuel') :
    exec fuel' r a = some r' := by
  cases a with
  | rilTimerAdd n tv now =>
      unfold exec at h ⊢
      simp only [Option.bind_eq_bind, Option.bind_eq_some_iff] at h ⊢
      obtain ⟨events, hadd, h⟩ := h
      exact ⟨events, rilTimerAdd_mono hadd hle, h⟩
  | processTimeouts now =>
      unfold exec at h ⊢
      cases hpc : r.pc with
      | timeouts rfds n =>
          simp only [hpc, Option.bind_eq_bind, Option.bind_eq_some_iff] at h ⊢
          obtain ⟨⟨moved, events⟩, hrun, h⟩ := h
          exact ⟨(moved, events), processTimeouts_mono hrun hle, h⟩
      | _ => simp only [hpc, reduceCtorEq] at h
  | _ => exact h

/-- With enough fuel an action of a sound state has a result, which is sound. -/
theorem sound_exec (h : Sound r timers pending) (henabled : Enabled r a) :
    ∃ least r' timers' pending', (∀ fuel ≥ least, exec fuel r a = some r') ∧
      Sound r' timers' pending' := by
  cases a with
  | rilEventSet n fd persist func param =>
      exact ⟨0, _, timers, pending, fun _ _ => rfl,
        sound_rilEventSet h henabled fd persist func param⟩
  | rilEventAdd n =>
      obtain ⟨events, hadd, hsound⟩ := sound_rilEventAdd h henabled
      refine ⟨0, _, timers, pending, ?_, hsound⟩
      intro fuel _
      simp only [exec, hadd, Option.bind_eq_bind, Option.bind_some]
  | rilTimerAdd n tv now =>
      cases tv with
      | none =>
          have htimed : Timed r.events.mem now timers pending :=
            h.timed.frame h.timed.rings (fun a _ => ⟨rfl, rfl⟩) henabled.2.2.1
          have hpc : PcSound { r with clock := now } timers pending := h.pc
          refine ⟨0, { r with clock := now }, timers, pending, ?_,
            ⟨htimed, h.watches, hpc, h.moved, h.counted, h.called⟩⟩
          intro fuel _
          simp only [exec, rilTimerAdd, Option.bind_eq_bind, Option.bind_some, Option.toList_none,
            List.map_nil, List.append_nil]
      | some tv =>
          obtain ⟨events, hadd, hsound⟩ :=
            sound_rilTimerAdd h henabled (Nat.lt_succ_self timers.length)
          refine ⟨timers.length + 1, _, _, pending, ?_, hsound⟩
          intro fuel hfuel
          simp only [exec, rilTimerAdd_mono hadd hfuel, Option.bind_eq_bind, Option.bind_some,
            Option.toList_some, List.map_cons, List.map_nil]
  | rilEventDel n =>
      obtain ⟨events, hdel, hsound⟩ := sound_rilEventDel h henabled
      refine ⟨0, _, timers, pending, ?_, hsound⟩
      intro fuel _
      simp only [exec, hdel, Option.bind_eq_bind, Option.bind_some]
  | free n => exact ⟨0, _, timers, pending, fun _ _ => rfl, sound_free h henabled⟩
  | copyFds => exact ⟨0, _, timers, pending, fun _ _ => rfl, sound_copyFds h henabled⟩
  | loadTimer =>
      obtain ⟨rfds, hpc⟩ := henabled
      obtain ⟨hrun, hsound⟩ := sound_loadTimer h hpc
      exact ⟨0, _, timers, pending, fun fuel _ => hrun fuel, hsound⟩
  | calcTimeout now =>
      obtain ⟨⟨rfds, tev, hpc⟩, hclock, -⟩ := henabled
      obtain ⟨tv, hrun, hsound⟩ := sound_calcTimeout h hpc hclock
      exact ⟨0, _, timers, pending, fun fuel _ => hrun fuel, hsound⟩
  | select answer => exact ⟨0, _, timers, pending, fun _ _ => rfl, sound_select h henabled⟩
  | selectFails eintr => exact ⟨0, _, timers, pending, fun _ _ => rfl, sound_selectFails h henabled⟩
  | processTimeouts now =>
      obtain ⟨⟨rfds, n, hpc⟩, -⟩ := henabled
      obtain ⟨r', -, -, hrun, -, hsound⟩ := sound_processTimeouts h hpc
      exact ⟨timers.length + 1, r', _, _, hrun, hsound⟩
  | processReadReadies =>
      obtain ⟨rfds, n, hpc⟩ := henabled
      obtain ⟨r', -, -, hrun, -, -, hsound⟩ := sound_processReadReadies h hpc
      exact ⟨0, r', timers, _, fun fuel _ => hrun fuel, hsound⟩
  | firePending =>
      obtain ⟨hrun, hsound⟩ := sound_firePending h
      exact ⟨0, _, timers, pending, fun fuel _ => hrun fuel, hsound⟩
  | fireNext =>
      obtain ⟨ev, hpc⟩ := henabled
      by_cases hev : ev = .pendingList
      · rw [hev] at hpc
        refine ⟨0, _, timers, pending, ?_, sound_fireEnd h hpc⟩
        intro fuel _
        simp only [exec, hpc, if_true]
      · obtain ⟨rest, e, -, r', -, -, -, hrun, -, hsound⟩ := sound_fireNext h hpc hev
        exact ⟨0, r', timers, rest, fun fuel _ => hrun fuel, hsound⟩

theorem exec_unique {fuel : Nat} {r'' : Reactor} (least : Nat) (h : exec fuel r a = some r')
    (hleast : ∀ fuel ≥ least, exec fuel r a = some r'') : r' = r'' := by
  have hboth := exec_mono h (Nat.le_max_left fuel least)
  rw [hleast _ (Nat.le_max_right fuel least)] at hboth
  exact (Option.some.inj hboth).symm

theorem sound_initial (h : Initial r) : Sound r [] [] := by
  obtain ⟨clock, -, rfl⟩ := h
  have hevent : ∀ n, (rilEventInit State.static).mem (.event n) = none := fun n => rfl
  have hwatch : ∀ i, (rilEventInit State.static).watchTable i = none := fun i => rfl
  have hfdAt : ∀ i, fdAt (rilEventInit State.static) i = none := fun i => rfl
  refine ⟨⟨⟨?_, ?_, ?_, ?_⟩, ?_, ?_, ?_, ?_⟩, ⟨?_, ?_, ?_, ?_, ?_, ?_, ?_⟩, rfl, rfl, .nil, ?_⟩
  · exact Ring.nil rfl rfl
  · exact Ring.nil rfl rfl
  · decide
  · intro a ha hother
    cases a with
    | timerList => exact absurd List.mem_cons_self ha
    | pendingList => exact absurd List.mem_cons_self hother
    | event n =>
        unfold nextOf
        rw [hevent]
        rfl
  · exact .nil
  · exact fun a ha => absurd ha List.not_mem_nil
  · exact fun a ha => absurd ha List.not_mem_nil
  · exact fun a ha => absurd ha List.not_mem_nil
  · intro i a ha
    rw [hwatch] at ha
    cases ha
  · intro i a ha
    rw [hwatch] at ha
    cases ha
  · intro n e he
    rw [hevent] at he
    cases he
  · intro i j fd hi
    rw [hfdAt] at hi
    cases hi
  · intro fd
    refine iff_of_false (Finset.notMem_empty fd) ?_
    rintro ⟨i, hi⟩
    rw [hfdAt] at hi
    cases hi
  · exact fun fd hfd => absurd hfd (Finset.notMem_empty fd)
  · exact .inl (show (0 : Int) ≤ 1 by decide)
  · exact fun c hc => absurd hc List.not_mem_nil

theorem reachable_sound (h : Reachable Initial Step r) :
    ∃ timers pending, Sound r timers pending := by
  apply h.invariant (P := fun r => ∃ timers pending, Sound r timers pending)
  · exact fun r hr => ⟨[], [], sound_initial hr⟩
  · rintro r a r' ⟨timers, pending, hsound⟩ ⟨henabled, fuel, hexec⟩
    obtain ⟨least, r'', timers', pending', hrun, hsound'⟩ := sound_exec hsound henabled
    rw [exec_unique least hexec hrun]
    exact ⟨timers', pending', hsound'⟩

end Runs

end MeizuM5c.Ril.Events
