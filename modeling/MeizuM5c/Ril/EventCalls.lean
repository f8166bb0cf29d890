import MeizuM5c.Ril.EventRuns

/-!
The calls that the loop makes: for what, when and in which order; and what it asks
`select` for.
-/

namespace MeizuM5c.Ril.Events

open Lib

section Sample

/-- A run with three timers, two of them with one deadline, and two watches, one of them
persistent. -/
def sampleActions : List Action :=
  [.rilEventSet 0 (-1) false 7 0, .rilTimerAdd 0 (some ⟨0, 200000⟩) ⟨1, 0⟩,
    .rilEventSet 1 (-1) false 7 1, .rilTimerAdd 1 (some ⟨5, 0⟩) ⟨1, 0⟩,
    .rilEventSet 2 (-1) false 7 2, .rilTimerAdd 2 (some ⟨5, 0⟩) ⟨1, 0⟩,
    .rilEventSet 3 3 true 8 0, .rilEventAdd 3, .rilEventSet 4 5 false 9 0, .rilEventAdd 4,
    .copyFds, .loadTimer, .calcTimeout ⟨1, 0⟩, .select {3, 5}, .processTimeouts ⟨2, 0⟩,
    .processReadReadies, .firePending, .fireNext, .fireNext]

/-- The state after some of the actions. -/
def sample : Nat → Reactor
  | 0 => { events := rilEventInit State.static, clock := ⟨0, 0⟩ }
  | k + 1 => (sampleActions[k]?.bind (exec 4 (sample k))).getD (sample k)

theorem sample_step {k : Nat} {a : Action} (h : Reachable Initial Step (sample k))
    (henabled : Enabled (sample k) a) (hexec : exec 4 (sample k) a = some (sample (k + 1))) :
    Reachable Initial Step (sample (k + 1)) := h.next a ⟨henabled, 4, hexec⟩

/-- A timer that is set up is armed at the first second. -/
theorem sample_armed {k : Nat} (n : Nat) (tv : Timeval) (hidle : Idle (sample k).events (.event n))
    (hset : ((sample k).events.mem (.event n)).isSome = true) (hclock : (sample k).clock ≤ ⟨1, 0⟩)
    (htv : tv.Normal) : Enabled (sample k) (.rilTimerAdd n (some tv) ⟨1, 0⟩) := by
  refine ⟨hidle, Option.isSome_iff_exists.mp hset, hclock, by decide, ?_⟩
  intro t ht
  cases ht
  exact htv

theorem sample_equal : Enabled (sample 5) (.rilTimerAdd 2 (some ⟨5, 0⟩) ⟨1, 0⟩) :=
  sample_armed 2 ⟨5, 0⟩ ⟨rfl, by decide⟩ rfl (by decide) (by decide)

theorem sample_five : Reachable Initial Step (sample 5) := by
  have h₀ : Reachable Initial Step (sample 0) := .init ⟨⟨0, 0⟩, by decide, rfl⟩
  have h₁ : Reachable Initial Step (sample 1) :=
    sample_step h₀ (a := .rilEventSet 0 (-1) false 7 0) ⟨rfl, by decide⟩ rfl
  have h₂ : Reachable Initial Step (sample 2) :=
    sample_step h₁ (sample_armed 0 ⟨0, 200000⟩ ⟨rfl, by decide⟩ rfl (by decide)
      (by decide)) rfl
  have h₃ : Reachable Initial Step (sample 3) :=
    sample_step h₂ (a := .rilEventSet 1 (-1) false 7 1) ⟨rfl, by decide⟩ rfl
  have h₄ : Reachable Initial Step (sample 4) :=
    sample_step h₃ (sample_armed 1 ⟨5, 0⟩ ⟨rfl, by decide⟩ rfl (by decide)
      (by decide)) rfl
  exact sample_step h₄ (a := .rilEventSet 2 (-1) false 7 2) ⟨rfl, by decide⟩ rfl

theorem sample_asleep : Reachable Initial Step (sample 14) := by
  have h₆ : Reachable Initial Step (sample 6) := sample_step sample_five sample_equal rfl
  have h₇ : Reachable Initial Step (sample 7) :=
    sample_step h₆ (a := .rilEventSet 3 3 true 8 0) ⟨rfl, by decide⟩ rfl
  have h₈ : Reachable Initial Step (sample 8) :=
    sample_step h₇ (a := .rilEventAdd 3) ⟨⟨rfl, by decide⟩, _, rfl, by decide, by decide⟩ rfl
  have h₉ : Reachable Initial Step (sample 9) :=
    sample_step h₈ (a := .rilEventSet 4 5 false 9 0) ⟨rfl, by decide⟩ rfl
  have h₁₀ : Reachable Initial Step (sample 10) :=
    sample_step h₉ (a := .rilEventAdd 4) ⟨⟨rfl, by decide⟩, _, rfl, by decide, by decide⟩ rfl
  have h₁₁ : Reachable Initial Step (sample 11) := sample_step h₁₀ (a := .copyFds) rfl rfl
  have h₁₂ : Reachable Initial Step (sample 12) := sample_step h₁₁ (a := .loadTimer) ⟨_, rfl⟩ rfl
  have h₁₃ : Reachable Initial Step (sample 13) :=
    sample_step h₁₂ (a := .calcTimeout ⟨1, 0⟩) ⟨⟨_, _, rfl⟩, by decide, by decide⟩ rfl
  exact sample_step h₁₃ (a := .select {3, 5}) ⟨_, _, _, rfl, by decide⟩ rfl

theorem sample_due : Enabled (sample 14) (.processTimeouts ⟨2, 0⟩) :=
  ⟨⟨_, _, rfl⟩, by decide, by decide⟩

theorem sample_expired : Reachable Initial Step (sample 15) :=
  sample_step sample_asleep sample_due rfl

theorem sample_called : Reachable Initial Step (sample 19) := by
  have h₁₆ : Reachable Initial Step (sample 16) :=
    sample_step sample_expired (a := .processReadReadies) ⟨_, _, rfl⟩ rfl
  have h₁₇ : Reachable Initial Step (sample 17) := sample_step h₁₆ (a := .firePending) rfl rfl
  have h₁₈ : Reachable Initial Step (sample 18) := sample_step h₁₇ (a := .fireNext) ⟨_, rfl⟩ rfl
  exact sample_step h₁₈ (a := .fireNext) ⟨_, rfl⟩ rfl

end Sample

section Results

variable {r r' : Reactor} {timers : List Address} {a : Action}

/-- Whatever the threads do in between, each function follows only pointers to events that
are there, and comes back. -/
theorem follows_no_wild_pointer (h : Reachable Initial Step r) (henabled : Enabled r a) :
    ∃ least r', ∀ fuel ≥ least, exec fuel r a = some r' := by
  obtain ⟨timers, pending, hsound⟩ := reachable_sound h
  obtain ⟨least, r', -, -, hrun, -⟩ := sound_exec hsound henabled
  exact ⟨least, r', hrun⟩

theorem follows_no_wild_pointer_due :
    ∃ least r', ∀ fuel ≥ least, exec fuel (sample 14) (.processTimeouts ⟨2, 0⟩) = some r' :=
  follows_no_wild_pointer sample_asleep sample_due

/-- An event is on one of the rings once for each time that it was armed or ready and not
yet called, and what is moved to the pending events is called in the order in which it was
moved, all of it before the loop sleeps again. A timer is called after its deadline. -/
theorem called_once_in_order (h : Reachable Initial Step r) :
    ∃ timers pending, Rings r.events.mem .timerList timers .pendingList pending ∧
      (r.armed ++ r.readied).Perm (r.moved ++ timers) ∧
      r.moved = r.called.map (fun c => c.1.ev) ++ pending ∧
      (r.pc = .copy → pending = []) ∧
      ∀ c ∈ r.called, c.1.fd = -1 → c.1.timeout < c.2 := by
  obtain ⟨timers, pending, hsound⟩ := reachable_sound h
  refine ⟨timers, pending, hsound.timed.rings, hsound.counted, hsound.moved, ?_, hsound.called⟩
  intro hpc
  have hnone := hsound.pc
  unfold PcSound at hnone
  rw [hpc] at hnone
  exact hnone

theorem called_once_in_order_sample :
    ∃ timers pending, Rings (sample 19).events.mem .timerList timers .pendingList pending ∧
      ((sample 19).armed ++ (sample 19).readied).Perm ((sample 19).moved ++ timers) ∧
      (sample 19).moved = (sample 19).called.map (fun c => c.1.ev) ++ pending ∧
      ((sample 19).pc = .copy → pending = []) ∧
      ∀ c ∈ (sample 19).called, c.1.fd = -1 → c.1.timeout < c.2 :=
  called_once_in_order sample_called

theorem takeWhile_eq_filter {m : Memory} (now : Timeval) (h : timers.Pairwise (NotLater m)) :
    timers.takeWhile (due m now) = timers.filter (due m now) ∧
      timers.dropWhile (due m now) = timers.filter (fun a => !due m now a) := by
  induction timers with
  | nil => exact ⟨rfl, rfl⟩
  | cons b timers ih =>
      rw [List.pairwise_cons] at h
      cases hdue : due m now b with
      | true =>
          rw [List.takeWhile_cons_of_pos hdue, List.dropWhile_cons_of_pos hdue,
            List.filter_cons_of_pos hdue, (ih h.2).1, (ih h.2).2]
          refine ⟨rfl, ?_⟩
          rw [List.filter_cons_of_neg]
          simp [hdue]
      | false =>
          -- what follows is not earlier, so none of it is due
          have hlate : ∀ c ∈ timers, due m now c = false := by
            intro c hc
            have hle : deadline m b ≤ deadline m c := h.1 c hc
            have hb : ¬ deadline m b < now := of_decide_eq_false hdue
            exact decide_eq_false (fun hlt => hb (lt_of_le_of_lt hle hlt))
          rw [List.takeWhile_cons_of_neg (by simp [hdue]),
            List.dropWhile_cons_of_neg (by simp [hdue])]
          constructor
          · symm
            rw [List.filter_eq_nil_iff]
            intro c hc
            rcases List.mem_cons.mp hc with rfl | hc
            · simp [hdue]
            · simp [hlate c hc]
          · symm
            rw [List.filter_eq_self]
            intro c hc
            rcases List.mem_cons.mp hc with rfl | hc
            · simp [hdue]
            · simp [hlate c hc]

/-- A new timer is put in front of the timers that are not earlier, so that of two with one
deadline the later armed is called first. -/
theorem armed_before_equal {n : Nat} {tv now : Timeval} (h : Reachable Initial Step r)
    (hstep : Step r (.rilTimerAdd n (some tv) now) r') :
    ∃ earlier later pending, Rings r.events.mem .timerList (earlier ++ later) .pendingList pending ∧
      (∀ a ∈ earlier, deadline r.events.mem a < timeradd now tv) ∧
      (∀ a ∈ later, timeradd now tv ≤ deadline r.events.mem a) ∧
      Rings r'.events.mem .timerList (earlier ++ .event n :: later) .pendingList pending ∧
      deadline r'.events.mem (.event n) = timeradd now tv := by
  obtain ⟨timers, pending, hsound⟩ := reachable_sound h
  obtain ⟨henabled, fuel, hexec⟩ := hstep
  obtain ⟨hidle, ⟨e, he⟩, -⟩ := henabled
  obtain ⟨mem, hadd, hrings, hdata⟩ :=
    rilTimerAdd_eq tv now hsound.timed.rings he hidle.1 (Nat.lt_succ_self timers.length)
  have hr' : r' = { r with events := { r.events with mem }, clock := now,
                           armed := r.armed ++ [.event n], since := r.since ++ [.event n] } := by
    apply exec_unique (timers.length + 1) hexec
    intro fuel hfuel
    simp only [exec, rilTimerAdd_mono hadd hfuel, Option.bind_eq_bind, Option.bind_some,
      Option.toList_some, List.map_cons, List.map_nil]
  have hne := hsound.timed.ne_of_idle hidle.1
  have hdeadline : deadline mem (.event n) = timeradd now tv := by
    rw [hdata.deadline, deadline_eq (Function.update_self ..)]
  have hsame : ∀ a ∈ timers, deadline mem a = deadline r.events.mem a := by
    intro a ha
    rw [hdata.deadline, deadline_update_of_ne (hne a (.inl ha))]
  obtain ⟨htake, hdrop⟩ := takeWhile_eq_filter (timeradd now tv) hsound.timed.sorted
  rw [← orderedInsert_eq hsame, hdeadline, htake, hdrop] at hrings
  refine ⟨timers.filter (due r.events.mem (timeradd now tv)),
    timers.filter (fun a => !due r.events.mem (timeradd now tv) a), pending, ?_, ?_, ?_, ?_, ?_⟩
  · rw [← htake, ← hdrop, List.takeWhile_append_dropWhile]
    exact hsound.timed.rings
  · intro a ha
    exact of_decide_eq_true (List.mem_filter.mp ha).2
  · intro a ha
    have hlate := (List.mem_filter.mp ha).2
    rw [Bool.not_eq_true'] at hlate
    exact not_lt.mp (of_decide_eq_false hlate)
  · rw [hr']
    exact hrings
  · rw [hr']
    exact hdeadline

/-- The third timer, beside an earlier one and one with its deadline. -/
theorem armed_before_equal_third :
    ∃ earlier later pending,
      Rings (sample 5).events.mem .timerList (earlier ++ later) .pendingList pending ∧
      (∀ a ∈ earlier, deadline (sample 5).events.mem a < timeradd ⟨1, 0⟩ ⟨5, 0⟩) ∧
      (∀ a ∈ later, timeradd ⟨1, 0⟩ ⟨5, 0⟩ ≤ deadline (sample 5).events.mem a) ∧
      Rings (sample 6).events.mem .timerList (earlier ++ .event 2 :: later) .pendingList pending ∧
      deadline (sample 6).events.mem (.event 2) = timeradd ⟨1, 0⟩ ⟨5, 0⟩ :=
  armed_before_equal sample_five ⟨sample_equal, 4, rfl⟩

/-- The timers that are due at a look at the clock are all moved, the earliest first, and no
other. -/
theorem expires_in_order {now : Timeval} (h : Reachable Initial Step r)
    (hstep : Step r (.processTimeouts now) r') :
    ∃ timers, Rings r.events.mem .timerList timers .pendingList [] ∧
      timers.Pairwise (NotLater r.events.mem) ∧
      r'.moved = r.moved ++ timers.filter (due r.events.mem now) ∧
      Rings r'.events.mem .timerList (timers.filter (fun a => !due r.events.mem now a))
        .pendingList (timers.filter (due r.events.mem now)) := by
  obtain ⟨timers, pending, hsound⟩ := reachable_sound h
  obtain ⟨⟨⟨rfds, n, hpc⟩, -⟩, fuel, hexec⟩ := hstep
  obtain ⟨r'', mem, hr'', hrun, -, hsound'⟩ := sound_processTimeouts hsound hpc
  have hr' : r' = r'' := exec_unique (timers.length + 1) hexec hrun
  have hmoved : r''.moved = r.moved ++ timers.takeWhile (due r.events.mem now) := by rw [hr'']
  have htimeouts := hsound.pc
  unfold PcSound at htimeouts
  rw [hpc] at htimeouts
  obtain ⟨hnone, -⟩ := htimeouts
  obtain ⟨htake, hdrop⟩ := takeWhile_eq_filter now hsound.timed.sorted
  rw [htake] at hmoved hsound'
  rw [hdrop] at hsound'
  rw [hr']
  refine ⟨timers, ?_, hsound.timed.sorted, hmoved, hsound'.timed.rings⟩
  rw [← hnone]
  exact hsound.timed.rings

theorem expires_in_order_sample :
    ∃ timers, Rings (sample 14).events.mem .timerList timers .pendingList [] ∧
      timers.Pairwise (NotLater (sample 14).events.mem) ∧
      (sample 15).moved = (sample 14).moved ++ timers.filter (due (sample 14).events.mem ⟨2, 0⟩) ∧
      Rings (sample 15).events.mem .timerList
        (timers.filter (fun a => !due (sample 14).events.mem ⟨2, 0⟩ a))
        .pendingList (timers.filter (due (sample 14).events.mem ⟨2, 0⟩)) :=
  expires_in_order sample_asleep ⟨sample_due, 4, rfl⟩

/-- `select` is asked for the descriptors of the table, with the bound that belongs to them,
and an event knows whether it is in the table. -/
theorem asks_for_watched (h : Reachable Initial Step r) : Watches r.events := by
  obtain ⟨timers, pending, hsound⟩ := reachable_sound h
  exact hsound.watches

theorem asks_for_watched_sample : Watches (sample 14).events := asks_for_watched sample_asleep

/-- Every watched event whose descriptor is ready becomes pending, in the order of the
slots, though `select` has only counted descriptors. It stays in the table if it is
persistent. -/
theorem ready_become_pending {rfds : Finset Int} {n : Int} (h : Reachable Initial Step r)
    (hpc : r.pc = .readies rfds n) (hstep : Step r .processReadReadies r') :
    r'.moved = r.moved ++ readyList r.events rfds ∧
      r'.events.watchTable = slotAfter r.events rfds (List.finRange MAX_FD_EVENTS) := by
  obtain ⟨timers, pending, hsound⟩ := reachable_sound h
  obtain ⟨-, fuel, hexec⟩ := hstep
  obtain ⟨r'', events, hr'', hrun, htable, -, -⟩ := sound_processReadReadies hsound hpc
  rw [exec_unique 0 hexec (fun fuel _ => hrun fuel), hr'']
  exact ⟨rfl, htable⟩

theorem ready_become_pending_sample :
    (sample 16).moved = (sample 15).moved ++ readyList (sample 15).events {3, 5} ∧
      (sample 16).events.watchTable =
        slotAfter (sample 15).events {3, 5} (List.finRange MAX_FD_EVENTS) :=
  ready_become_pending sample_expired rfl ⟨⟨_, _, rfl⟩, 4, rfl⟩

end Results

end MeizuM5c.Ril.Events
