import MeizuM5c.Ril.CallbackPlaces

/-!
The steps of the loop, and what holds in every run: no timer is slept through, and the
block of each callback is handed over once.
-/

namespace MeizuM5c.Ril.Events

open Lib

section Loop

variable {c : Callbacks} {timers pending : List Address} {a : Action}

/-- The wakeup event is set up and put into the table. -/
theorem kept_addWakeup (h : Kept c timers pending) {fd : Int}
    (hallowed : Allowed c (.addWakeup fd)) :
    ∃ c', (∀ fuel, c.addWakeup fuel fd = some c') ∧ Kept c' timers pending := by
  obtain ⟨hbefore, hfd⟩ := hallowed
  obtain ⟨hpc, hthread, hnext, htable, hfits⟩ := h.before hbefore
  have hidle : Idle c.reactor.events wakeupEvent := by
    refine ⟨hnext, ?_⟩
    intro i hi
    rw [htable i] at hi
    cases hi
  let e : RilEvent :=
    { fd, index := -1, persist := true, func := PROCESS_WAKEUP_CALLBACK, param := 0 }
  let r₁ : Reactor := { c.reactor with
    events := rilEventSet wakeupEvent fd true PROCESS_WAKEUP_CALLBACK 0 c.reactor.events }
  have hmem₁ : r₁.events.mem = Function.update c.reactor.events.mem wakeupEvent (some e) := rfl
  have he : r₁.events.mem wakeupEvent = some e := by rw [hmem₁, Function.update_self]
  have hsound₁ : Sound r₁ timers pending :=
    sound_rilEventSet h.sound hidle fd true PROCESS_WAKEUP_CALLBACK 0
  have hreach₁ : Reachable Initial Step r₁ :=
    h.reachable.next (.rilEventSet 0 fd true PROCESS_WAKEUP_CALLBACK 0) ⟨hidle, 0, rfl⟩
  have hnone : ∀ i, fdAt r₁.events i = none := by
    intro i
    unfold fdAt
    rw [show r₁.events.watchTable i = none from htable i]
    rfl
  have hout : ∀ i, r₁.events.watchTable i ≠ some wakeupEvent := hidle.2
  have hnew : ∀ i, fdAt r₁.events i ≠ some e.fd := by
    intro i
    rw [hnone i]
    simp
  have henabled : Enabled r₁ (.rilEventAdd 0) :=
    ⟨⟨nextOf_of_some he, hout⟩, e, he, hfits fd hfd, hnew⟩
  -- the table is empty
  cases hfree : freeSlot r₁.events with
  | none =>
      have hslot : 0 < MAX_FD_EVENTS := by decide
      exact absurd (htable ⟨0, hslot⟩) (freeSlot_eq_none.mp hfree ⟨0, hslot⟩)
  | some i =>
      obtain ⟨hadd, -⟩ := rilEventAdd_eq hsound₁.watches hfree rfl he (hfits fd hfd) hout hnew
      change rilEventAdd (.event 0) r₁.events = some (r₁.events.watch i wakeupEvent e) at hadd
      obtain ⟨events, hadd', hsound₂⟩ := sound_rilEventAdd hsound₁ henabled
      have hevents : r₁.events.watch i wakeupEvent e = events :=
        Option.some.inj (hadd.symm.trans hadd')
      subst hevents
      let r₂ : Reactor := { r₁ with events := r₁.events.watch i wakeupEvent e }
      have hexec : ∀ fuel, exec fuel r₁ (.rilEventAdd 0) = some r₂ := by
        intro fuel
        unfold exec
        simp only [Option.bind_eq_bind, hadd, Option.bind_some]
        rfl
      have hmem₂ : r₂.events.mem =
          Function.update c.reactor.events.mem wakeupEvent (some { e with index := ((i : Nat) : Int) }) := by
        change Function.update r₁.events.mem wakeupEvent _ = _
        rw [hmem₁, Function.update_idem]
      have hwakeup : r₂.events.mem wakeupEvent = some { e with index := ((i : Nat) : Int) } := by
        rw [hmem₂, Function.update_self]
      have hinfo : ∀ n, r₂.events.mem (infoEvent n) = c.reactor.events.mem (infoEvent n) := by
        intro n
        rw [hmem₂, Function.update_of_ne (by simp [wakeupEvent, infoEvent])]
      refine ⟨{ c with reactor := r₂, started := true }, ?_, ?_⟩
      · intro fuel
        unfold Callbacks.addWakeup
        change (exec fuel r₁ _).bind _ = _
        rw [hexec fuel]
        rfl
      · refine { h with
          reachable := hreach₁.next (.rilEventAdd 0) ⟨henabled, 0, hexec 0⟩
          sound := hsound₂
          laid := ?_, only := ?_, started := ?_, before := ?_, roused := ?_ }
        · refine ⟨?_, ?_, ?_⟩
          · intro n
            simp only
            rw [hinfo n]
            exact h.laid.stored n
          · intro n f hf
            simp only at hf
            rw [hinfo n] at hf
            exact h.laid.info n f hf
          · intro f hf
            simp only at hf
            rw [hwakeup] at hf
            rw [← Option.some.inj hf]
        · intro j b hb
          change Function.update c.reactor.events.watchTable i (some wakeupEvent) j = some b at hb
          by_cases hj : j = i
          · rw [hj, Function.update_self] at hb
            exact (Option.some.inj hb).symm
          · rw [Function.update_of_ne hj, htable j] at hb
            cases hb
        · intro _
          refine ⟨fd, i, hfd, ?_, ?_, ?_⟩
          · exact Function.update_self ..
          · exact fdOf_eq hwakeup
          · exact persistOf_eq hwakeup
        · intro hnot
          cases hnot
        · have hpc₂ : r₂.pc = .copy := hpc
          unfold Roused
          rw [hpc₂]
          trivial

/-- A step of the loop that calls nothing. -/
theorem Kept.loop (h : Kept c timers pending) (hallowed : Allowed c (.loop a)) {r' : Reactor}
    {timers' pending' : List Address} (least : Nat)
    (hexec : ∀ fuel ≥ least, exec fuel c.reactor a = some r') (hsound : Sound r' timers' pending')
    (hsame : SameFixed c.reactor.events.mem r'.events.mem)
    (htable : r'.events.watchTable = c.reactor.events.watchTable)
    (harmed : r'.armed = c.reactor.armed) (hcalled : r'.called = c.reactor.called)
    (hreadied : ∀ b ∈ r'.readied, b = wakeupEvent)
    (hplaces : ((timers' ++ pending').filterMap infoOf).Perm ((timers ++ pending).filterMap infoOf))
    (hroused : Roused { c with reactor := r' }) :
    ∃ least c' timers' pending', (∀ fuel ≥ least, c.loopStep fuel a = some c') ∧
      Kept c' timers' pending' := by
  obtain ⟨hstarted, hthread, -, henabled⟩ := hallowed
  have hperm : (places { c with reactor := r' } (timers' ++ pending')).Perm
      (places c (timers ++ pending)) := hplaces.append_right _
  refine ⟨least, { c with reactor := r' }, timers', pending', ?_, ?_⟩
  · intro fuel hfuel
    unfold Callbacks.loopStep
    simp only [Option.bind_eq_bind, hexec fuel hfuel, Option.bind_some, hcalled, List.drop_length,
      List.foldl_nil]
  · refine { h with
      reachable := h.reachable.next a ⟨henabled, least, hexec least le_rfl⟩
      sound := hsound
      laid := h.laid.sameFixed hsame
      only := ?_, started := ?_, before := ?_, live := ?_
      placed := hperm.nodup_iff.mpr h.placed
      handed := ?_, armed := ?_, readied := hreadied, firing := ?_, roused := hroused }
    · simp only
      rw [htable]
      exact h.only
    · intro _
      obtain ⟨fd, i, hfd, hi, hfdOf, hpersist⟩ := h.started hstarted
      refine ⟨fd, i, hfd, ?_, ?_, ?_⟩
      · simp only
        rw [htable]
        exact hi
      · simp only
        rw [hsame.fdOf]
        exact hfdOf
      · simp only
        rw [hsame.persistOf]
        exact hpersist
    · intro hnot
      rw [hstarted] at hnot
      cases hnot
    · exact fun k => (h.live k).trans hperm.mem_iff.symm
    · simp only
      rw [hcalled]
      exact h.handed
    · simp only
      rw [harmed]
      exact h.armed
    · exact fun hne => absurd hthread hne

/-- The function of a block's event takes the block along, and that of the pipe nothing. -/
theorem Kept.call (h : Kept c timers pending) {ev : Address} {e : RilEvent}
    (he : c.reactor.events.mem ev = some e) (hev : ∃ k, ev = .event k) (clock : Timeval) :
    current (threadOf ⟨ev, e.func, e.fd, e.param, clock⟩) = (infoOf ev).toList := by
  obtain ⟨k, rfl⟩ := hev
  unfold threadOf
  cases k with
  | zero =>
      have hfunc := h.laid.wakeup e he
      rw [if_neg]
      · rfl
      · simp [hfunc, PROCESS_WAKEUP_CALLBACK, USER_TIMER_CALLBACK]
  | succ n =>
      obtain ⟨hfunc, hparam, -⟩ := h.laid.info n e he
      rw [if_pos hfunc]
      simp only
      rw [hparam]
      rfl

/-- The pipe is among the descriptors that are watched. -/
theorem Kept.watched (h : Kept c timers pending) (hstarted : c.started = true) :
    ∃ fd, c.wakeupFd = some fd ∧ fd ∈ c.reactor.events.readFds := by
  obtain ⟨fd, i, hfd, hi, hfdOf, -⟩ := h.started hstarted
  obtain ⟨e, he, -, -⟩ := h.sound.watches.event i wakeupEvent hi
  refine ⟨fd, hfd, (h.sound.watches.readFds fd).mpr ⟨i, ?_⟩⟩
  rw [fdAt_eq hi he, ← hfdOf, fdOf_eq he]

/-- Only the pipe can be ready, and it stays watched. -/
theorem Kept.ready (h : Kept c timers pending) (hstarted : c.started = true) (rfds : Finset Int) :
    (∀ b ∈ readyList c.reactor.events rfds, b = wakeupEvent) ∧
      slotAfter c.reactor.events rfds (List.finRange MAX_FD_EVENTS) =
        c.reactor.events.watchTable := by
  obtain ⟨-, -, -, -, -, hpersist⟩ := h.started hstarted
  have hready : ∀ i b, readyAt c.reactor.events rfds i = some b → b = wakeupEvent :=
    fun i b hb => h.only i b (readyAt_eq_some.mp hb).1
  constructor
  · intro b hb
    obtain ⟨i, -, hi⟩ := List.mem_filterMap.mp hb
    exact hready i b hi
  · funext i
    unfold slotAfter
    rw [if_neg]
    rintro ⟨-, hany⟩
    cases hb : readyAt c.reactor.events rfds i with
    | none =>
        rw [hb] at hany
        cases hany
    | some b =>
        rw [hb, hready i b hb, Option.any_some, hpersist] at hany
        cases hany

theorem kept_copyFds (h : Kept c timers pending) (hallowed : Allowed c (.loop .copyFds)) :
    ∃ least c' timers' pending', (∀ fuel ≥ least, c.loopStep fuel .copyFds = some c') ∧
      Kept c' timers' pending' := by
  have hstarted := hallowed.1
  exact h.loop hallowed 0 (fun _ _ => rfl) (sound_copyFds h.sound hallowed.2.2.2) (SameFixed.refl _)
    rfl rfl rfl h.readied (List.Perm.refl _) (h.watched hstarted)

theorem kept_loadTimer (h : Kept c timers pending) (hallowed : Allowed c (.loop .loadTimer)) :
    ∃ least c' timers' pending', (∀ fuel ≥ least, c.loopStep fuel .loadTimer = some c') ∧
      Kept c' timers' pending' := by
  obtain ⟨rfds, hpc⟩ := hallowed.2.2.2
  obtain ⟨hexec, hsound⟩ := sound_loadTimer h.sound hpc
  have hroused := h.roused
  unfold Roused at hroused
  rw [hpc] at hroused
  exact h.loop hallowed 0 (fun fuel _ => hexec fuel) hsound (SameFixed.refl _) rfl rfl rfl h.readied
    (List.Perm.refl _) ⟨hroused, .inl rfl⟩

theorem kept_calcTimeout (h : Kept c timers pending) {now : Timeval}
    (hallowed : Allowed c (.loop (.calcTimeout now))) :
    ∃ least c' timers' pending', (∀ fuel ≥ least, c.loopStep fuel (.calcTimeout now) = some c') ∧
      Kept c' timers' pending' := by
  obtain ⟨⟨rfds, tev, hpc⟩, hclock, -⟩ := hallowed.2.2.2
  obtain ⟨tv, hexec, hsound⟩ := sound_calcTimeout h.sound hpc hclock
  have hroused := h.roused
  unfold Roused at hroused
  rw [hpc] at hroused
  exact h.loop hallowed 0 (fun fuel _ => hexec fuel) hsound (SameFixed.refl _) rfl rfl rfl h.readied
    (List.Perm.refl _) hroused

theorem kept_select (h : Kept c timers pending) {rfds : Finset Int}
    (hallowed : Allowed c (.loop (.select rfds))) :
    ∃ least c' timers' pending', (∀ fuel ≥ least, c.loopStep fuel (.select rfds) = some c') ∧
      Kept c' timers' pending' :=
  h.loop hallowed 0 (fun _ _ => rfl) (sound_select h.sound hallowed.2.2.2) (SameFixed.refl _) rfl rfl
    rfl h.readied (List.Perm.refl _) trivial

theorem kept_selectFails (h : Kept c timers pending) {eintr : Bool}
    (hallowed : Allowed c (.loop (.selectFails eintr))) :
    ∃ least c' timers' pending', (∀ fuel ≥ least, c.loopStep fuel (.selectFails eintr) = some c') ∧
      Kept c' timers' pending' := by
  refine h.loop hallowed 0 (fun _ _ => rfl) (sound_selectFails h.sound hallowed.2.2.2)
    (SameFixed.refl _) rfl rfl rfl h.readied (List.Perm.refl _) ?_
  cases eintr with
  | true => trivial
  | false => trivial

theorem kept_processTimeouts (h : Kept c timers pending) {now : Timeval}
    (hallowed : Allowed c (.loop (.processTimeouts now))) :
    ∃ least c' timers' pending', (∀ fuel ≥ least, c.loopStep fuel (.processTimeouts now) = some c') ∧
      Kept c' timers' pending' := by
  obtain ⟨⟨rfds, n, hpc⟩, -⟩ := hallowed.2.2.2
  obtain ⟨r', mem, hr', hexec, hsame, hsound⟩ := sound_processTimeouts h.sound hpc
  have hnone := h.sound.pc
  unfold PcSound at hnone
  rw [hpc] at hnone
  have hmem : r'.events.mem = mem := by rw [hr']
  refine h.loop hallowed (timers.length + 1) hexec hsound ?_ ?_ ?_ ?_ ?_ ?_ ?_
  · rw [hmem]
    exact hsame
  · rw [hr']
  · rw [hr']
  · rw [hr']
  · rw [hr']
    exact h.readied
  · apply List.Perm.filterMap
    rw [hnone.1, List.append_nil]
    have hboth : (timers.dropWhile (due c.reactor.events.mem now) ++
        timers.takeWhile (due c.reactor.events.mem now)).Perm
        (timers.takeWhile (due c.reactor.events.mem now) ++
          timers.dropWhile (due c.reactor.events.mem now)) := List.perm_append_comm
    rwa [List.takeWhile_append_dropWhile] at hboth
  · unfold Roused
    rw [hr']
    trivial

theorem kept_processReadReadies (h : Kept c timers pending)
    (hallowed : Allowed c (.loop .processReadReadies)) :
    ∃ least c' timers' pending', (∀ fuel ≥ least, c.loopStep fuel .processReadReadies = some c') ∧
      Kept c' timers' pending' := by
  obtain ⟨rfds, n, hpc⟩ := hallowed.2.2.2
  obtain ⟨r', events, hr', hexec, htable, hsame, hsound⟩ := sound_processReadReadies h.sound hpc
  obtain ⟨hready, hslots⟩ := h.ready hallowed.1 rfds
  have hnone : (readyList c.reactor.events rfds).filterMap infoOf = [] := by
    rw [List.filterMap_eq_nil_iff]
    intro b hb
    rw [hready b hb]
    rfl
  have hevents : r'.events = events := by rw [hr']
  refine h.loop hallowed 0 (fun fuel _ => hexec fuel) hsound ?_ ?_ ?_ ?_ ?_ ?_ ?_
  · rw [hevents]
    exact hsame
  · rw [hevents, htable, hslots]
  · rw [hr']
  · rw [hr']
  · rw [hr']
    intro b hb
    rcases List.mem_append.mp hb with hb | hb
    · exact h.readied b hb
    · exact hready b hb
  · rw [← List.append_assoc, List.filterMap_append, hnone, List.append_nil]
  · unfold Roused
    rw [hr']
    trivial

theorem kept_firePending (h : Kept c timers pending) (hallowed : Allowed c (.loop .firePending)) :
    ∃ least c' timers' pending', (∀ fuel ≥ least, c.loopStep fuel .firePending = some c') ∧
      Kept c' timers' pending' := by
  obtain ⟨hexec, hsound⟩ := sound_firePending h.sound
  exact h.loop hallowed 0 (fun fuel _ => hexec fuel) hsound (SameFixed.refl _) rfl rfl rfl h.readied
    (List.Perm.refl _) trivial

theorem kept_fireNext (h : Kept c timers pending) (hallowed : Allowed c (.loop .fireNext)) :
    ∃ least c' timers' pending', (∀ fuel ≥ least, c.loopStep fuel .fireNext = some c') ∧
      Kept c' timers' pending' := by
  have hstarted := hallowed.1
  have hthread := hallowed.2.1
  have henabled := hallowed.2.2.2
  obtain ⟨ev, hpc⟩ := henabled
  by_cases hev : ev = .pendingList
  · rw [hev] at hpc
    refine h.loop hallowed 0 ?_ (sound_fireEnd h.sound hpc) (SameFixed.refl _) rfl rfl rfl h.readied
      (List.Perm.refl _) trivial
    intro fuel _
    simp only [exec, hpc, if_true]
  · obtain ⟨rest, e, mem, r', hpending, he, hr', hexec, hsame, hsound⟩ :=
      sound_fireNext h.sound hpc hev
    have hclient : ∃ k, ev = .event k := by
      cases ev with
      | event k => exact ⟨k, rfl⟩
      | pendingList => exact absurd rfl hev
      | timerList =>
          have hin : Address.timerList ∈ Address.pendingList :: pending := by
            rw [hpending]
            simp
          exact absurd hin (h.sound.timed.rings.apart _ List.mem_cons_self)
    let call : Call := ⟨ev, e.func, e.fd, e.param, e.timeout⟩
    have hcurrent : current (threadOf call) = (infoOf ev).toList := h.call he hclient e.timeout
    have hnone : current c.thread = [] := by
      rw [hthread]
      rfl
    have hcalled : r'.called = c.reactor.called ++ [(call, c.reactor.clock)] := by rw [hr']
    have hmem : r'.events.mem = mem := by rw [hr']
    have htable : r'.events.watchTable = c.reactor.events.watchTable := by rw [hr']
    let c' : Callbacks := { c with reactor := r', thread := threadOf call }
    -- the block goes from the ring to the loop's thread
    have hperm : (places c' (timers ++ rest)).Perm (places c (timers ++ pending)) := by
      rw [List.perm_iff_count]
      intro k
      have hlinked : (ev :: rest).filterMap infoOf = (infoOf ev).toList ++ rest.filterMap infoOf := by
        cases hinfo : infoOf ev with
        | none => rw [List.filterMap_cons_none hinfo, Option.toList_none, List.nil_append]
        | some n => rw [List.filterMap_cons_some hinfo, Option.toList_some, List.singleton_append]
      simp only [c', places, hcurrent, hnone, hpending, List.filterMap_append, hlinked,
        List.count_append, List.count_nil]
      omega
    refine ⟨0, c', timers, rest, ?_, ?_⟩
    · intro fuel _
      unfold Callbacks.loopStep
      simp only [Option.bind_eq_bind, hexec fuel, Option.bind_some, hcalled, List.drop_left,
        List.foldl_cons, List.foldl_nil]
      rfl
    · refine { h with
        reachable := h.reachable.next .fireNext ⟨⟨ev, hpc⟩, 0, hexec 0⟩
        sound := hsound
        laid := ?_, only := ?_, started := ?_, before := ?_, live := ?_
        placed := hperm.nodup_iff.mpr h.placed
        handed := ?_, armed := ?_, readied := ?_, firing := ?_, roused := ?_ }
      · apply h.laid.sameFixed
        simp only [c', hmem]
        exact hsame
      · simp only [c', htable]
        exact h.only
      · intro _
        obtain ⟨fd, i, hfd, hi, hfdOf, hpersist⟩ := h.started hstarted
        refine ⟨fd, i, hfd, ?_, ?_, ?_⟩
        · simp only [c', htable]
          exact hi
        · simp only [c', hmem]
          rw [hsame.fdOf]
          exact hfdOf
        · simp only [c', hmem]
          rw [hsame.persistOf]
          exact hpersist
      · intro hnot
        simp only [c', hstarted] at hnot
        cases hnot
      · exact fun k => (h.live k).trans hperm.mem_iff.symm
      · have hhanded := h.handed
        rw [hnone, List.append_nil] at hhanded
        simp only [c', hcurrent, hcalled, List.map_append, List.filterMap_append, ← hhanded]
        cases hinfo : infoOf ev with
        | none => simp [call, hinfo]
        | some n => simp [call, hinfo]
      · simp only [c', hr']
        exact h.armed
      · simp only [c', hr']
        exact h.readied
      · intro _
        exact ⟨rest.headD .pendingList, by simp only [c', hr']⟩
      · unfold Roused
        simp only [c', hr']

/-- With enough fuel each step has a result, and the block of each callback is somewhere. -/
theorem kept_perform (h : Kept c timers pending) {a : CallbackAction} (hallowed : Allowed c a) :
    ∃ least c' timers' pending', (∀ fuel ≥ least, perform fuel c a = some c') ∧
      Kept c' timers' pending' := by
  cases a with
  | openPipe fd => exact ⟨0, _, timers, pending, fun _ _ => rfl, kept_openPipe h hallowed⟩
  | addWakeup fd =>
      obtain ⟨c', hrun, hkept⟩ := kept_addWakeup h hallowed
      exact ⟨0, c', timers, pending, fun fuel _ => hrun fuel, hkept⟩
  | request n callback param relativeTime cid now =>
      obtain ⟨least, c', timers', hrun, hkept⟩ := kept_request h hallowed
      exact ⟨least, c', timers', pending, hrun, hkept⟩
  | triggerEvLoop => exact ⟨0, _, timers, pending, fun _ _ => rfl, kept_triggerEvLoop h⟩
  | loop a =>
      cases a with
      | copyFds => exact kept_copyFds h hallowed
      | loadTimer => exact kept_loadTimer h hallowed
      | calcTimeout now => exact kept_calcTimeout h hallowed
      | select rfds => exact kept_select h hallowed
      | selectFails eintr => exact kept_selectFails h hallowed
      | processTimeouts now => exact kept_processTimeouts h hallowed
      | processReadReadies => exact kept_processReadReadies h hallowed
      | firePending => exact kept_firePending h hallowed
      | fireNext => exact kept_fireNext h hallowed
      | _ => cases hallowed.2.2.1
  | processWakeupCallback =>
      exact ⟨0, _, timers, pending, fun _ _ => rfl, kept_processWakeupCallback h hallowed⟩
  | enqueue n => exact ⟨0, _, timers, pending, fun _ _ => rfl, kept_enqueue h hallowed⟩
  | run n =>
      obtain ⟨c', hrun, hkept⟩ := kept_run h hallowed
      exact ⟨0, c', timers, pending, fun _ _ => hrun, hkept⟩
  | finish n param => exact ⟨0, _, timers, pending, fun _ _ => rfl, kept_finish h hallowed⟩
  | release n =>
      obtain ⟨c', hrun, hkept⟩ := kept_release h hallowed
      exact ⟨0, c', timers, pending, fun fuel _ => hrun fuel, hkept⟩
  | setParam n param =>
      exact ⟨0, _, timers, pending, fun _ _ => rfl, kept_setParam h param⟩

theorem perform_mono {a : CallbackAction} {c' : Callbacks} {fuel fuel' : Nat}
    (h : perform fuel c a = some c') (hle : fuel ≤ fuel') : perform fuel' c a = some c' := by
  cases a with
  | request n callback param relativeTime cid now =>
      unfold perform Callbacks.internalRequestTimedCallback at h ⊢
      simp only [Option.bind_eq_bind, Option.bind_eq_some_iff] at h ⊢
      obtain ⟨r₁, hset, r₂, hadd, h⟩ := h
      exact ⟨r₁, exec_mono hset hle, r₂, exec_mono hadd hle, h⟩
  | loop a =>
      unfold perform Callbacks.loopStep at h ⊢
      simp only [Option.bind_eq_bind, Option.bind_eq_some_iff] at h ⊢
      obtain ⟨r', hexec, h⟩ := h
      exact ⟨r', exec_mono hexec hle, h⟩
  | _ => exact h

theorem kept_initial (h : CallbackInitial c) : Kept c [] [] := by
  obtain ⟨reactor, hinitial, rfl⟩ := h
  have hsound := sound_initial hinitial
  have hreach : Reachable Initial Step reactor := .init hinitial
  obtain ⟨clock, -, rfl⟩ := hinitial
  have hevent : ∀ n, (rilEventInit State.static).mem (.event n) = none := fun n => rfl
  have hwatch : ∀ i, (rilEventInit State.static).watchTable i = none := fun i => rfl
  refine ⟨hreach, hsound, ⟨?_, ?_, ?_⟩, ?_, ?_, ?_, ?_, ?_, rfl, rfl, ?_, ?_, trivial⟩
  · exact fun n => rfl
  · intro n e he
    have hnone := hevent (n + 1)
    simp only [infoEvent] at he
    rw [hnone] at he
    cases he
  · intro e he
    have hnone := hevent 0
    simp only [wakeupEvent] at he
    rw [hnone] at he
    cases he
  · intro i a ha
    simp only at ha
    rw [hwatch i] at ha
    cases ha
  · intro hstarted
    cases hstarted
  · intro _
    refine ⟨rfl, rfl, rfl, hwatch, ?_⟩
    intro fd hfd
    cases hfd
  · intro n
    exact iff_of_false (by simp) (by simp [places, current])
  · simp [places, current]
  · exact fun a ha => absurd ha List.not_mem_nil
  · exact fun hne => absurd rfl hne

theorem reachable_kept (h : Reachable CallbackInitial CallbackStep c) :
    ∃ timers pending, Kept c timers pending := by
  apply h.invariant (P := fun c => ∃ timers pending, Kept c timers pending)
  · exact fun c hc => ⟨[], [], kept_initial hc⟩
  · rintro c a c' ⟨timers, pending, hkept⟩ ⟨hallowed, fuel, hrun⟩
    obtain ⟨least, c'', timers', pending', hleast, hkept'⟩ := kept_perform hkept hallowed
    have hboth := perform_mono hrun (Nat.le_max_left fuel least)
    rw [hleast _ (Nat.le_max_right fuel least)] at hboth
    rw [← Option.some.inj hboth]
    exact ⟨timers', pending', hkept'⟩

end Loop

section Sample

/-- A callback is asked for while the loop is about to sleep. -/
def callbackActions : List CallbackAction :=
  [.openPipe 3, .addWakeup 3, .loop .copyFds, .loop .loadTimer, .loop (.calcTimeout ⟨1, 0⟩),
    .request 0 (.vendor 7) 5 (some ⟨0, 200000⟩) (-1) ⟨1, 0⟩]

def callbackRun : List CallbackAction → Callbacks → Callbacks
  | [], c => c
  | a :: actions, c => callbackRun actions ((perform 3 c a).getD c)

/-- The state after some of the actions. -/
def callbackSample (k : Nat) : Callbacks :=
  callbackRun (callbackActions.take k)
    { reactor := { events := rilEventInit State.static, clock := ⟨0, 0⟩ } }

theorem callbackSample_step {k : Nat} {a : CallbackAction}
    (h : Reachable CallbackInitial CallbackStep (callbackSample k))
    (hallowed : Allowed (callbackSample k) a)
    (hrun : perform 3 (callbackSample k) a = some (callbackSample (k + 1))) :
    Reachable CallbackInitial CallbackStep (callbackSample (k + 1)) := h.next a ⟨hallowed, 3, hrun⟩

theorem callbackSample_request :
    Allowed (callbackSample 5) (.request 0 (.vendor 7) 5 (some ⟨0, 200000⟩) (-1) ⟨1, 0⟩) :=
  ⟨rfl, by decide, by decide, by decide⟩

theorem callbackSample_five : Reachable CallbackInitial CallbackStep (callbackSample 5) := by
  have h₀ : Reachable CallbackInitial CallbackStep (callbackSample 0) :=
    .init ⟨_, ⟨⟨0, 0⟩, by decide, rfl⟩, rfl⟩
  have h₁ : Reachable CallbackInitial CallbackStep (callbackSample 1) :=
    callbackSample_step h₀ (a := .openPipe 3) ⟨rfl, by decide⟩ rfl
  have h₂ : Reachable CallbackInitial CallbackStep (callbackSample 2) :=
    callbackSample_step h₁ (a := .addWakeup 3) ⟨rfl, rfl⟩ rfl
  have h₃ : Reachable CallbackInitial CallbackStep (callbackSample 3) :=
    callbackSample_step h₂ (a := .loop .copyFds) ⟨rfl, rfl, rfl, rfl⟩ rfl
  have h₄ : Reachable CallbackInitial CallbackStep (callbackSample 4) :=
    callbackSample_step h₃ (a := .loop .loadTimer) ⟨rfl, rfl, rfl, _, rfl⟩ rfl
  exact callbackSample_step h₄ (a := .loop (.calcTimeout ⟨1, 0⟩))
    ⟨rfl, rfl, rfl, ⟨_, _, rfl⟩, by decide, by decide⟩ rfl

theorem callbackSample_six : Reachable CallbackInitial CallbackStep (callbackSample 6) :=
  callbackSample_step callbackSample_five callbackSample_request rfl

end Sample

section Results

variable {c c' : Callbacks}

end Results

end MeizuM5c.Ril.Events
