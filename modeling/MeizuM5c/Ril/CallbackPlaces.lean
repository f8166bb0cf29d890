import MeizuM5c.Ril.TimedCallbacks

/-!
The block of a callback is at one place at a time: its timer is in a ring, or the loop's
thread has it, or librilmtk. While the loop sleeps it will be up in time for each timer, or
there is something in the pipe, or about to be.
-/

namespace MeizuM5c.Ril.Events

open Lib

section Blocks

variable {m m' : Memory} {infos infos' : Nat → Option UserCallbackInfo} {n : Nat}

@[simp] theorem infoOf_infoEvent (n : Nat) : infoOf (infoEvent n) = some n := rfl

/-- The events are those in the blocks, which point to them, and that of the pipe. -/
structure Laid (m : Memory) (infos : Nat → Option UserCallbackInfo) : Prop where
  stored : ∀ n, (m (infoEvent n)).isSome = (infos n).isSome
  info : ∀ n e, m (infoEvent n) = some e →
    e.func = USER_TIMER_CALLBACK ∧ e.param = n + 1 ∧ e.fd = -1
  wakeup : ∀ e, m wakeupEvent = some e → e.func = PROCESS_WAKEUP_CALLBACK

theorem Laid.sameFixed (h : Laid m infos) (hsame : SameFixed m m') : Laid m' infos := by
  refine ⟨?_, ?_, ?_⟩
  · intro n
    have hsome := congrArg Option.isSome (hsame (infoEvent n))
    rw [Option.isSome_map, Option.isSome_map] at hsome
    rw [hsome, h.stored]
  · intro n e he
    obtain ⟨e', he', hfixed⟩ := hsame.symm.event he
    obtain ⟨hfd, -, -, hfunc, hparam⟩ := fixed_eq hfixed
    rw [← hfd, ← hfunc, ← hparam]
    exact h.info n e' he'
  · intro e he
    obtain ⟨e', he', hfixed⟩ := hsame.symm.event he
    rw [← (fixed_eq hfixed).2.2.2.1]
    exact h.wakeup e' he'

/-- The event of a block is set up, with the block. -/
theorem Laid.setUp (h : Laid m infos) {e : RilEvent} (hfunc : e.func = USER_TIMER_CALLBACK)
    (hparam : e.param = n + 1) (hfd : e.fd = -1) (info : UserCallbackInfo) :
    Laid (Function.update m (infoEvent n) (some e)) (Function.update infos n (some info)) := by
  refine ⟨?_, ?_, ?_⟩
  · intro k
    by_cases hk : k = n
    · rw [hk, Function.update_self, Function.update_self]
      rfl
    · have hne : infoEvent k ≠ infoEvent n := by
        intro heq
        exact hk (Nat.succ.inj (Address.event.inj heq))
      rw [Function.update_of_ne hk, Function.update_of_ne hne, h.stored]
  · intro k f hf
    by_cases hk : k = n
    · rw [hk, Function.update_self] at hf
      rw [← Option.some.inj hf, hk]
      exact ⟨hfunc, hparam, hfd⟩
    · have hne : infoEvent k ≠ infoEvent n := by
        intro heq
        exact hk (Nat.succ.inj (Address.event.inj heq))
      rw [Function.update_of_ne hne] at hf
      exact h.info k f hf
  · intro f hf
    rw [Function.update_of_ne (by simp [wakeupEvent, infoEvent])] at hf
    exact h.wakeup f hf

theorem Laid.release (h : Laid m infos) (n : Nat) :
    Laid (Function.update m (infoEvent n) none) (Function.update infos n none) := by
  refine ⟨?_, ?_, ?_⟩
  · intro k
    by_cases hk : k = n
    · rw [hk, Function.update_self, Function.update_self]
      rfl
    · have hne : infoEvent k ≠ infoEvent n := by
        intro heq
        exact hk (Nat.succ.inj (Address.event.inj heq))
      rw [Function.update_of_ne hk, Function.update_of_ne hne, h.stored]
  · intro k f hf
    by_cases hk : k = n
    · rw [hk, Function.update_self] at hf
      cases hf
    · have hne : infoEvent k ≠ infoEvent n := by
        intro heq
        exact hk (Nat.succ.inj (Address.event.inj heq))
      rw [Function.update_of_ne hne] at hf
      exact h.info k f hf
  · intro f hf
    rw [Function.update_of_ne (by simp [wakeupEvent, infoEvent])] at hf
    exact h.wakeup f hf

theorem Laid.sameBlocks (h : Laid m infos) (hsome : ∀ n, (infos' n).isSome = (infos n).isSome) :
    Laid m infos' :=
  ⟨fun n => (h.stored n).trans (hsome n).symm, h.info, h.wakeup⟩

end Blocks

/-- The blocks that are in use, by where they are. -/
def places (c : Callbacks) (linked : List Address) : List Nat :=
  linked.filterMap infoOf ++ (current c.thread ++ (c.queue ++ (c.running.map Prod.fst ++ c.done)))

/-- `select` is asked for the pipe, and there is something in it, or about to be, for the
timers that the loop has not seen. -/
def Roused (c : Callbacks) : Prop :=
  match c.reactor.pc with
  | .load rfds => ∃ fd, c.wakeupFd = some fd ∧ fd ∈ rfds
  | .calculate rfds _ => (∃ fd, c.wakeupFd = some fd ∧ fd ∈ rfds) ∧
      (c.reactor.since = [] ∨ 0 < c.pipe ∨ 0 < c.writers)
  | .select rfds _ _ => (∃ fd, c.wakeupFd = some fd ∧ fd ∈ rfds) ∧
      (c.reactor.since = [] ∨ 0 < c.pipe ∨ 0 < c.writers)
  | _ => True

structure Kept (c : Callbacks) (timers pending : List Address) : Prop where
  reachable : Reachable Initial Step c.reactor
  sound : Sound c.reactor timers pending
  laid : Laid c.reactor.events.mem c.infos
  only : ∀ i a, c.reactor.events.watchTable i = some a → a = wakeupEvent
  started : c.started = true → ∃ fd i, c.wakeupFd = some fd ∧
    c.reactor.events.watchTable i = some wakeupEvent ∧
    fdOf c.reactor.events.mem wakeupEvent = fd ∧
    persistOf c.reactor.events.mem wakeupEvent = true
  before : c.started = false → c.reactor.pc = .copy ∧ c.thread = .loop ∧
    nextOf c.reactor.events.mem wakeupEvent = none ∧
    (∀ i, c.reactor.events.watchTable i = none) ∧ ∀ fd, c.wakeupFd = some fd → fits fd = true
  live : ∀ n, (c.infos n).isSome = true ↔ n ∈ places c (timers ++ pending)
  placed : (places c (timers ++ pending)).Nodup
  handed : c.handedOver ++ current c.thread =
    (c.reactor.called.map (fun call => call.1.ev)).filterMap infoOf
  armed : c.reactor.armed = c.requested.map infoEvent
  readied : ∀ a ∈ c.reactor.readied, a = wakeupEvent
  firing : c.thread ≠ .loop → ∃ ev, c.reactor.pc = .firing ev
  roused : Roused c

section Threads

variable {c : Callbacks} {timers pending : List Address} {n : Nat}

/-- A block that is not in use has no event. -/
theorem Kept.fresh (h : Kept c timers pending) (hfree : c.infos n = none) :
    c.reactor.events.mem (infoEvent n) = none := by
  have hstored := h.laid.stored n
  rw [hfree, Option.isSome_none, Option.isSome_eq_false_iff, Option.isNone_iff_eq_none] at hstored
  exact hstored

/-- An event that is not linked is nowhere, if it is not that of the pipe. -/
theorem Kept.idle (h : Kept c timers pending)
    (hout : nextOf c.reactor.events.mem (infoEvent n) = none) :
    Idle c.reactor.events (infoEvent n) := by
  refine ⟨hout, ?_⟩
  intro i hi
  have heq := h.only i _ hi
  simp [infoEvent, wakeupEvent] at heq

theorem Roused.frame (h : Roused c) (c' : Callbacks) (hpc : c'.reactor.pc = c.reactor.pc)
    (hfd : ∀ fd, c.wakeupFd = some fd → c'.wakeupFd = some fd)
    (hsince : c.reactor.since = [] ∨ 0 < c.pipe ∨ 0 < c.writers →
      c'.reactor.since = [] ∨ 0 < c'.pipe ∨ 0 < c'.writers) : Roused c' := by
  unfold Roused at h ⊢
  rw [hpc]
  cases hcase : c.reactor.pc with
  | load rfds =>
      rw [hcase] at h
      obtain ⟨fd, hsome, hin⟩ := h
      exact ⟨fd, hfd fd hsome, hin⟩
  | calculate rfds tev =>
      rw [hcase] at h
      obtain ⟨⟨fd, hsome, hin⟩, hbyte⟩ := h
      exact ⟨⟨fd, hfd fd hsome, hin⟩, hsince hbyte⟩
  | select rfds asked tv =>
      rw [hcase] at h
      obtain ⟨⟨fd, hsome, hin⟩, hbyte⟩ := h
      exact ⟨⟨fd, hfd fd hsome, hin⟩, hsince hbyte⟩
  | _ => trivial

theorem kept_openPipe (h : Kept c timers pending) {fd : Int} (hallowed : Allowed c (.openPipe fd)) :
    Kept { c with wakeupFd := some fd } timers pending := by
  obtain ⟨hnone, hfits⟩ := hallowed
  have hnot : ∀ fd', ¬ c.wakeupFd = some fd' := by
    intro fd' hsome
    rw [hnone] at hsome
    cases hsome
  refine { h with started := ?_, before := ?_, roused := ?_ }
  · intro hstarted
    obtain ⟨fd', -, hsome, -⟩ := h.started hstarted
    exact absurd hsome (hnot fd')
  · intro hbefore
    obtain ⟨hpc, hthread, hnext, htable, -⟩ := h.before hbefore
    refine ⟨hpc, hthread, hnext, htable, ?_⟩
    intro fd' hfd'
    rw [← Option.some.inj hfd']
    exact hfits
  · exact h.roused.frame _ rfl (fun fd' hsome => absurd hsome (hnot fd')) id

theorem kept_triggerEvLoop (h : Kept c timers pending) :
    Kept c.triggerEvLoop timers pending := by
  refine { h with roused := ?_ }
  cases hstarted : c.started with
  | false =>
      unfold Roused
      simp only [Callbacks.triggerEvLoop, (h.before hstarted).1]
  | true =>
      obtain ⟨fd, -, hsome, -⟩ := h.started hstarted
      apply h.roused.frame c.triggerEvLoop rfl (fun fd hsome => hsome)
      intro _
      right
      left
      simp only [Callbacks.triggerEvLoop, hsome, Option.isSome_some, if_true]
      exact Nat.succ_pos _

/-- In the pipe's event the loop has seen all timers when it comes back to sleep. -/
theorem kept_processWakeupCallback (h : Kept c timers pending)
    (hallowed : Allowed c .processWakeupCallback) : Kept c.processWakeupCallback timers pending := by
  have hthread : c.thread = .wakeup := hallowed
  obtain ⟨ev, hpc⟩ := h.firing (by simp [hthread])
  have hhanded := h.handed
  rw [hthread] at hhanded
  have hlive := h.live
  have hplaced := h.placed
  simp only [places, hthread] at hlive hplaced
  refine { h with before := ?_, live := hlive, placed := hplaced, handed := hhanded,
                  firing := ?_, roused := ?_ }
  · intro hbefore
    have hcopy := (h.before hbefore).1
    rw [hpc] at hcopy
    cases hcopy
  · exact fun hne => absurd rfl hne
  · unfold Roused
    simp only [Callbacks.processWakeupCallback, hpc]

theorem kept_enqueue (h : Kept c timers pending) (hallowed : Allowed c (.enqueue n)) :
    Kept (c.enqueue n) timers pending := by
  have hthread : c.thread = .userTimer n := hallowed
  obtain ⟨ev, hpc⟩ := h.firing (by simp [hthread])
  have hperm : (places (c.enqueue n) (timers ++ pending)).Perm (places c (timers ++ pending)) := by
    rw [List.perm_iff_count]
    intro k
    simp only [places, Callbacks.enqueue, current, hthread, List.count_append, List.count_nil]
    omega
  have hhanded := h.handed
  rw [hthread] at hhanded
  refine { h with before := ?_, live := ?_, placed := hperm.nodup_iff.mpr h.placed, handed := ?_,
                  firing := ?_, roused := ?_ }
  · intro hbefore
    have hcopy := (h.before hbefore).1
    rw [hpc] at hcopy
    cases hcopy
  · exact fun k => (h.live k).trans hperm.mem_iff.symm
  · simp only [Callbacks.enqueue, current, List.append_nil]
    exact hhanded
  · exact fun hne => absurd rfl hne
  · unfold Roused
    simp only [Callbacks.enqueue, hpc]

/-- A block in use. -/
theorem Kept.info (h : Kept c timers pending) (hn : n ∈ places c (timers ++ pending)) :
    ∃ info, c.infos n = some info := Option.isSome_iff_exists.mp ((h.live n).mpr hn)

theorem kept_run (h : Kept c timers pending) (hallowed : Allowed c (.run n)) :
    ∃ c', c.run n = some c' ∧ Kept c' timers pending := by
  have hn : n ∈ c.queue := hallowed
  have hin : n ∈ places c (timers ++ pending) := by
    simp [places, hn]
  obtain ⟨info, hinfo⟩ := h.info hin
  let c' : Callbacks :=
    { c with queue := c.queue.erase n, running := c.running ++ [(n, info.userParam)] }
  refine ⟨c', ?_, ?_⟩
  · unfold Callbacks.run
    rw [hinfo]
    rfl
  · have hqueue := List.perm_cons_erase hn
    have hperm : (places c' (timers ++ pending)).Perm (places c (timers ++ pending)) := by
      rw [List.perm_iff_count]
      intro k
      have hcount := List.perm_iff_count.mp hqueue k
      simp only [c', places, List.map_append, List.map_cons, List.map_nil, List.count_append,
        List.count_cons, List.count_nil] at hcount ⊢
      omega
    exact { h with live := fun k => (h.live k).trans hperm.mem_iff.symm
                   placed := hperm.nodup_iff.mpr h.placed
                   roused := h.roused.frame _ rfl (fun fd hsome => hsome) id }

theorem kept_finish (h : Kept c timers pending) {param : Nat}
    (hallowed : Allowed c (.finish n param)) : Kept (c.finish n param) timers pending := by
  have hn : (n, param) ∈ c.running := hallowed
  have hrunning := (List.perm_cons_erase hn).map Prod.fst
  have hperm : (places (c.finish n param) (timers ++ pending)).Perm
      (places c (timers ++ pending)) := by
    rw [List.perm_iff_count]
    intro k
    have hcount := List.perm_iff_count.mp hrunning k
    simp only [places, Callbacks.finish, List.map_cons, List.count_append, List.count_cons,
      List.count_nil] at hcount ⊢
    omega
  exact { h with live := fun k => (h.live k).trans hperm.mem_iff.symm
                 placed := hperm.nodup_iff.mpr h.placed
                 roused := h.roused.frame _ rfl (fun fd hsome => hsome) id }

/-- A parameter is written, or nothing when the block has been freed. -/
theorem kept_setParam (h : Kept c timers pending) (param : Nat) :
    Kept (c.setParam n param) timers pending := by
  have hsome : ∀ k, ((c.setParam n param).infos k).isSome = (c.infos k).isSome := by
    intro k
    simp only [Callbacks.setParam]
    by_cases hk : k = n
    · rw [hk, Function.update_self, Option.isSome_map]
    · rw [Function.update_of_ne hk]
  refine { h with laid := h.laid.sameBlocks hsome, live := ?_, roused := ?_ }
  · intro k
    rw [hsome]
    exact h.live k
  · exact h.roused.frame _ rfl (fun fd hsome => hsome) id

/-- The timer of a new callback. -/
theorem timer_added {r : Reactor} {e : RilEvent} (h : Sound r timers pending)
    {tv now : Timeval} (henabled : Enabled r (.rilTimerAdd n (some tv) now))
    (he : r.events.mem (.event n) = some e) :
    ∃ mem timers' r', r' = { r with events := { r.events with mem }, clock := now,
                                    armed := r.armed ++ [.event n], since := r.since ++ [.event n] } ∧
      (∀ fuel ≥ timers.length + 1, exec fuel r (.rilTimerAdd n (some tv) now) = some r') ∧
      SameData (Function.update r.events.mem (.event n)
        (some { e with fd := -1, timeout := timeradd now tv })) mem ∧
      timers'.Perm (.event n :: timers) ∧ Sound r' timers' pending := by
  obtain ⟨mem, hadd, -, hdata⟩ :=
    rilTimerAdd_eq tv now h.timed.rings he henabled.1.1 (Nat.lt_succ_self timers.length)
  obtain ⟨events, hadd', hsound⟩ := sound_rilTimerAdd h henabled (Nat.lt_succ_self timers.length)
  have hevents : { r.events with mem } = events := by
    rw [hadd] at hadd'
    exact Option.some.inj hadd'
  subst hevents
  refine ⟨mem, _, _, rfl, ?_, hdata, List.perm_orderedInsert _ _ _, hsound⟩
  intro fuel hfuel
  simp only [exec, rilTimerAdd_mono hadd hfuel, Option.bind_eq_bind, Option.bind_some,
    Option.toList_some, List.map_cons, List.map_nil]

theorem kept_request (h : Kept c timers pending) {callback : Callback} {param : Nat}
    {relativeTime : Option Timeval} {cid : Int} {now : Timeval}
    (hallowed : Allowed c (.request n callback param relativeTime cid now)) :
    ∃ least c' timers', (∀ fuel ≥ least, c.internalRequestTimedCallback fuel n callback param
        relativeTime cid now = some c') ∧ Kept c' timers' pending := by
  obtain ⟨hfree, hclock, hnow, htime⟩ := hallowed
  have hnone := h.fresh hfree
  have hout : nextOf c.reactor.events.mem (infoEvent n) = none := by
    unfold nextOf
    rw [hnone]
    rfl
  have hidle := h.idle hout
  -- the event is set up
  let e : RilEvent :=
    { fd := -1, index := -1, persist := false, func := USER_TIMER_CALLBACK, param := n + 1 }
  let r₁ : Reactor := { c.reactor with
    events := rilEventSet (infoEvent n) (-1) false USER_TIMER_CALLBACK (n + 1) c.reactor.events }
  have hmem₁ : r₁.events.mem = Function.update c.reactor.events.mem (infoEvent n) (some e) := rfl
  have he : r₁.events.mem (infoEvent n) = some e := Function.update_self ..
  have hsound₁ : Sound r₁ timers pending :=
    sound_rilEventSet h.sound hidle (-1) false USER_TIMER_CALLBACK (n + 1)
  have hidle₁ : Idle r₁.events (infoEvent n) := ⟨nextOf_of_some he, hidle.2⟩
  have hreach₁ : Reachable Initial Step r₁ :=
    h.reachable.next (.rilEventSet (n + 1) (-1) false USER_TIMER_CALLBACK (n + 1)) ⟨hidle, 0, rfl⟩
  -- and its timer is armed
  have henabled : Enabled r₁ (.rilTimerAdd (n + 1) (some (relativeTime.getD ⟨0, 0⟩)) now) := by
    refine ⟨hidle₁, ⟨e, he⟩, hclock, hnow, ?_⟩
    intro t ht
    rw [← Option.some.inj ht]
    exact htime
  obtain ⟨mem, timers', r₂, hr₂, hexec, hdata, hperm, hsound₂⟩ := timer_added hsound₁ henabled he
  change SameData (Function.update r₁.events.mem (infoEvent n) _) mem at hdata
  change timers'.Perm (infoEvent n :: timers) at hperm
  have hreach₂ : Reachable Initial Step r₂ :=
    hreach₁.next _ ⟨henabled, timers.length + 1, hexec _ le_rfl⟩
  let info : UserCallbackInfo := { pCallback := callback, userParam := param, cid := channelId cid }
  let c' : Callbacks := { c with
    reactor := r₂, infos := Function.update c.infos n (some info), writers := c.writers + 1,
    requested := c.requested ++ [n] }
  have hmem₂ : r₂.events.mem = mem := by rw [hr₂]
  have htable : r₂.events.watchTable = c.reactor.events.watchTable := by
    rw [hr₂]
    rfl
  have hother : wakeupEvent ≠ infoEvent n := by simp [wakeupEvent, infoEvent]
  have hwatch : fdOf mem wakeupEvent = fdOf c.reactor.events.mem wakeupEvent ∧
      persistOf mem wakeupEvent = persistOf c.reactor.events.mem wakeupEvent := by
    rw [hdata.fixed.fdOf, hdata.fixed.persistOf]
    unfold fdOf persistOf
    rw [Function.update_of_ne hother, hmem₁, Function.update_of_ne hother]
    exact ⟨rfl, rfl⟩
  have hplaces : (places c' (timers' ++ pending)).Perm (n :: places c (timers ++ pending)) := by
    have hlinked := (hperm.append_right pending).filterMap infoOf
    rw [List.cons_append, List.filterMap_cons_some (infoOf_infoEvent n)] at hlinked
    exact hlinked.append_right _
  have hunused : n ∉ places c (timers ++ pending) := by
    intro hin
    have hsome := (h.live n).mpr hin
    rw [hfree] at hsome
    cases hsome
  refine ⟨timers.length + 1, c', timers', ?_, ?_⟩
  · intro fuel hfuel
    unfold Callbacks.internalRequestTimedCallback
    change (exec fuel r₁ _).bind _ = _
    rw [hexec fuel hfuel]
    rfl
  · refine ⟨hreach₂, hsound₂, ?_, ?_, ?_, ?_, ?_, ?_, ?_, ?_, ?_, ?_, ?_⟩
    · change Laid r₂.events.mem (Function.update c.infos n (some info))
      rw [hmem₂]
      apply Laid.sameFixed _ hdata.fixed
      rw [hmem₁, Function.update_idem]
      exact h.laid.setUp rfl rfl rfl info
    · intro i a ha
      apply h.only i a
      rw [← htable]
      exact ha
    · intro hstarted
      obtain ⟨fd, i, hfd, hi, hfdOf, hpersist⟩ := h.started hstarted
      refine ⟨fd, i, hfd, ?_, ?_, ?_⟩
      · change r₂.events.watchTable i = _
        rw [htable]
        exact hi
      · change fdOf r₂.events.mem wakeupEvent = _
        rw [hmem₂, hwatch.1]
        exact hfdOf
      · change persistOf r₂.events.mem wakeupEvent = _
        rw [hmem₂, hwatch.2]
        exact hpersist
    · intro hbefore
      obtain ⟨hpc, hthread, hnext, hwatches, hfits⟩ := h.before hbefore
      have hrings := hsound₂.timed.rings
      refine ⟨?_, hthread, ?_, ?_, hfits⟩
      · change r₂.pc = .copy
        rw [hr₂]
        exact hpc
      · apply hrings.idle
        · intro hin
          rcases List.mem_cons.mp hin with heq | hin
          · cases heq
          · rcases List.mem_cons.mp (hperm.mem_iff.mp hin) with heq | hin
            · exact hother heq
            · exact h.sound.timed.ne_of_idle hnext _ (.inl hin) rfl
        · intro hin
          rcases List.mem_cons.mp hin with heq | hin
          · cases heq
          · exact h.sound.timed.ne_of_idle hnext _ (.inr hin) rfl
      · intro i
        change r₂.events.watchTable i = none
        rw [htable]
        exact hwatches i
    · intro k
      rw [hplaces.mem_iff, List.mem_cons]
      change (Function.update c.infos n (some info) k).isSome = true ↔ _
      by_cases hk : k = n
      · rw [hk, Function.update_self]
        exact iff_of_true rfl (.inl rfl)
      · rw [Function.update_of_ne hk, h.live k]
        exact ⟨.inr, fun hin => hin.resolve_left hk⟩
    · exact hplaces.nodup_iff.mpr (List.nodup_cons.mpr ⟨hunused, h.placed⟩)
    · change _ = (r₂.called.map _).filterMap infoOf
      rw [hr₂]
      exact h.handed
    · change r₂.armed = (c.requested ++ [n]).map infoEvent
      rw [hr₂, List.map_append, ← h.armed]
      rfl
    · change ∀ a ∈ r₂.readied, a = wakeupEvent
      rw [hr₂]
      exact h.readied
    · intro hthread
      obtain ⟨ev, hpc⟩ := h.firing hthread
      refine ⟨ev, ?_⟩
      change r₂.pc = _
      rw [hr₂]
      exact hpc
    · apply h.roused.frame c' _ (fun fd hsome => hsome)
      · intro _
        exact .inr (.inr (Nat.succ_pos _))
      · change r₂.pc = _
        rw [hr₂]

theorem kept_release (h : Kept c timers pending) (hallowed : Allowed c (.release n)) :
    ∃ c', (∀ fuel, c.release fuel n = some c') ∧ Kept c' timers pending := by
  have hn : n ∈ c.done := hallowed
  -- a block that librilmtk has is in neither ring
  have hdone : (places c (timers ++ pending)).Perm
      (n :: places { c with done := c.done.erase n } (timers ++ pending)) := by
    have hcons := List.perm_cons_erase hn
    rw [List.perm_iff_count]
    intro k
    have hcount := List.perm_iff_count.mp hcons k
    simp only [places, List.count_append, List.count_cons] at hcount ⊢
    omega
  have hplaced := hdone.nodup_iff.mp h.placed
  obtain ⟨hunused, hrest⟩ := List.nodup_cons.mp hplaced
  have hout : ∀ a, a ∈ timers ∨ a ∈ pending → a ≠ infoEvent n := by
    rintro a ha rfl
    apply hunused
    have hin : n ∈ (timers ++ pending).filterMap infoOf :=
      List.mem_filterMap.mpr ⟨infoEvent n, List.mem_append.mpr ha, infoOf_infoEvent n⟩
    exact List.mem_append_left _ hin
  have hrings := h.sound.timed.rings
  have hnext : nextOf c.reactor.events.mem (infoEvent n) = none := by
    apply hrings.idle
    · intro hin
      rcases List.mem_cons.mp hin with heq | hin
      · cases heq
      · exact hout _ (.inl hin) rfl
    · intro hin
      rcases List.mem_cons.mp hin with heq | hin
      · cases heq
      · exact hout _ (.inr hin) rfl
  have hidle := h.idle hnext
  have hother : wakeupEvent ≠ .event (n + 1) := by simp [wakeupEvent]
  refine ⟨_, fun fuel => rfl, ?_⟩
  refine { h with
    reachable := h.reachable.next (.free (n + 1)) ⟨hidle, 0, rfl⟩
    sound := sound_free h.sound hidle
    laid := h.laid.release n
    started := ?_, before := ?_, live := ?_, placed := hrest, roused := ?_ }
  · intro hstarted
    obtain ⟨fd, i, hfd, hi, hfdOf, hpersist⟩ := h.started hstarted
    refine ⟨fd, i, hfd, hi, ?_, ?_⟩
    · rw [← hfdOf]
      exact fdOf_update_of_ne hother
    · rw [← hpersist]
      unfold persistOf
      simp only [free]
      rw [Function.update_of_ne hother]
  · intro hbefore
    obtain ⟨hpc, hthread, hwakeup, hwatches, hfits⟩ := h.before hbefore
    refine ⟨hpc, hthread, ?_, hwatches, hfits⟩
    rw [← hwakeup]
    unfold nextOf
    simp only [free]
    rw [Function.update_of_ne hother]
  · intro k
    have hlive := h.live k
    rw [hdone.mem_iff, List.mem_cons] at hlive
    change (Function.update c.infos n none k).isSome = true ↔
      k ∈ places { c with done := c.done.erase n } (timers ++ pending)
    by_cases hk : k = n
    · rw [hk, Function.update_self]
      exact iff_of_false (by simp) hunused
    · rw [Function.update_of_ne hk, hlive]
      exact ⟨fun hin => hin.resolve_left hk, .inr⟩
  · exact h.roused.frame _ rfl (fun fd hsome => hsome) id

end Threads

end MeizuM5c.Ril.Events
