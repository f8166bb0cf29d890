import MeizuM5c.Ril.ProxyCells

/-!
The law of the proxies' jobs over every run: next to the workers and the blocks the
invariant has the order in which the jobs were fired, run, taken and filed.
-/

namespace MeizuM5c.Ril.Proxy

open Lib Mutex

section History

/-- What was fired against what was run, taken and is in the lists. -/
structure History (s : State) (l : Channel → List Addr) : Prop where
  bound : ∀ e ∈ s.fired, e.2 < s.requests.length
  firedOnce : (s.fired.map Prod.snd).Nodup
  unfired : ∀ a ∈ s.timers, ∀ e ∈ s.fired, e.2 ≠ s.ticket a
  tickets : ∀ a ∈ s.timers, ∀ b ∈ s.timers, s.ticket a = s.ticket b → a = b
  fifo : ∀ ch, s.firedOn ch = s.startedOn ch ++ s.taken ch ++ (l ch).map s.ticket
  once : (s.runs.map Run.ticket).Nodup
  own : ∀ r ∈ s.runs, (∃ w ∈ s.workers r.ch, w.thread = r.thread) ∧
    ∃ request, s.requests[r.ticket]? = some request ∧ r.cb = request.cb ∧
      r.param = request.param ∧ r.ch = mtkChannelIndex request.proxyId

variable {s : State} {place : Addr → Place} {l : Channel → List Addr}

theorem mem_firedOn {ch : Channel} {ticket : Nat} :
    ticket ∈ s.firedOn ch ↔ (ch, ticket) ∈ s.fired := by
  simp [State.firedOn]

theorem History.nodup_firedOn (h : History s l) (ch : Channel) : (s.firedOn ch).Nodup :=
  (List.filter_sublist.map Prod.snd).nodup h.firedOnce

/-- A job is of one channel. -/
theorem History.same_channel (h : History s l) {a b : Channel} {ticket : Nat}
    (ha : (a, ticket) ∈ s.fired) (hb : (b, ticket) ∈ s.fired) : a = b :=
  congrArg Prod.fst (List.inj_on_of_nodup_map h.firedOnce ha hb rfl)

/-- A job that was taken and not run is not among those that were run. -/
theorem History.not_run (h : History s l) {ch : Channel} {ticket : Nat} {rest : List Nat}
    (htaken : s.taken ch = [ticket]) (hrest : (l ch).map s.ticket = rest) :
    ticket ∉ s.runs.map Run.ticket := by
  intro hmem
  obtain ⟨r, hr, hticket⟩ := List.mem_map.mp hmem
  have hfifo := h.fifo ch
  rw [htaken, hrest] at hfifo
  have hstarted : ∀ r ∈ s.runs, r.ticket ∈ s.startedOn r.ch := by
    intro r hr
    exact List.mem_map_of_mem (List.mem_filter.mpr ⟨hr, by simp⟩)
  have hfired : (ch, ticket) ∈ s.fired := by
    rw [← mem_firedOn, hfifo]
    simp
  have hrun : (r.ch, ticket) ∈ s.fired := by
    rw [← mem_firedOn, h.fifo r.ch, ← hticket]
    exact List.mem_append_left _ (List.mem_append_left _ (hstarted r hr))
  have hch : r.ch = ch := h.same_channel hrun hfired
  have hnodup := h.nodup_firedOn ch
  rw [hfifo, List.append_assoc] at hnodup
  have hboth := (List.nodup_append.mp hnodup).2.2 ticket
    (by rw [← hticket, ← hch]; exact hstarted r hr) ticket (by simp)
  exact hboth rfl

/-- The ticket of a job is that of a request. -/
theorem Cells.ticket_lt (h : Cells s place l) {a : Addr} (ha : place a ≠ .free) :
    s.ticket a < s.requests.length := by
  obtain ⟨j, hj⟩ := h.allocated ha
  obtain ⟨request, hrequest, -⟩ := h.requested a j hj
  exact (List.getElem?_eq_some_iff.mp hrequest).1

/-- A request takes a free block, which is in no list. -/
theorem Cells.map_ticket_request (h : Cells s place l) {job : Addr} (hfree : s.heap job = none)
    (ch : Channel) (ticket : Nat) :
    (l ch).map (Function.update s.ticket job ticket) = (l ch).map s.ticket := by
  have hplace : place job = .free := (h.free job).mp hfree
  have hnotin : job ∉ l ch := h.not_queued (hplace ▸ Place.noConfusion)
  apply List.map_congr_left
  intro a ha
  have hne : a ≠ job := fun heq => hnotin (heq ▸ ha)
  exact Function.update_of_ne hne _ _

/-- No worker has the block of a new request. -/
theorem Cells.taken_request (h : Cells s place l) {job : Addr} (hfree : s.heap job = none)
    (request : Request) (armed : Bool) (ch : Channel) :
    (requestProxyTimedCallback job request armed s).taken ch = s.taken ch := by
  have hplace : place job = .free := (h.free job).mp hfree
  apply List.filterMap_congr
  intro w hw
  cases hpos : w.pos with
  | took a =>
      have hbusy := (h.busy ch a).mpr ⟨w, hw, by rw [hpos]; rfl⟩
      have hne : a ≠ job := by
        intro heq
        rw [heq, hplace] at hbusy
        cases hbusy
      simp [WorkerAt.pending, requestProxyTimedCallback, Function.update_of_ne hne]
  | waiting => rfl
  | running a => rfl
  | ran a => rfl

theorem History.request (h : History s l) (hcells : Cells s place l) {job : Addr}
    (hfree : s.heap job = none) (request : Request) (armed : Bool) :
    History (requestProxyTimedCallback job request armed s) l := by
  have hplace : place job = .free := (hcells.free job).mp hfree
  have hold : job ∉ s.timers := by simp [hcells.timers, hplace]
  have hticket : ∀ a, a ≠ job → Function.update s.ticket job s.requests.length a = s.ticket a :=
    fun a ha => Function.update_of_ne ha _ _
  have htimers : ∀ a ∈ (if armed then job :: s.timers else s.timers), a = job ∨ a ∈ s.timers := by
    intro a ha
    split_ifs at ha
    · exact List.mem_cons.mp ha
    · exact .inr ha
  have hne : ∀ a ∈ s.timers, a ≠ job := fun a ha heq => hold (heq ▸ ha)
  have hbound : ∀ a ∈ s.timers, s.ticket a < s.requests.length := by
    intro a ha
    apply hcells.ticket_lt
    rw [(hcells.timers a).mp ha]
    exact Place.noConfusion
  constructor
  · intro e he
    have hlt := h.bound e he
    simp only [requestProxyTimedCallback, List.length_append, List.length_singleton]
    omega
  · exact h.firedOnce
  · intro a ha e he
    simp only [requestProxyTimedCallback] at ha ⊢
    rcases htimers a ha with hnew | hmem
    · rw [hnew, Function.update_self]
      exact (h.bound e he).ne
    · rw [hticket a (hne a hmem)]
      exact h.unfired a hmem e he
  · intro a ha b hb heq
    simp only [requestProxyTimedCallback] at ha hb heq
    rcases htimers a ha with hnewa | hmema
    · rcases htimers b hb with hnewb | hmemb
      · rw [hnewa, hnewb]
      · rw [hnewa, Function.update_self, hticket b (hne b hmemb)] at heq
        exact absurd heq.symm (hbound b hmemb).ne
    · rcases htimers b hb with hnewb | hmemb
      · rw [hnewb, Function.update_self, hticket a (hne a hmema)] at heq
        exact absurd heq (hbound a hmema).ne
      · rw [hticket a (hne a hmema), hticket b (hne b hmemb)] at heq
        exact h.tickets a hmema b hmemb heq
  · intro ch
    have hlist := hcells.map_ticket_request hfree ch s.requests.length
    rw [hcells.taken_request hfree]
    exact (h.fifo ch).trans (congrArg _ hlist.symm)
  · exact h.once
  · intro r hr
    obtain ⟨hworker, request', hrequest, hsame⟩ := h.own r hr
    refine ⟨hworker, request', ?_, hsame⟩
    simp only [requestProxyTimedCallback]
    rw [List.getElem?_append_left (List.getElem?_eq_some_iff.mp hrequest).1]
    exact hrequest

/-- A job whose timer fires is the last of its channel. -/
theorem History.filed (h : History s l) (hcells : Cells s place l) {job : Addr}
    (htimer : job ∈ s.timers) (target : Channel)
    (heap : Addr → Option MtkProxyJob) (head tail : Channel → Option Addr) :
    History { s with
        heap
        proxyQHead := head
        proxyQTail := tail
        timers := s.timers.erase job
        fired := s.fired ++ [(target, s.ticket job)] }
      (Function.update l target (l target ++ [job])) := by
  have hrest : ∀ a ∈ s.timers.erase job, a ≠ job ∧ a ∈ s.timers := by
    intro a ha
    exact hcells.timersOnce.mem_erase_iff.mp ha
  constructor
  · intro e he
    rcases List.mem_append.mp he with he | he
    · exact h.bound e he
    · rw [List.mem_singleton.mp he]
      apply hcells.ticket_lt
      rw [(hcells.timers job).mp htimer]
      exact Place.noConfusion
  · simp only [List.map_append, List.map_singleton]
    apply List.nodup_append.mpr
    refine ⟨h.firedOnce, List.nodup_singleton _, ?_⟩
    intro k hk k' hk'
    obtain ⟨e, he, rfl⟩ := List.mem_map.mp hk
    rw [List.mem_singleton.mp hk']
    exact h.unfired job htimer e he
  · intro a ha e he
    obtain ⟨hne, hmem⟩ := hrest a ha
    rcases List.mem_append.mp he with he | he
    · exact h.unfired a hmem e he
    · rw [List.mem_singleton.mp he]
      intro heq
      exact hne (h.tickets a hmem job htimer heq.symm)
  · intro a ha b hb
    exact h.tickets a (hrest a ha).2 b (hrest b hb).2
  · intro ch
    have hfifo := h.fifo ch
    unfold State.firedOn at hfifo ⊢
    simp only [List.filter_append, List.map_append]
    rw [hfifo]
    by_cases hch : ch = target
    · rw [hch, Function.update_self, List.map_append, List.filter_cons_of_pos (by simp)]
      simp only [List.append_assoc]
      rfl
    · rw [Function.update_of_ne hch, List.filter_cons_of_neg (by simpa using Ne.symm hch),
        List.filter_nil, List.map_nil, List.append_nil]
      rfl
  · exact h.once
  · exact h.own

theorem History.start (h : History s l) (ch : Channel) (created : Option Nat) :
    History (startWorker ch created s) l := by
  unfold startWorker
  split_ifs
  · exact h
  · cases created with
    | none => exact h
    | some thread =>
        refine ⟨h.bound, h.firedOnce, h.unfired, h.tickets, ?_, h.once, ?_⟩
        · intro other
          have htaken : State.taken { s with
              proxyWorkerUp := Function.update s.proxyWorkerUp ch true
              workers := Function.update s.workers ch (⟨thread, .waiting⟩ :: s.workers ch) }
              other = s.taken other := by
            simp only [State.taken]
            by_cases hother : other = ch
            · rw [hother, Function.update_self]
              rfl
            · rw [Function.update_of_ne hother]
          rw [htaken]
          exact h.fifo other
        · intro r hr
          obtain ⟨⟨w, hw, hthread⟩, hrequest⟩ := h.own r hr
          refine ⟨⟨w, ?_, hthread⟩, hrequest⟩
          simp only
          by_cases hother : r.ch = ch
          · rw [hother, Function.update_self]
            exact List.mem_cons_of_mem _ (hother ▸ hw)
          · rw [Function.update_of_ne hother]
            exact hw

/-- A worker goes on without taking or running a job. -/
theorem History.move (h : History s l) {ch : Channel} {thread : Nat} {pos : WorkerAt}
    (hw : s.workers ch = [⟨thread, pos⟩]) (hpos : pos.pending = none) (pos' : WorkerAt)
    (hpos' : pos'.pending = none)
    (heap : Addr → Option MtkProxyJob) (locks : Locks Nat Channel) :
    History { s with
      heap
      locks
      workers := Function.update s.workers ch [⟨thread, pos'⟩] } l := by
  refine ⟨h.bound, h.firedOnce, h.unfired, h.tickets, ?_, h.once, ?_⟩
  · intro other
    have hsame : State.taken { s with
        heap
        locks
        workers := Function.update s.workers ch [⟨thread, pos'⟩] } other = s.taken other := by
      simp only [State.taken]
      by_cases hother : other = ch
      · rw [hother, Function.update_self, hw]
        simp [hpos, hpos']
      · rw [Function.update_of_ne hother]
    rw [hsame]
    exact h.fifo other
  · intro r hr
    obtain ⟨hworker, hrequest⟩ := h.own r hr
    exact ⟨thread_update hw _ hworker, hrequest⟩

/-- The first job of a list becomes the one that the worker has taken. -/
theorem History.take (h : History s l) {ch : Channel} {thread : Nat} {job : Addr}
    {rest : List Addr} (hw : s.workers ch = [⟨thread, .waiting⟩]) (hl : l ch = job :: rest)
    (head tail : Channel → Option Addr) :
    History { s with
      proxyQHead := head
      proxyQTail := tail
      workers := Function.update s.workers ch [⟨thread, .took job⟩] }
      (Function.update l ch rest) := by
  refine ⟨h.bound, h.firedOnce, h.unfired, h.tickets, ?_, h.once, ?_⟩
  · intro other
    have hfifo := h.fifo other
    by_cases hother : other = ch
    · rw [hother] at hfifo ⊢
      have hbefore : s.taken ch = [] := by
        unfold State.taken
        rw [hw]
        rfl
      rw [hbefore, hl, List.append_nil] at hfifo
      simp only [State.taken, Function.update_self]
      rw [List.append_assoc]
      exact hfifo
    · simp only [State.taken]
      rw [Function.update_of_ne hother, Function.update_of_ne hother]
      exact hfifo
  · intro r hr
    obtain ⟨hworker, hrequest⟩ := h.own r hr
    exact ⟨thread_update hw _ hworker, hrequest⟩

/-- The job that the worker has taken becomes the last that was run. -/
theorem History.run (h : History s l) (hcells : Cells s place l) {ch : Channel} {thread : Nat}
    {job : Addr} {j : MtkProxyJob} (hw : s.workers ch = [⟨thread, .took job⟩])
    (hj : s.heap job = some j) (locks : Locks Nat Channel) :
    History { s with
      locks
      runs := s.runs ++ [⟨ch, thread, s.ticket job, j.cb, j.param⟩]
      workers := Function.update s.workers ch [⟨thread, .running job⟩] } l := by
  have htaken : s.taken ch = [s.ticket job] := by
    unfold State.taken
    rw [hw]
    rfl
  refine ⟨h.bound, h.firedOnce, h.unfired, h.tickets, ?_, ?_, ?_⟩
  · intro other
    have hfifo := h.fifo other
    simp only [State.startedOn, State.taken, List.filter_append, List.map_append]
    by_cases hother : other = ch
    · rw [hother] at hfifo ⊢
      rw [htaken] at hfifo
      rw [Function.update_self, List.filter_cons_of_pos (by simp)]
      simp only [List.append_assoc] at hfifo ⊢
      exact hfifo
    · rw [Function.update_of_ne hother, List.filter_cons_of_neg (by simpa using Ne.symm hother),
        List.filter_nil, List.map_nil, List.append_nil]
      exact hfifo
  · simp only [List.map_append, List.map_singleton]
    apply List.nodup_append.mpr
    refine ⟨h.once, List.nodup_singleton _, ?_⟩
    intro k hk k' hk' heq
    rw [List.mem_singleton.mp hk'] at heq
    exact h.not_run htaken rfl (heq ▸ hk)
  · intro r hr
    simp only at hr ⊢
    rcases List.mem_append.mp hr with hold | hnew
    · obtain ⟨hworker, hrequest⟩ := h.own r hold
      exact ⟨thread_update hw _ hworker, hrequest⟩
    · rw [List.mem_singleton.mp hnew]
      have hbusy : place job = .busy ch := by
        rw [hcells.busy, hw]
        exact ⟨_, List.mem_singleton_self _, rfl⟩
      have hch := hcells.channel ch job j hj (.inr hbusy)
      obtain ⟨request, hrequest, hcb, hparam, hindex⟩ := hcells.requested job j hj
      constructor
      · rw [Function.update_self]
        exact ⟨_, List.mem_singleton_self _, rfl⟩
      · exact ⟨request, hrequest, hcb, hparam, hch.symm.trans hindex⟩

end History

section Runs

/-- The invariant, with the places and lists that it is about. -/
structure Inv (s : State) (place : Addr → Place) (l : Channel → List Addr) : Prop where
  workers : Workers s.proxyWorkerUp s.workers s.locks
  cells : Cells s place l
  history : History s l

/-- The next state has the invariant, and a job leaves its list only when the worker of
the channel takes it. -/
def Advances (s : State) (l : Channel → List Addr) (op : Op) : Prop :=
  ∃ s' place l', exec s op = some s' ∧ Inv s' place l' ∧
    ∀ ch ticket, ticket ∈ (l ch).map s.ticket → ticket ∈ (l' ch).map s'.ticket ∨
      ∃ thread job, op = .take ch thread ∧ ⟨thread, .took job⟩ ∈ s'.workers ch ∧
        s'.ticket job = ticket

variable {s : State} {place : Addr → Place} {l : Channel → List Addr}

theorem inv_start : Inv {} (fun _ => .free) (fun _ => []) := by
  constructor
  · constructor
    · exact .initial
    · intro ch
      exact Nat.zero_le 1
    · intro ch
      exact iff_of_false Bool.false_ne_true (fun h => h rfl)
    · intro ch other w hw
      cases hw
    · intro ch w hw
      cases hw
  · constructor
    · intro a
      exact iff_of_true rfl rfl
    · intro a j hj
      cases hj
    · exact .nil
    · intro a
      exact iff_of_false List.not_mem_nil Place.noConfusion
    · intro ch
      exact .nil _
    · intro ch a
      exact iff_of_false List.not_mem_nil Place.noConfusion
    · intro ch a
      exact iff_of_false Place.noConfusion (fun ⟨w, hw, _⟩ => List.not_mem_nil hw)
    · intro ch a j hj
      cases hj
  · constructor
    · intro e he
      cases he
    · exact .nil
    · intro a ha
      cases ha
    · intro a ha
      cases ha
    · intro ch
      rfl
    · exact .nil
    · intro r hr
      cases hr

theorem Inv.request (h : Inv s place l) {job : Option Addr} {request : Request} {armed : Bool}
    (henabled : Enabled s (.request job request armed)) :
    Advances s l (.request job request armed) := by
  cases job with
  | none => exact ⟨s, place, l, rfl, h, fun _ _ hmem => .inl hmem⟩
  | some job =>
      have hfree : s.heap job = none := henabled
      refine ⟨_, _, l, rfl, ⟨h.workers, h.cells.request hfree request armed,
        h.history.request h.cells hfree request armed⟩, ?_⟩
      intro ch ticket hmem
      left
      rw [← h.cells.map_ticket_request hfree ch s.requests.length] at hmem
      exact hmem

theorem Inv.timerFired (h : Inv s place l) {job : Addr} {created : Option Nat}
    (henabled : Enabled s (.timerFired job created)) : Advances s l (.timerFired job created) := by
  obtain ⟨htimer, hfresh⟩ := henabled
  have hplace := (h.cells.timers job).mp htimer
  obtain ⟨j, hj⟩ := h.cells.allocated (a := job) (by rw [hplace]; exact Place.noConfusion)
  obtain ⟨heap, head, tail, hexec, hcells⟩ :=
    h.cells.enqueue hplace hj (s.fired ++ [(j.ch, s.ticket job)])
  have hhistory := h.history.filed h.cells htimer j.ch heap head tail
  refine ⟨_, _, _, ?_, ⟨?_, hcells.start j.ch created, hhistory.start j.ch created⟩, ?_⟩
  · simp only [exec, mtkProxyTimerFired, hj, hexec, Option.map_some]
  · unfold startWorker
    split_ifs with hup
    · exact h.workers
    · cases created with
      | none => exact h.workers
      | some thread =>
          obtain ⟨hnew, hheld⟩ := hfresh thread rfl
          exact h.workers.start (by simpa using hup) hnew hheld
  · intro ch ticket hmem
    left
    have hticket : (startWorker j.ch created { s with
        heap
        proxyQHead := head
        proxyQTail := tail
        timers := s.timers.erase job
        fired := s.fired ++ [(j.ch, s.ticket job)] }).ticket = s.ticket := by
      unfold startWorker
      split_ifs
      · rfl
      · cases created with
        | none => rfl
        | some thread => rfl
    rw [hticket]
    by_cases hch : ch = j.ch
    · rw [hch, Function.update_self, List.map_append]
      exact List.mem_append_left _ (hch ▸ hmem)
    · rw [Function.update_of_ne hch]
      exact hmem

theorem Inv.take (h : Inv s place l) {ch : Channel} {thread : Nat}
    (henabled : Enabled s (.take ch thread)) : Advances s l (.take ch thread) := by
  obtain ⟨hmem, hhead⟩ := henabled
  have hw := h.workers.only hmem
  obtain ⟨job, hjob⟩ := Option.ne_none_iff_exists'.mp hhead
  obtain ⟨rest, head, tail, hl, hexec, hcells⟩ := h.cells.take hw hjob
  have hworkers := h.workers.move hw (.took job) h.workers.sound (fun _ _ => rfl)
    (h.workers.held ch _ hmem)
  refine ⟨_, _, _, hexec, ⟨hworkers, hcells, h.history.take hw hl head tail⟩, ?_⟩
  intro other ticket hticket
  by_cases hother : other = ch
  · rw [hother, hl] at hticket
    rcases List.mem_cons.mp hticket with hfirst | hrest
    · right
      refine ⟨thread, job, by rw [hother], ?_, hfirst.symm⟩
      simp only
      rw [hother, Function.update_self]
      exact List.mem_singleton_self _
    · left
      rw [hother, Function.update_self]
      exact hrest
  · left
    rw [Function.update_of_ne hother]
    exact hticket

theorem Inv.run (h : Inv s place l) {ch : Channel} {thread : Nat} {job : Addr}
    (henabled : Enabled s (.run ch thread job)) : Advances s l (.run ch thread job) := by
  obtain ⟨hmem, hfree⟩ := henabled
  have hw := h.workers.only hmem
  have hheld : s.locks.held thread = [] := h.workers.held ch _ hmem
  have hplace : place job = .busy ch := by
    rw [h.cells.busy]
    exact ⟨_, hmem, rfl⟩
  obtain ⟨j, hj⟩ := h.cells.allocated (a := job) (by rw [hplace]; exact Place.noConfusion)
  rw [mtkChannelIndex_val] at hfree
  have hworkers := h.workers.move hw (.running job)
    (h.workers.sound.acquire (t := thread) hfree)
    (fun other hother => Function.update_of_ne hother _ _)
    ⟨[], by simp only [Locks.acquire, Function.update_self, hheld, List.nil_append]⟩
  have hcells := h.cells.workers (jobs_update hw (.running job) rfl) s.proxyWorkerUp
    (s.locks.acquire thread ch) (s.runs ++ [⟨ch, thread, s.ticket job, j.cb, j.param⟩])
  refine ⟨_, place, l, ?_, ⟨hworkers, hcells, h.history.run h.cells hw hj _⟩,
    fun _ _ hticket => .inl hticket⟩
  simp only [exec, runJob, hj, Option.map_some, mtkChannelIndex_val, moveWorker, hw,
    List.map_cons, List.map_nil, if_true]

theorem Inv.leave (h : Inv s place l) {ch : Channel} {thread : Nat} {job : Addr}
    (henabled : Enabled s (.leave ch thread job)) : Advances s l (.leave ch thread job) := by
  obtain ⟨hmem, hheld⟩ := henabled
  have hw := h.workers.only hmem
  rw [mtkChannelIndex_val] at hheld
  have hworkers := h.workers.move hw (.ran job) (h.workers.sound.release hheld)
    (fun other hother => Function.update_of_ne hother _ _)
    (by simp only [Holds, Locks.release, Function.update_self, hheld, List.tail_cons])
  have hcells := h.cells.workers (jobs_update hw (.ran job) rfl) s.proxyWorkerUp
    (s.locks.release thread ch) s.runs
  have hhistory := h.history.move hw rfl (.ran job) rfl s.heap (s.locks.release thread ch)
  refine ⟨_, place, l, ?_, ⟨hworkers, hcells, hhistory⟩, fun _ _ hticket => .inl hticket⟩
  simp only [exec, unlockJob, mtkChannelIndex_val, moveWorker, hw, List.map_cons, List.map_nil,
    if_true]

theorem Inv.free (h : Inv s place l) {ch : Channel} {thread : Nat} {job : Addr}
    (henabled : Enabled s (.free ch thread job)) : Advances s l (.free ch thread job) := by
  have hmem : ⟨thread, .ran job⟩ ∈ s.workers ch := henabled
  have hw := h.workers.only hmem
  have hplace : place job = .busy ch := by
    rw [h.cells.busy]
    exact ⟨_, hmem, rfl⟩
  obtain ⟨j, hj⟩ := h.cells.allocated (a := job) (by rw [hplace]; exact Place.noConfusion)
  have hworkers := h.workers.move hw .waiting h.workers.sound (fun _ _ => rfl)
    (h.workers.held ch _ hmem)
  have hhistory := h.history.move hw rfl .waiting rfl
    (Function.update s.heap job none) s.locks
  refine ⟨_, _, l, ?_, ⟨hworkers, h.cells.freed hw, hhistory⟩, fun _ _ hticket => .inl hticket⟩
  simp only [exec, freeJob, hj, Option.map_some, moveWorker, hw, List.map_cons, List.map_nil,
    if_true]

theorem Inv.next (h : Inv s place l) {op : Op} (henabled : Enabled s op) : Advances s l op := by
  cases op with
  | request job request armed => exact h.request henabled
  | timerFired job created => exact h.timerFired henabled
  | take ch thread => exact h.take henabled
  | run ch thread job => exact h.run henabled
  | leave ch thread job => exact h.leave henabled
  | free ch thread job => exact h.free henabled
  | lock thread ch =>
      obtain ⟨hfree, hruns⟩ := henabled
      have hcells := h.cells.workers (fun _ _ => Iff.rfl) s.proxyWorkerUp
        (s.locks.acquire thread ch) s.runs
      have hhistory := h.history
      exact ⟨_, place, l, rfl, ⟨h.workers.lock hfree hruns, hcells, ⟨hhistory.bound,
        hhistory.firedOnce, hhistory.unfired, hhistory.tickets, hhistory.fifo, hhistory.once,
        hhistory.own⟩⟩, fun _ _ hticket => .inl hticket⟩
  | unlock thread ch =>
      obtain ⟨rest, hheld, hinner⟩ := henabled
      have hcells := h.cells.workers (fun _ _ => Iff.rfl) s.proxyWorkerUp
        (s.locks.release thread ch) s.runs
      have hhistory := h.history
      exact ⟨_, place, l, rfl, ⟨h.workers.unlock hheld hinner, hcells, ⟨hhistory.bound,
        hhistory.firedOnce, hhistory.unfired, hhistory.tickets, hhistory.fifo, hhistory.once,
        hhistory.own⟩⟩, fun _ _ hticket => .inl hticket⟩

theorem Inv.mutex (h : Inv s place l) {ch : Channel} {thread : Nat} {job : Addr}
    (hrunning : ⟨thread, .running job⟩ ∈ s.workers ch) : s.locks.owner ch = some thread := by
  rw [h.workers.sound.owner]
  obtain ⟨outer, houter⟩ := h.workers.held ch _ hrunning
  simp only at houter
  rw [houter]
  exact List.mem_append_right outer (List.mem_singleton_self ch)

theorem Inv.law (h : Inv s place l) : ProxyLaw s := by
  constructor
  · intro ch
    refine ⟨l ch, h.cells.queues ch, ?_, h.history.fifo ch⟩
    intro job hjob
    rw [ne_eq, h.cells.free, (h.cells.queued ch job).mp hjob]
    exact Place.noConfusion
  · intro ch
    exact (h.cells.queues ch).tail_eq_none.trans (h.cells.queues ch).head_eq_none.symm
  · exact h.workers.one
  · exact h.history.once
  · exact h.history.own
  · intro ch thread job hrunning
    exact h.mutex hrunning
  · intro op henabled hfault
    obtain ⟨s', -, -, hexec, -⟩ := h.next henabled
    rw [hfault] at hexec
    cases hexec
  · intro op s' ch ticket hstep hqueued
    obtain ⟨henabled, hs'⟩ := hstep
    obtain ⟨t, place', l', hexec, hinv, hkept⟩ := h.next henabled
    rw [hs'] at hexec
    cases hexec
    obtain ⟨l₀, hqueue, hmem⟩ := hqueued
    have hsame : l₀ = l ch := hqueue.chain.unique (h.cells.queues ch).chain
    rw [hsame] at hmem
    rcases hkept ch ticket hmem with hstays | htaken
    · exact .inl ⟨l' ch, hinv.cells.queues ch, hstays⟩
    · exact .inr htaken

end Runs

/-- In every run the lists are well formed, and every job that is fired is run once, in
the order of its channel, by the channel's one worker. -/
theorem proxy_jobs (s : State) (h : Reachable (fun s => s = {}) Step s) : ProxyLaw s := by
  have hinv : ∃ place l, Inv s place l := by
    apply h.invariant (P := fun s => ∃ place l, Inv s place l)
    · intro s hs
      rw [hs]
      exact ⟨_, _, inv_start⟩
    · intro s op s' hs hstep
      obtain ⟨place, l, hs⟩ := hs
      obtain ⟨t, place', l', hexec, hinv, -⟩ := hs.next hstep.1
      rw [hstep.2] at hexec
      cases hexec
      exact ⟨place', l', hinv⟩
  obtain ⟨place, l, hinv⟩ := hinv
  exact hinv.law

/-- Two jobs of channel 3. The worker cannot be created for the one that fires first, and
runs it before the other one once it is. -/
theorem proxy_jobs_late_worker :
    ∃ s, Reachable (fun s => s = {}) Step s ∧ s.firedOn 3 = [1, 0] ∧
      s.runs = [⟨3, 9, 1, 20, 0⟩, ⟨3, 9, 0, 10, 0⟩] ∧ s.heap 200 = none ∧
      s.proxyQHead 3 = none ∧ s.workers 3 = [⟨9, .running 100⟩] ∧ ProxyLaw s := by
  have hstart : Reachable (fun s => s = ({} : State)) Step {} := .init rfl
  have hfirst := hstart.next (.request (some 100) ⟨10, 0, 3⟩ true) ⟨rfl, rfl⟩
  have hsecond := hfirst.next (.request (some 200) ⟨20, 0, 27⟩ true) ⟨rfl, rfl⟩
  have hnone : ∀ thread, (none : Option Nat) = some thread → False :=
    fun thread heq => Option.some_ne_none thread heq.symm
  have hrefused := hsecond.next (.timerFired 200 none)
    ⟨⟨by decide, fun thread heq => (hnone thread heq).elim⟩, rfl⟩
  have hcreated := hrefused.next (.timerFired 100 (some 9))
    ⟨⟨by decide, fun _ _ => ⟨fun _ _ hw => absurd hw List.not_mem_nil, rfl⟩⟩, rfl⟩
  have htaken := hcreated.next (.take 3 9) ⟨⟨by decide, by decide⟩, rfl⟩
  have hrun := htaken.next (.run 3 9 200) ⟨⟨by decide, by decide⟩, rfl⟩
  have hleft := hrun.next (.leave 3 9 200) ⟨⟨by decide, by decide⟩, rfl⟩
  have hran : (⟨9, .ran 200⟩ : Worker) ∈ [(⟨9, .ran 200⟩ : Worker)] := List.mem_singleton_self _
  have hfreed := hleft.next (.free 3 9 200) ⟨hran, rfl⟩
  have hother := hfreed.next (.take 3 9) ⟨⟨by decide, by decide⟩, rfl⟩
  have hagain := hother.next (.run 3 9 100) ⟨⟨by decide, by decide⟩, rfl⟩
  exact ⟨_, hagain, by decide, by decide, by decide, by decide, by decide, proxy_jobs _ hagain⟩

end MeizuM5c.Ril.Proxy
