import MeizuM5c.Ril.ProxyJobs

/-!
The workers of the proxies with the mutexes that they hold, and the jobs in the heap, each
of which is in one place: with its timer, in the list of its channel, or with the worker.
-/

namespace MeizuM5c.Ril.Proxy

open Lib Mutex

theorem mtkChannelIndex_val (ch : Channel) : mtkChannelIndex ch.val = ch := by
  unfold mtkChannelIndex
  rw [if_neg (by omega)]
  apply Fin.ext
  exact Nat.mod_eq_of_lt ch.isLt

section Workers

/-- A worker holds its channel's mutex, below those that the callback has taken, while it
runs a job, and nothing otherwise. -/
def Holds (ch : Channel) (held : List Channel) : WorkerAt → Prop
  | .running _ => ∃ outer, held = outer ++ [ch]
  | _ => held = []

structure Workers (up : Channel → Bool) (workers : Channel → List Worker)
    (locks : Locks Nat Channel) : Prop where
  sound : locks.Sound
  one : ∀ ch, (workers ch).length ≤ 1
  up : ∀ ch, up ch = true ↔ workers ch ≠ []
  threads : ∀ ch other, ∀ w ∈ workers ch, ∀ v ∈ workers other, w.thread = v.thread → ch = other
  held : ∀ ch, ∀ w ∈ workers ch, Holds ch (locks.held w.thread) w.pos

variable {up : Channel → Bool} {workers : Channel → List Worker} {locks : Locks Nat Channel}
  {ch : Channel} {w : Worker} {thread : Nat} {pos : WorkerAt}

theorem Workers.only (h : Workers up workers locks) (hw : w ∈ workers ch) : workers ch = [w] := by
  have hone := h.one ch
  cases hlist : workers ch with
  | nil =>
      rw [hlist] at hw
      cases hw
  | cons v rest =>
      rw [hlist] at hone hw
      have hrest : rest = [] := by
        apply List.eq_nil_of_length_eq_zero
        simpa using hone
      rw [hrest] at hw ⊢
      rw [List.mem_singleton.mp hw]

theorem Workers.one_update (h : Workers up workers locks) (ch : Channel) (w : Worker)
    (other : Channel) : (Function.update workers ch [w] other).length ≤ 1 := by
  by_cases hother : other = ch
  · rw [hother, Function.update_self]
    rfl
  · rw [Function.update_of_ne hother]
    exact h.one other

/-- The first worker of a channel. -/
theorem Workers.start (h : Workers up workers locks) (hup : up ch = false)
    (hfresh : ∀ other, ∀ v ∈ workers other, v.thread ≠ thread) (hheld : locks.held thread = []) :
    Workers (Function.update up ch true)
      (Function.update workers ch (⟨thread, .waiting⟩ :: workers ch)) locks := by
  have hnone : workers ch = [] := by
    by_contra hsome
    have htrue := (h.up ch).mpr hsome
    rw [hup] at htrue
    cases htrue
  rw [hnone]
  refine ⟨h.sound, h.one_update ch _, ?_, ?_, ?_⟩
  · intro other
    by_cases hother : other = ch
    · rw [hother, Function.update_self, Function.update_self]
      exact iff_of_true rfl (List.cons_ne_nil _ _)
    · rw [Function.update_of_ne hother, Function.update_of_ne hother]
      exact h.up other
  · intro a b w hw v hv heq
    by_cases ha : a = ch
    · by_cases hb : b = ch
      · rw [ha, hb]
      · rw [ha, Function.update_self, List.mem_singleton] at hw
        rw [Function.update_of_ne hb] at hv
        rw [hw] at heq
        exact absurd heq.symm (hfresh b v hv)
    · rw [Function.update_of_ne ha] at hw
      by_cases hb : b = ch
      · rw [hb, Function.update_self, List.mem_singleton] at hv
        rw [hv] at heq
        exact absurd heq (hfresh a w hw)
      · rw [Function.update_of_ne hb] at hv
        exact h.threads a b w hw v hv heq
  · intro other w hw
    by_cases hother : other = ch
    · rw [hother, Function.update_self, List.mem_singleton] at hw
      rw [hw]
      exact hheld
    · rw [Function.update_of_ne hother] at hw
      exact h.held other w hw

/-- A worker goes on, and takes or gives back mutexes with it. -/
theorem Workers.move (h : Workers up workers locks) (hw : workers ch = [⟨thread, pos⟩])
    (pos' : WorkerAt) {locks' : Locks Nat Channel} (hsound : locks'.Sound)
    (hsame : ∀ other, other ≠ thread → locks'.held other = locks.held other)
    (hholds : Holds ch (locks'.held thread) pos') :
    Workers up (Function.update workers ch [⟨thread, pos'⟩]) locks' := by
  have hmem : (⟨thread, pos⟩ : Worker) ∈ workers ch := by simp [hw]
  refine ⟨hsound, h.one_update ch _, ?_, ?_, ?_⟩
  · intro other
    by_cases hother : other = ch
    · rw [hother, Function.update_self, h.up ch, hw]
      simp
    · rw [Function.update_of_ne hother]
      exact h.up other
  · have hold : ∀ a, ∀ v ∈ Function.update workers ch [⟨thread, pos'⟩] a,
        ∃ v' ∈ workers a, v'.thread = v.thread := by
      intro a v hv
      by_cases ha : a = ch
      · rw [ha, Function.update_self, List.mem_singleton] at hv
        rw [ha, hv]
        exact ⟨_, hmem, rfl⟩
      · rw [Function.update_of_ne ha] at hv
        exact ⟨v, hv, rfl⟩
    intro a b w hw v hv heq
    obtain ⟨w', hw', hwthread⟩ := hold a w hw
    obtain ⟨v', hv', hvthread⟩ := hold b v hv
    exact h.threads a b w' hw' v' hv' (hwthread.trans (heq.trans hvthread.symm))
  · intro other v hv
    by_cases hother : other = ch
    · rw [hother, Function.update_self, List.mem_singleton] at hv
      rw [hv, hother]
      exact hholds
    · rw [Function.update_of_ne hother] at hv
      have hne : v.thread ≠ thread := by
        intro heq
        exact hother (h.threads other ch v hv _ hmem heq)
      rw [hsame v.thread hne]
      exact h.held other v hv

/-- Another thread, or a callback, takes a mutex. -/
theorem Workers.lock (h : Workers up workers locks) (hfree : locks.owner ch = none)
    (hruns : ∀ other, ∀ w ∈ workers other, w.thread = thread → ∃ job, w.pos = .running job) :
    Workers up workers (locks.acquire thread ch) := by
  refine ⟨h.sound.acquire hfree, h.one, h.up, h.threads, ?_⟩
  intro other w hw
  have hheld := h.held other w hw
  simp only [Locks.acquire]
  by_cases heq : w.thread = thread
  · obtain ⟨job, hpos⟩ := hruns other w hw heq
    rw [hpos] at hheld ⊢
    obtain ⟨outer, houter⟩ := hheld
    rw [heq, Function.update_self, ← heq, houter]
    exact ⟨ch :: outer, rfl⟩
  · rw [Function.update_of_ne heq]
    exact hheld

/-- A mutex is given back by a thread that is no worker, or by a callback that has taken
it. -/
theorem Workers.unlock (h : Workers up workers locks) {rest : List Channel}
    (hheld : locks.held thread = ch :: rest)
    (hinner : ∀ other, ∀ w ∈ workers other, w.thread = thread → rest ≠ []) :
    Workers up workers (locks.release thread ch) := by
  refine ⟨h.sound.release hheld, h.one, h.up, h.threads, ?_⟩
  intro other w hw
  have hbefore := h.held other w hw
  simp only [Locks.release]
  by_cases heq : w.thread = thread
  · have hrest := hinner other w hw heq
    rw [heq, hheld] at hbefore
    rw [heq, Function.update_self, hheld, List.tail_cons]
    cases hpos : w.pos with
    | running job =>
        rw [hpos] at hbefore
        obtain ⟨outer, houter⟩ := hbefore
        cases outer with
        | nil => exact absurd (List.cons.inj houter).2 hrest
        | cons c outer => exact ⟨outer, (List.cons.inj houter).2⟩
    | waiting =>
        rw [hpos] at hbefore
        cases hbefore
    | took job =>
        rw [hpos] at hbefore
        cases hbefore
    | ran job =>
        rw [hpos] at hbefore
        cases hbefore
  · rw [Function.update_of_ne heq]
    exact hbefore

end Workers

/-- The worker of a channel stays the same thread. -/
theorem thread_update {workers : Channel → List Worker} {ch other : Channel} {thread t : Nat}
    {pos : WorkerAt} (hw : workers ch = [⟨thread, pos⟩]) (pos' : WorkerAt)
    (h : ∃ w ∈ workers other, w.thread = t) :
    ∃ w ∈ Function.update workers ch [⟨thread, pos'⟩] other, w.thread = t := by
  obtain ⟨w, hmem, hthread⟩ := h
  by_cases hother : other = ch
  · rw [hother, hw, List.mem_singleton] at hmem
    rw [hother, Function.update_self]
    exact ⟨_, List.mem_singleton_self _, by rw [← hthread, hmem]⟩
  · rw [Function.update_of_ne hother]
    exact ⟨w, hmem, hthread⟩

section Cells

/-- Where a job is. A job whose timer could not be set is idle for ever. -/
inductive Place where
  | free
  | idle
  | timer
  | queued (ch : Channel)
  | busy (ch : Channel)
  deriving DecidableEq

def WorkerAt.job : WorkerAt → Option Addr
  | .waiting => none
  | .took job => some job
  | .running job => some job
  | .ran job => some job

/-- The jobs in the heap, each in one place, with the lists of the channels. -/
structure Cells (s : State) (place : Addr → Place) (l : Channel → List Addr) : Prop where
  free : ∀ a, s.heap a = none ↔ place a = .free
  requested : ∀ a j, s.heap a = some j → ∃ request, s.requests[s.ticket a]? = some request ∧
    j.cb = request.cb ∧ j.param = request.param ∧ j.ch = mtkChannelIndex request.proxyId
  timersOnce : s.timers.Nodup
  timers : ∀ a, a ∈ s.timers ↔ place a = .timer
  queues : ∀ ch, s.Queue ch (l ch)
  queued : ∀ ch a, a ∈ l ch ↔ place a = .queued ch
  busy : ∀ ch a, place a = .busy ch ↔ ∃ w ∈ s.workers ch, w.pos.job = some a
  channel : ∀ ch a j, s.heap a = some j → place a = .queued ch ∨ place a = .busy ch → j.ch = ch

variable {s : State} {place : Addr → Place} {l : Channel → List Addr}

theorem Cells.allocated (h : Cells s place l) {a : Addr} (ha : place a ≠ .free) :
    ∃ j, s.heap a = some j :=
  Option.ne_none_iff_exists'.mp (fun hnone => ha ((h.free a).mp hnone))

theorem Cells.not_queued (h : Cells s place l) {a : Addr} {ch : Channel}
    (ha : place a ≠ .queued ch) : a ∉ l ch :=
  fun hmem => ha ((h.queued ch a).mp hmem)

theorem next_update (s : State) (a : Addr) (j : MtkProxyJob) :
    State.next { s with heap := Function.update s.heap a (some j) } =
      Function.update s.next a j.next := by
  funext b
  simp only [State.next]
  by_cases hb : b = a
  · rw [hb, Function.update_self, Function.update_self]
    rfl
  · rw [Function.update_of_ne hb, Function.update_of_ne hb]
    rfl

/-- A job that moves between two other places. -/
theorem place_elsewhere {job : Addr} {old new other : Place} (hplace : place job = old)
    (hold : old ≠ other) (hnew : new ≠ other) (a : Addr) :
    place a = other ↔ Function.update place job new a = other := by
  by_cases ha : a = job
  · rw [ha, Function.update_self, hplace]
    exact iff_of_false hold hnew
  · rw [Function.update_of_ne ha]

theorem Cells.request (h : Cells s place l) {job : Addr} (hfree : s.heap job = none)
    (request : Request) (armed : Bool) :
    Cells (requestProxyTimedCallback job request armed s)
      (Function.update place job (if armed then .timer else .idle)) l := by
  have hplace : place job = .free := (h.free job).mp hfree
  have hnew : ∃ new, (if armed then Place.timer else .idle) = new ∧ new ≠ .free ∧
      (new = .timer ↔ armed = true) ∧ (∀ ch, new ≠ .queued ch) ∧ ∀ ch, new ≠ .busy ch := by
    cases armed with
    | true => exact ⟨.timer, by simp⟩
    | false => exact ⟨.idle, by simp⟩
  obtain ⟨new, hnew, hnotfree, htimer, hnotqueued, hnotbusy⟩ := hnew
  rw [hnew]
  constructor
  · intro a
    simp only [requestProxyTimedCallback]
    by_cases ha : a = job
    · rw [ha, Function.update_self, Function.update_self]
      exact iff_of_false (Option.some_ne_none _) hnotfree
    · rw [Function.update_of_ne ha, Function.update_of_ne ha]
      exact h.free a
  · intro a j hj
    simp only [requestProxyTimedCallback] at hj ⊢
    by_cases ha : a = job
    · rw [ha, Function.update_self] at hj
      cases hj
      rw [ha, Function.update_self]
      exact ⟨request, List.getElem?_concat_length, rfl, rfl, rfl⟩
    · rw [Function.update_of_ne ha] at hj
      rw [Function.update_of_ne ha]
      obtain ⟨request', hrequest, hsame⟩ := h.requested a j hj
      refine ⟨request', ?_, hsame⟩
      rw [List.getElem?_append_left (List.getElem?_eq_some_iff.mp hrequest).1]
      exact hrequest
  · have hold : job ∉ s.timers := by simp [h.timers, hplace]
    simp only [requestProxyTimedCallback]
    split_ifs
    · exact List.nodup_cons.mpr ⟨hold, h.timersOnce⟩
    · exact h.timersOnce
  · intro a
    simp only [requestProxyTimedCallback]
    by_cases ha : a = job
    · have hold : job ∉ s.timers := by simp [h.timers, hplace]
      rw [ha, Function.update_self, htimer]
      split_ifs with harmed
      · exact iff_of_true List.mem_cons_self harmed
      · exact iff_of_false hold harmed
    · rw [Function.update_of_ne ha, ← h.timers a]
      split_ifs
      · rw [List.mem_cons, or_iff_right ha]
      · rfl
  · intro ch
    apply (h.queues ch).congr
    intro a ha
    have hnotin : job ∉ l ch := h.not_queued (hplace ▸ Place.noConfusion)
    have hne : a ≠ job := fun heq => hnotin (heq ▸ ha)
    simp only [State.next, requestProxyTimedCallback]
    rw [Function.update_of_ne hne]
  · intro ch a
    rw [h.queued ch a]
    exact place_elsewhere hplace Place.noConfusion (hnotqueued ch) a
  · intro ch a
    simp only [requestProxyTimedCallback]
    rw [← h.busy ch a]
    exact (place_elsewhere hplace Place.noConfusion (hnotbusy ch) a).symm
  · intro ch a j hj hat
    simp only [requestProxyTimedCallback] at hj
    by_cases ha : a = job
    · rw [ha, Function.update_self] at hat
      rcases hat with hat | hat
      · exact absurd hat (hnotqueued ch)
      · exact absurd hat (hnotbusy ch)
    · rw [Function.update_of_ne ha] at hj hat
      exact h.channel ch a j hj hat

/-- The same jobs, with other pointers to the next one. -/
def SameJobs (heap heap' : Addr → Option MtkProxyJob) : Prop :=
  ∀ a, (heap' a = none ↔ heap a = none) ∧ ∀ j', heap' a = some j' →
    ∃ j, heap a = some j ∧ j'.cb = j.cb ∧ j'.param = j.param ∧ j'.ch = j.ch

theorem SameJobs.link {heap heap' : Addr → Option MtkProxyJob} (h : SameJobs heap heap')
    {a : Addr} {j : MtkProxyJob} (hj : heap' a = some j) (next : Option Addr) :
    SameJobs heap (Function.update heap' a (some { j with next })) := by
  intro b
  by_cases hb : b = a
  · rw [hb, Function.update_self]
    constructor
    · have hnone := (h a).1
      rw [hj] at hnone
      exact iff_of_false (Option.some_ne_none _) (fun hheap => Option.some_ne_none j (hnone.mpr hheap))
    · intro j' hj'
      cases hj'
      exact (h a).2 j hj
  · rw [Function.update_of_ne hb]
    exact h b

theorem SameJobs.refl (heap : Addr → Option MtkProxyJob) : SameJobs heap heap :=
  fun _ => ⟨Iff.rfl, fun j hj => ⟨j, hj, rfl, rfl, rfl⟩⟩

/-- A job goes from the timers to the end of a list. -/
theorem Cells.filed (h : Cells s place l) {job : Addr} {j : MtkProxyJob}
    (hplace : place job = .timer) (hj : s.heap job = some j)
    {heap : Addr → Option MtkProxyJob} {head tail : Channel → Option Addr}
    (hsame : SameJobs s.heap heap)
    (hqueues : ∀ ch, LinkedQueue (fun a => (heap a).bind MtkProxyJob.next) (head ch) (tail ch)
      (Function.update l j.ch (l j.ch ++ [job]) ch)) (fired : List (Channel × Nat)) :
    Cells { s with
        heap
        proxyQHead := head
        proxyQTail := tail
        timers := s.timers.erase job
        fired }
      (Function.update place job (.queued j.ch))
      (Function.update l j.ch (l j.ch ++ [job])) := by
  constructor
  · intro a
    rw [(hsame a).1, h.free a]
    exact place_elsewhere hplace Place.noConfusion Place.noConfusion a
  · intro a j' hj'
    obtain ⟨j₀, hj₀, hcb, hparam, hch⟩ := (hsame a).2 j' hj'
    rw [hcb, hparam, hch]
    exact h.requested a j₀ hj₀
  · exact h.timersOnce.erase job
  · intro a
    simp only [h.timersOnce.mem_erase_iff]
    by_cases ha : a = job
    · rw [ha, Function.update_self]
      exact iff_of_false (fun hmem => hmem.1 rfl) Place.noConfusion
    · rw [Function.update_of_ne ha, h.timers a]
      exact and_iff_right ha
  · exact hqueues
  · intro ch a
    by_cases hch : ch = j.ch
    · rw [hch, Function.update_self, List.mem_append, List.mem_singleton, h.queued]
      by_cases ha : a = job
      · rw [ha, Function.update_self]
        exact iff_of_true (.inr rfl) rfl
      · rw [Function.update_of_ne ha]
        exact or_iff_left ha
    · rw [Function.update_of_ne hch, h.queued]
      exact place_elsewhere hplace Place.noConfusion
        (fun heq => hch (Place.queued.inj heq).symm) a
  · intro ch a
    simp only
    rw [← h.busy ch a]
    exact (place_elsewhere hplace Place.noConfusion Place.noConfusion a).symm
  · intro ch a j' hj' hat
    obtain ⟨j₀, hj₀, -, -, hch⟩ := (hsame a).2 j' hj'
    rw [hch]
    by_cases ha : a = job
    · rw [ha, Function.update_self] at hat
      rw [ha, hj] at hj₀
      cases hj₀
      rcases hat with hat | hat
      · exact Place.queued.inj hat
      · cases hat
    · rw [Function.update_of_ne ha] at hat
      exact h.channel ch a j₀ hj₀ hat

/-- Filing a job never writes to a block that is not allocated. -/
theorem Cells.enqueue (h : Cells s place l) {job : Addr} {j : MtkProxyJob}
    (hplace : place job = .timer) (hj : s.heap job = some j) (fired : List (Channel × Nat)) :
    ∃ heap head tail,
      enqueue j.ch job { s with
          heap := Function.update s.heap job (some { j with next := none })
          timers := s.timers.erase job
          fired } =
        some { s with
          heap
          proxyQHead := head
          proxyQTail := tail
          timers := s.timers.erase job
          fired } ∧
      Cells { s with
          heap
          proxyQHead := head
          proxyQTail := tail
          timers := s.timers.erase job
          fired }
        (Function.update place job (.queued j.ch))
        (Function.update l j.ch (l j.ch ++ [job])) := by
  have hnotin : ∀ ch, job ∉ l ch := fun ch => h.not_queued (hplace ▸ Place.noConfusion)
  have hreset := (SameJobs.refl s.heap).link hj none
  generalize hheap : Function.update s.heap job (some { j with next := none }) = heap at hreset ⊢
  have hnext : (fun a => (heap a).bind MtkProxyJob.next) = Function.update s.next job none := by
    rw [← hheap]
    exact next_update s job { j with next := none }
  have hqueue : ∀ ch, LinkedQueue (fun a => (heap a).bind MtkProxyJob.next) (s.proxyQHead ch)
      (s.proxyQTail ch) (l ch) := by
    intro ch
    rw [hnext]
    apply (h.queues ch).congr
    intro b hb
    have hne : b ≠ job := fun heq => hnotin ch (heq ▸ hb)
    rw [Function.update_of_ne hne]
  have hjob : (heap job).bind MtkProxyJob.next = none := by
    rw [← hheap, Function.update_self]
    rfl
  unfold Proxy.enqueue
  cases htail : s.proxyQTail j.ch with
  | none =>
      exact ⟨_, _, _, rfl, h.filed hplace hj hreset
        (queues_push_first hqueue htail hjob (hnotin j.ch)) fired⟩
  | some last =>
      have hmine := hqueue j.ch
      rw [htail] at hmine
      have hlast : last ∈ l j.ch := hmine.tail_mem
      have hlastplace := (h.queued j.ch last).mp hlast
      have halloc : ∃ cell, heap last = some cell := by
        apply Option.ne_none_iff_exists'.mp
        rw [ne_eq, (hreset last).1, h.free, hlastplace]
        exact Place.noConfusion
      obtain ⟨cell, hcell⟩ := halloc
      simp only [hcell, Option.map_some]
      refine ⟨_, _, _, rfl, h.filed hplace hj (hreset.link hcell (some job)) ?_ fired⟩
      have hlinked := next_update { s with heap } last { cell with next := some job }
      unfold State.next at hlinked
      simp only at hlinked
      rw [hlinked]
      apply queues_push_last hqueue htail hjob (hnotin j.ch)
      intro ch hmem
      rw [h.queued, hlastplace] at hmem
      exact (Place.queued.inj hmem).symm

/-- The workers go on with the jobs that they have. -/
theorem Cells.workers (h : Cells s place l) {workers : Channel → List Worker}
    (hjobs : ∀ ch a, (∃ w ∈ workers ch, w.pos.job = some a) ↔
      ∃ w ∈ s.workers ch, w.pos.job = some a)
    (up : Channel → Bool) (locks : Locks Nat Channel) (runs : List Run) :
    Cells { s with
      workers
      proxyWorkerUp := up
      locks
      runs } place l := by
  refine ⟨h.free, h.requested, h.timersOnce, h.timers, h.queues, h.queued, ?_, h.channel⟩
  intro ch a
  exact (h.busy ch a).trans (hjobs ch a).symm

theorem jobs_update {workers : Channel → List Worker} {ch : Channel} {thread : Nat}
    {pos : WorkerAt} (hw : workers ch = [⟨thread, pos⟩]) (pos' : WorkerAt)
    (hjob : pos'.job = pos.job) (other : Channel) (a : Addr) :
    (∃ w ∈ Function.update workers ch [⟨thread, pos'⟩] other, w.pos.job = some a) ↔
      ∃ w ∈ workers other, w.pos.job = some a := by
  by_cases hother : other = ch
  · rw [hother, Function.update_self, hw]
    simp [hjob]
  · rw [Function.update_of_ne hother]

theorem Cells.start (h : Cells s place l) (ch : Channel) (created : Option Nat) :
    Cells (startWorker ch created s) place l := by
  unfold startWorker
  split_ifs
  · exact h
  · cases created with
    | none => exact h
    | some thread =>
        apply h.workers
        intro other a
        by_cases hother : other = ch
        · rw [hother, Function.update_self]
          simp [WorkerAt.job]
        · rw [Function.update_of_ne hother]

/-- The worker of a channel gets a job or frees it. -/
theorem Cells.busy_move (h : Cells s place l) {ch : Channel} {thread : Nat} {job : Addr}
    {pos pos' : WorkerAt} {new : Place} (hw : s.workers ch = [⟨thread, pos⟩])
    (hrest : ∀ a, a ≠ job → (pos'.job = some a ↔ pos.job = some a))
    (hjob : new = .busy ch ↔ pos'.job = some job)
    (hothers : ∀ other, other ≠ ch → place job ≠ .busy other ∧ new ≠ .busy other)
    (other : Channel) (a : Addr) :
    Function.update place job new a = .busy other ↔
      ∃ w ∈ Function.update s.workers ch [⟨thread, pos'⟩] other, w.pos.job = some a := by
  by_cases hother : other = ch
  · rw [hother, Function.update_self, List.exists_mem_cons_iff]
    by_cases ha : a = job
    · rw [ha, Function.update_self, hjob]
      simp
    · rw [Function.update_of_ne ha, h.busy ch a, hw, List.exists_mem_cons_iff, hrest a ha]
  · obtain ⟨hold, hnew⟩ := hothers other hother
    rw [Function.update_of_ne hother, ← h.busy other a]
    exact (place_elsewhere rfl hold hnew a).symm

/-- The first job of a list goes to the worker of the channel. -/
theorem Cells.take (h : Cells s place l) {ch : Channel} {thread : Nat} {job : Addr}
    (hw : s.workers ch = [⟨thread, .waiting⟩]) (hhead : s.proxyQHead ch = some job) :
    ∃ rest head tail, l ch = job :: rest ∧
      takeJob ch thread s = some { s with
        proxyQHead := head
        proxyQTail := tail
        workers := Function.update s.workers ch [⟨thread, .took job⟩] } ∧
      Cells { s with
        proxyQHead := head
        proxyQTail := tail
        workers := Function.update s.workers ch [⟨thread, .took job⟩] }
        (Function.update place job (.busy ch)) (Function.update l ch rest) := by
  obtain ⟨rest, hl, hrest⟩ := queues_pop h.queues hhead
  have hplace : place job = .queued ch := by
    rw [← h.queued, hl]
    exact List.mem_cons_self
  have hnodup := (h.queues ch).nodup
  rw [hl, List.nodup_cons] at hnodup
  obtain ⟨j, hj⟩ := h.allocated (a := job) (by rw [hplace]; exact Place.noConfusion)
  have hnext : s.next job = j.next := by
    unfold State.next
    rw [hj]
    rfl
  rw [hnext] at hrest
  refine ⟨rest, Function.update s.proxyQHead ch j.next,
    if j.next = none then Function.update s.proxyQTail ch none else s.proxyQTail, hl, ?_, ?_⟩
  · simp only [takeJob, hhead, hj, Option.map_some, moveWorker, hw, List.map_cons, List.map_nil,
      if_true]
  constructor
  · intro a
    rw [h.free a]
    exact place_elsewhere hplace Place.noConfusion Place.noConfusion a
  · exact h.requested
  · exact h.timersOnce
  · intro a
    simp only [h.timers a]
    exact place_elsewhere hplace Place.noConfusion Place.noConfusion a
  · exact hrest
  · intro other a
    by_cases hother : other = ch
    · rw [hother, Function.update_self]
      by_cases ha : a = job
      · rw [ha, Function.update_self]
        exact iff_of_false hnodup.1 Place.noConfusion
      · rw [Function.update_of_ne ha, ← h.queued, hl, List.mem_cons, or_iff_right ha]
    · rw [Function.update_of_ne hother, h.queued]
      exact place_elsewhere hplace (fun heq => hother (Place.queued.inj heq).symm)
        Place.noConfusion a
  · apply h.busy_move hw
    · intro a ha
      simp [WorkerAt.job, Ne.symm ha]
    · exact iff_of_true rfl rfl
    · intro other hother
      rw [hplace]
      exact ⟨Place.noConfusion, fun heq => hother (Place.busy.inj heq).symm⟩
  · intro other a j' hj' hat
    by_cases ha : a = job
    · rw [ha, Function.update_self] at hat
      rw [ha] at hj'
      rcases hat with hat | hat
      · cases hat
      · cases hat
        exact h.channel ch job j' hj' (.inl hplace)
    · rw [Function.update_of_ne ha] at hat
      exact h.channel other a j' hj' hat

/-- The worker frees its job. -/
theorem Cells.freed (h : Cells s place l) {ch : Channel} {thread : Nat} {job : Addr}
    (hw : s.workers ch = [⟨thread, .ran job⟩]) :
    Cells { s with
      heap := Function.update s.heap job none
      workers := Function.update s.workers ch [⟨thread, .waiting⟩] }
      (Function.update place job .free) l := by
  have hplace : place job = .busy ch := by
    rw [h.busy, hw]
    exact ⟨_, List.mem_singleton_self _, rfl⟩
  constructor
  · intro a
    simp only
    by_cases ha : a = job
    · rw [ha, Function.update_self, Function.update_self]
      exact iff_of_true rfl rfl
    · rw [Function.update_of_ne ha, Function.update_of_ne ha]
      exact h.free a
  · intro a j hj
    simp only at hj
    by_cases ha : a = job
    · rw [ha, Function.update_self] at hj
      cases hj
    · rw [Function.update_of_ne ha] at hj
      exact h.requested a j hj
  · exact h.timersOnce
  · intro a
    simp only [h.timers a]
    exact place_elsewhere hplace Place.noConfusion Place.noConfusion a
  · intro other
    apply (h.queues other).congr
    intro b hb
    have hnotin : job ∉ l other := h.not_queued (hplace ▸ Place.noConfusion)
    have hne : b ≠ job := fun heq => hnotin (heq ▸ hb)
    simp only [State.next]
    rw [Function.update_of_ne hne]
  · intro other a
    rw [h.queued]
    exact place_elsewhere hplace Place.noConfusion Place.noConfusion a
  · apply h.busy_move hw
    · intro a ha
      simp [WorkerAt.job, Ne.symm ha]
    · exact iff_of_false Place.noConfusion (Option.some_ne_none job).symm
    · intro other hother
      rw [hplace]
      exact ⟨fun heq => hother (Place.busy.inj heq).symm, Place.noConfusion⟩
  · intro other a j' hj' hat
    simp only at hj'
    by_cases ha : a = job
    · rw [ha, Function.update_self] at hj'
      cases hj'
    · rw [Function.update_of_ne ha] at hj' hat
      exact h.channel other a j' hj' hat

end Cells

end MeizuM5c.Ril.Proxy
