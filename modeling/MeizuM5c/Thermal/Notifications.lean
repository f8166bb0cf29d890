import MeizuM5c.Thermal.Sensors

/-!
The callbacks of the Thermal HAL and the thread of `pollLoop` that notifies them. The
poller copies `callbacks_` under `thermal_callback_mutex_` after it has let go of the
sensors, and sends from the copy without a lock, so that clients come and go between any
two of its steps.
-/

namespace MeizuM5c.Thermal

open Lib

inductive ThermalStatusCode where
  | success
  | failure
  deriving DecidableEq, Repr

structure ThermalStatus where
  code : ThermalStatusCode
  debugMessage : String := ""
  deriving DecidableEq, Repr

/-- `ι` are the interfaces up to `interfacesEqual`. -/
structure CallbackSetting (ι : Type) where
  callback : ι
  isFilterType : Bool
  type : TemperatureType
  deriving DecidableEq

section Code

variable {ι T : Type} [DecidableEq ι]

def registerThermalChangedCallback (callback : Option ι) (filterType : Bool)
    (type : TemperatureType) (callbacks : List (CallbackSetting ι)) :
    ThermalStatus × List (CallbackSetting ι) :=
  match callback with
  | none => (⟨.failure, "Invalid nullptr callback"⟩, callbacks)
  | some callback =>
      if callbacks.any (fun c => c.callback = callback) then
        (⟨.failure, "Same callback interface registered already"⟩, callbacks)
      else (⟨.success, ""⟩, callbacks ++ [⟨callback, filterType, type⟩])

def unregisterThermalChangedCallback (callback : Option ι)
    (callbacks : List (CallbackSetting ι)) : ThermalStatus × List (CallbackSetting ι) :=
  match callback with
  | none => (⟨.failure, "Invalid nullptr callback"⟩, callbacks)
  | some callback =>
      let kept := callbacks.filter (fun c => c.callback ≠ callback)
      if callbacks.any (fun c => c.callback = callback) then (⟨.success, ""⟩, kept)
      else (⟨.failure, "The callback was not registered before"⟩, kept)

/-- The test in front of `notifyThrottling`, which skips a callback whose filter does
not match. -/
def CallbackSetting.wants (c : CallbackSetting ι) (t : Temperature T) : Bool :=
  !(c.isFilterType && c.type ≠ t.type)

/-- Where the thread of `pollLoop` is: asleep, with changes but without the copy of the
callbacks, or in the loops that send, with what each of them still has to go through. -/
inductive Poller (ι T : Type) where
  | sleeping
  | collected (changed : List (Temperature T))
  | sending (callbacks : List (CallbackSetting ι)) (todo : List (Temperature T))
      (inner : List (CallbackSetting ι))

/-- One round of notifications: the changes of a poll, the copy of the callbacks, and
the calls of `notifyThrottling`. -/
structure Round (ι T : Type) where
  changed : List (Temperature T)
  callbacks : List (CallbackSetting ι)
  sent : List (ι × Temperature T) := []

/-- The HAL in a world, with what has happened so far; the newest round comes first. -/
structure ThermalHal (σ T ι : Type) where
  sensors : List (Sensor T)
  callbacks : List (CallbackSetting ι) := []
  poller : Poller ι T := .sleeping
  world : σ
  readings : List (Reading T) := []
  notifications : List (Temperature T) := []
  rounds : List (Round ι T) := []

inductive Action (σ ι : Type) where
  | poll
  | snapshot
  | send
  | register (callback : Option ι) (filterType : Bool) (type : TemperatureType)
  | unregister (callback : Option ι)
  | env (world : σ)

/-- A turn of the loops that send. -/
def Action.isSend {σ : Type} : Action σ ι → Bool
  | .send => true
  | _ => false

/-- The section of `pollLoop` under `sensors_mutex_`. -/
def ThermalHal.poll {σ : Type} (P : Platform σ T) (s : ThermalHal σ T ι) : ThermalHal σ T ι :=
  let ((sensors, changed), world) := pollSensors P s.sensors s.world
  { s with
    sensors
    world
    poller := if changed = [] then .sleeping else .collected changed
    readings := s.readings ++ pollReadings P s.sensors s.world
    notifications := s.notifications ++ changed }

/-- A call of `notifyThrottling` in the current round; a call that fails is logged. -/
def notify (callback : ι) (t : Temperature T) : List (Round ι T) → List (Round ι T)
  | [] => []
  | r :: rounds => { r with sent := r.sent ++ [(callback, t)] } :: rounds

/-- One turn of the loops that send. -/
def ThermalHal.send {σ : Type} (callbacks : List (CallbackSetting ι)) (s : ThermalHal σ T ι) :
    List (Temperature T) → List (CallbackSetting ι) → ThermalHal σ T ι
  | [], _ => { s with poller := .sleeping }
  | _ :: todo, [] => { s with poller := .sending callbacks todo callbacks }
  | t :: todo, c :: inner =>
      { s with
        poller := .sending callbacks (t :: todo) inner
        rounds := if c.wants t then notify c.callback t s.rounds else s.rounds }

/-- One step of the poller, of a client or of the world. -/
def ThermalStep {σ : Type} (P : Platform σ T) (s : ThermalHal σ T ι) (a : Action σ ι)
    (s' : ThermalHal σ T ι) : Prop :=
  match a with
  | .poll => s.poller = .sleeping ∧ s' = s.poll P
  | .snapshot => ∃ changed, s.poller = .collected changed ∧
      s' = { s with
        poller := .sending s.callbacks changed s.callbacks
        rounds := ⟨changed, s.callbacks, []⟩ :: s.rounds }
  | .send => ∃ callbacks todo inner, s.poller = .sending callbacks todo inner ∧
      s' = s.send callbacks todo inner
  | .register callback filterType type =>
      s' = { s with
        callbacks := (registerThermalChangedCallback callback filterType type s.callbacks).2 }
  | .unregister callback =>
      s' = { s with callbacks := (unregisterThermalChangedCallback callback s.callbacks).2 }
  | .env world => s' = { s with world }

/-- The HAL as its constructor leaves it. -/
def ThermalStart {σ : Type} (P : Platform σ T) (s : ThermalHal σ T ι) : Prop :=
  ∃ w, s = {
    sensors := (resolveZones P (kSensors P) w).1
    world := (resolveZones P (kSensors P) w).2 }

end Code

section Law

variable {σ ι T : Type} [DecidableEq ι]

/-- The changes that wait for a copy of the callbacks. -/
def Poller.pending : Poller ι T → List (Temperature T)
  | .collected changed => changed
  | _ => []

/-- The rounds whose loops have ended. -/
def ThermalHal.finished (s : ThermalHal σ T ι) : List (Round ι T) :=
  match s.poller with
  | .sending _ _ _ => s.rounds.tail
  | _ => s.rounds

/-- What an interface got in a round. -/
def Round.received (r : Round ι T) (callback : ι) : List (Temperature T) :=
  (r.sent.filter (fun p => p.1 = callback)).map Prod.snd

/-- What it should get: the changes that match its filter, once each, if it is in the
copy of the callbacks. -/
def Round.due (r : Round ι T) (callback : ι) : List (Temperature T) :=
  match r.callbacks.find? (fun c => c.callback = callback) with
  | none => []
  | some c => r.changed.filter c.wants

/-- What a round is about, without the calls that it has made. -/
def Round.plan (r : Round ι T) : List (Temperature T) × List (CallbackSetting ι) :=
  (r.changed, r.callbacks)

/-- No interface is in the list twice. -/
def Distinct (callbacks : List (CallbackSetting ι)) : Prop :=
  callbacks.Pairwise (fun c d => c.callback ≠ d.callback)

/-- `goesOn` and `ends`: the loops of a round can always take their next turn, and after so
many turns, whatever clients do in between, the round and those before it have ended. -/
structure ThermalLaw (P : Platform σ T) (s : ThermalHal σ T ι) : Prop where
  sensors : SensorLaw P s.sensors s.readings s.notifications
  delivered : s.notifications = s.rounds.reverse.flatMap Round.changed ++ s.poller.pending
  received : ∀ r ∈ s.rounds, ∀ callback, r.received callback <+: r.due callback
  finished : ∀ r ∈ s.finished, ∀ callback, r.received callback = r.due callback
  goesOn : ∀ callbacks todo inner, s.poller = .sending callbacks todo inner →
    ∃ s', ThermalStep P s .send s'
  ends : ∀ r rest, s.rounds = r :: rest → ∀ actions s', Run (ThermalStep P) s actions s' →
    r.changed.length * (r.callbacks.length + 1) < actions.countP Action.isSend →
    s.rounds.map Round.plan <:+ s'.finished.map Round.plan
  distinct : Distinct s.callbacks
  refusedRegister : ∀ callback filterType type,
    (registerThermalChangedCallback callback filterType type s.callbacks).1.code = .failure →
    (registerThermalChangedCallback callback filterType type s.callbacks).2 = s.callbacks
  refusedUnregister : ∀ callback,
    (unregisterThermalChangedCallback callback s.callbacks).1.code = .failure →
    (unregisterThermalChangedCallback callback s.callbacks).2 = s.callbacks

end Law

section Callbacks

variable {ι : Type} [DecidableEq ι] {callbacks : List (CallbackSetting ι)}

theorem register_distinct (hdistinct : Distinct callbacks) (callback : Option ι)
    (filterType : Bool) (type : TemperatureType) :
    Distinct (registerThermalChangedCallback callback filterType type callbacks).2 := by
  unfold registerThermalChangedCallback
  cases callback with
  | none => exact hdistinct
  | some callback =>
      simp only
      split_ifs with hany
      · exact hdistinct
      · apply List.pairwise_append.mpr
        refine ⟨hdistinct, List.pairwise_singleton _ _, ?_⟩
        intro c hc d hd heq
        rw [List.mem_singleton.mp hd] at heq
        exact hany (List.any_eq_true.mpr ⟨c, hc, by simpa using heq⟩)

theorem unregister_distinct (hdistinct : Distinct callbacks) (callback : Option ι) :
    Distinct (unregisterThermalChangedCallback callback callbacks).2 := by
  unfold unregisterThermalChangedCallback
  cases callback with
  | none => exact hdistinct
  | some callback =>
      simp only
      split_ifs
      · exact hdistinct.filter _
      · exact hdistinct.filter _

theorem register_refused {callback : Option ι} {filterType : Bool} {type : TemperatureType}
    (h : (registerThermalChangedCallback callback filterType type callbacks).1.code = .failure) :
    (registerThermalChangedCallback callback filterType type callbacks).2 = callbacks := by
  unfold registerThermalChangedCallback at h ⊢
  cases callback with
  | none => rfl
  | some callback =>
      simp only at h ⊢
      split_ifs at h ⊢
      rfl

/-- Nothing was registered under the interface, so that nothing is removed. -/
theorem unregister_refused {callback : Option ι}
    (h : (unregisterThermalChangedCallback callback callbacks).1.code = .failure) :
    (unregisterThermalChangedCallback callback callbacks).2 = callbacks := by
  unfold unregisterThermalChangedCallback at h ⊢
  cases callback with
  | none => rfl
  | some callback =>
      simp only at h ⊢
      split_ifs at h ⊢ with hany
      apply List.filter_eq_self.mpr
      intro c hc
      rw [decide_eq_true_eq]
      intro heq
      exact hany (List.any_eq_true.mpr ⟨c, hc, by simpa using heq⟩)

end Callbacks

section Rounds

variable {ι T : Type}

/-- The calls for one change. -/
def sends (t : Temperature T) (callbacks : List (CallbackSetting ι)) :
    List (ι × Temperature T) :=
  callbacks.filterMap (fun c => if c.wants t then some (c.callback, t) else none)

def roundSends (callbacks : List (CallbackSetting ι)) (changed : List (Temperature T)) :
    List (ι × Temperature T) :=
  changed.flatMap (fun t => sends t callbacks)

/-- The calls that the loops have not come to yet. -/
def remaining (callbacks : List (CallbackSetting ι)) :
    List (Temperature T) → List (CallbackSetting ι) → List (ι × Temperature T)
  | [], _ => []
  | t :: todo, inner => sends t inner ++ roundSends callbacks todo

theorem remaining_start (callbacks : List (CallbackSetting ι)) (changed : List (Temperature T)) :
    remaining callbacks changed callbacks = roundSends callbacks changed := by
  cases changed with
  | nil => rfl
  | cons t todo => rfl

/-- One change reaches an interface once, if it is registered and its filter matches. -/
theorem sends_received [DecidableEq ι] {callbacks : List (CallbackSetting ι)}
    (hdistinct : Distinct callbacks) (t : Temperature T) (callback : ι) :
    ((sends t callbacks).filter (fun p => p.1 = callback)).map Prod.snd =
      match callbacks.find? (fun c => c.callback = callback) with
      | none => []
      | some c => if c.wants t then [t] else [] := by
  have hnodup : (callbacks.map CallbackSetting.callback).Nodup := List.pairwise_map.mpr hdistinct
  rw [sends, List.filter_filterMap, List.map_filterMap]
  cases hfind : callbacks.find? (fun c => c.callback = callback) with
  | none =>
      apply List.filterMap_eq_nil_iff.mpr
      intro c hc
      have hne := List.find?_eq_none.mp hfind c hc
      split_ifs
      · simpa using hne
      · rfl
  | some c =>
      have hsame : c.callback = callback := by simpa using List.find?_some hfind
      rw [filterMap_of_nodup hnodup (List.mem_of_find?_eq_some hfind)]
      · simp only
        split_ifs
        · simp [hsame]
        · rfl
      · intro d hd
        rw [hsame] at hd
        split_ifs
        · simpa using hd
        · rfl

/-- A round that has made all its calls has given every interface its due. -/
theorem roundSends_received [DecidableEq ι] {callbacks : List (CallbackSetting ι)}
    (hdistinct : Distinct callbacks) (changed : List (Temperature T)) (callback : ι) :
    ((roundSends callbacks changed).filter (fun p => p.1 = callback)).map Prod.snd =
      Round.due ⟨changed, callbacks, []⟩ callback := by
  induction changed with
  | nil =>
      unfold Round.due
      cases callbacks.find? (fun c => c.callback = callback) with
      | none => rfl
      | some c => rfl
  | cons t todo ih =>
      rw [roundSends, List.flatMap_cons, List.filter_append, List.map_append,
        sends_received hdistinct, ← roundSends, ih]
      unfold Round.due
      cases callbacks.find? (fun c => c.callback = callback) with
      | none => rfl
      | some c =>
          simp only [List.filter_cons]
          split_ifs
          · rfl
          · rfl

/-- The rounds against the poller: past rounds are complete, and the current one has
made the calls that its loops have gone through. -/
structure Delivering {σ : Type} (s : ThermalHal σ T ι) : Prop where
  distinct : Distinct s.callbacks
  copies : ∀ r ∈ s.rounds, Distinct r.callbacks
  past : ∀ r ∈ s.finished, r.sent = roundSends r.callbacks r.changed
  current : ∀ callbacks todo inner, s.poller = .sending callbacks todo inner →
    ∃ r rest, s.rounds = r :: rest ∧ r.callbacks = callbacks ∧
      r.sent ++ remaining callbacks todo inner = roundSends r.callbacks r.changed ∧
      todo.length ≤ r.changed.length ∧ inner.length ≤ callbacks.length
  delivered : s.notifications = s.rounds.reverse.flatMap Round.changed ++ s.poller.pending

theorem Round.received_of_prefix [DecidableEq ι] {r : Round ι T}
    (hdistinct : Distinct r.callbacks) (h : r.sent <+: roundSends r.callbacks r.changed)
    (callback : ι) :
    r.received callback <+: r.due callback := by
  have hdue := roundSends_received hdistinct r.changed callback
  have hfilter := (h.filter (fun p => p.1 = callback)).map Prod.snd
  rw [hdue] at hfilter
  exact hfilter

theorem Round.received_of_complete [DecidableEq ι] {r : Round ι T}
    (hdistinct : Distinct r.callbacks) (h : r.sent = roundSends r.callbacks r.changed)
    (callback : ι) :
    r.received callback = r.due callback := by
  rw [Round.received, h]
  exact roundSends_received hdistinct r.changed callback

/-- A finished round is complete, the other one is the current round. -/
theorem Delivering.sent_prefix {σ : Type} {s : ThermalHal σ T ι} (h : Delivering s)
    {r : Round ι T} (hr : r ∈ s.rounds) : r.sent <+: roundSends r.callbacks r.changed := by
  cases hpoller : s.poller with
  | sleeping =>
      have hpast := h.past r (by rw [ThermalHal.finished, hpoller]; exact hr)
      rw [hpast]
  | collected changed =>
      have hpast := h.past r (by rw [ThermalHal.finished, hpoller]; exact hr)
      rw [hpast]
  | sending callbacks todo inner =>
      obtain ⟨r', rest, hrounds, hcopy, hsent, -⟩ := h.current callbacks todo inner hpoller
      rw [hrounds] at hr
      rcases List.mem_cons.mp hr with rfl | hrest
      · rw [← hsent]
        exact List.prefix_append _ _
      · have hpast := h.past r (by rw [ThermalHal.finished, hpoller, hrounds]; exact hrest)
        rw [hpast]

end Rounds

section Steps

variable {σ ι T : Type} {P : Platform σ T} {s : ThermalHal σ T ι}

theorem delivering_start (h : ThermalStart P s) : Delivering s := by
  obtain ⟨w, rfl⟩ := h
  constructor
  · exact List.Pairwise.nil
  · intro r hr
    cases hr
  · intro r hr
    cases hr
  · intro callbacks todo inner hpoller
    cases hpoller
  · rfl

/-- The changes of a poll wait for the copy, and the next poll is not until then. -/
theorem Delivering.poll (h : Delivering s) (hpoller : s.poller = .sleeping) :
    Delivering (s.poll P) := by
  have hfinished : s.finished = s.rounds := by rw [ThermalHal.finished, hpoller]
  have hdelivered := h.delivered
  rw [hpoller] at hdelivered
  unfold ThermalHal.poll
  rcases pollSensors P s.sensors s.world with ⟨⟨sensors, changed⟩, world⟩
  by_cases hchanged : changed = []
  · simp only [hchanged, if_true, List.append_nil]
    refine ⟨h.distinct, h.copies, ?_, ?_, hdelivered⟩
    · rw [← hfinished]
      exact h.past
    · intro callbacks todo inner hsending
      cases hsending
  · simp only [hchanged, if_false]
    refine ⟨h.distinct, h.copies, ?_, ?_, ?_⟩
    · rw [← hfinished]
      exact h.past
    · intro callbacks todo inner hsending
      cases hsending
    · rw [hdelivered, List.append_assoc]
      rfl

theorem Delivering.snapshot (h : Delivering s) {changed : List (Temperature T)}
    (hpoller : s.poller = .collected changed) :
    Delivering { s with
      poller := .sending s.callbacks changed s.callbacks
      rounds := ⟨changed, s.callbacks, []⟩ :: s.rounds } := by
  have hfinished : s.finished = s.rounds := by rw [ThermalHal.finished, hpoller]
  have hdelivered := h.delivered
  rw [hpoller] at hdelivered
  constructor
  · exact h.distinct
  · intro r hr
    rcases List.mem_cons.mp hr with rfl | hrest
    · exact h.distinct
    · exact h.copies r hrest
  · intro r hr
    apply h.past
    rw [hfinished]
    exact hr
  · intro callbacks todo inner hsending
    cases hsending
    exact ⟨_, s.rounds, rfl, rfl, remaining_start s.callbacks changed, le_rfl, le_rfl⟩
  · rw [hdelivered, List.reverse_cons, List.flatMap_append]
    simp [Poller.pending]

/-- The loops end with the round complete. -/
theorem Delivering.sendEnd (h : Delivering s) {callbacks inner : List (CallbackSetting ι)}
    (hpoller : s.poller = .sending callbacks [] inner) :
    Delivering { s with poller := .sleeping } := by
  obtain ⟨r, rest, hrounds, hcopy, hsent, -⟩ := h.current callbacks [] inner hpoller
  have hfinished : s.finished = rest := by
    rw [ThermalHal.finished, hpoller, hrounds, List.tail_cons]
  have hdelivered := h.delivered
  rw [hpoller] at hdelivered
  refine ⟨h.distinct, h.copies, ?_, ?_, hdelivered⟩
  · intro r' hr'
    simp only [ThermalHal.finished, hrounds] at hr'
    rcases List.mem_cons.mp hr' with rfl | hrest
    · rw [← hsent, remaining, List.append_nil]
    · apply h.past
      rw [hfinished]
      exact hrest
  · intro callbacks' todo inner' hsending
    cases hsending

/-- The inner loop starts over for the next change. -/
theorem Delivering.sendNext (h : Delivering s) {callbacks : List (CallbackSetting ι)}
    {t : Temperature T} {todo : List (Temperature T)}
    (hpoller : s.poller = .sending callbacks (t :: todo) []) :
    Delivering { s with poller := .sending callbacks todo callbacks } := by
  obtain ⟨r, rest, hrounds, hcopy, hsent, htodo, -⟩ :=
    h.current callbacks (t :: todo) [] hpoller
  have hfinished : s.finished = s.rounds.tail := by rw [ThermalHal.finished, hpoller]
  have hdelivered := h.delivered
  rw [hpoller] at hdelivered
  refine ⟨h.distinct, h.copies, ?_, ?_, hdelivered⟩
  · intro r' hr'
    apply h.past
    rw [hfinished]
    exact hr'
  · intro callbacks' todo' inner' hsending
    cases hsending
    refine ⟨r, rest, hrounds, hcopy, ?_, Nat.le_of_succ_le htodo, le_rfl⟩
    rw [remaining_start, ← hsent]
    rfl

/-- One callback of the inner loop. -/
theorem Delivering.sendOne (h : Delivering s) {callbacks inner : List (CallbackSetting ι)}
    {t : Temperature T} {todo : List (Temperature T)} {c : CallbackSetting ι}
    (hpoller : s.poller = .sending callbacks (t :: todo) (c :: inner)) :
    Delivering { s with
      poller := .sending callbacks (t :: todo) inner
      rounds := if c.wants t then notify c.callback t s.rounds else s.rounds } := by
  obtain ⟨r, rest, hrounds, hcopy, hsent, htodo, hinner⟩ :=
    h.current callbacks (t :: todo) (c :: inner) hpoller
  have hfinished : s.finished = rest := by
    rw [ThermalHal.finished, hpoller, hrounds, List.tail_cons]
  have hpast := h.past
  have hdelivered := h.delivered
  have hcopies := h.copies
  rw [hfinished] at hpast
  rw [hpoller, hrounds] at hdelivered
  rw [hrounds] at hcopies
  rw [remaining, sends, List.filterMap_cons] at hsent
  by_cases hwants : c.wants t
  · simp only [hwants, if_true, List.cons_append] at hsent ⊢
    rw [hrounds, notify]
    constructor
    · exact h.distinct
    · intro r' hr'
      rcases List.mem_cons.mp hr' with rfl | hrest
      · exact hcopies r List.mem_cons_self
      · exact hcopies r' (List.mem_cons_of_mem r hrest)
    · exact hpast
    · intro callbacks' todo' inner' hsending
      cases hsending
      refine ⟨_, rest, rfl, hcopy, ?_, htodo, Nat.le_of_succ_le hinner⟩
      rw [← hsent, List.append_assoc]
      rfl
    · rw [hdelivered, List.reverse_cons, List.reverse_cons, List.flatMap_append,
        List.flatMap_append]
      rfl
  · simp only [hwants] at hsent ⊢
    rw [hrounds]
    refine ⟨h.distinct, hcopies, hpast, ?_, hdelivered⟩
    intro callbacks' todo' inner' hsending
    cases hsending
    exact ⟨r, rest, rfl, hcopy, hsent, htodo, Nat.le_of_succ_le hinner⟩

theorem Delivering.send (h : Delivering s) {callbacks inner : List (CallbackSetting ι)}
    {todo : List (Temperature T)} (hpoller : s.poller = .sending callbacks todo inner) :
    Delivering (s.send callbacks todo inner) := by
  cases todo with
  | nil => exact h.sendEnd hpoller
  | cons t todo =>
      cases inner with
      | nil => exact h.sendNext hpoller
      | cons c inner => exact h.sendOne hpoller

/-- Clients only change the list itself. -/
theorem Delivering.clients (h : Delivering s) {callbacks : List (CallbackSetting ι)}
    (hdistinct : Distinct callbacks) : Delivering { s with callbacks } :=
  ⟨hdistinct, h.copies, h.past, h.current, h.delivered⟩

theorem Delivering.step [DecidableEq ι] (h : Delivering s) {a : Action σ ι} {s' : ThermalHal σ T ι}
    (hstep : ThermalStep P s a s') : Delivering s' := by
  cases a with
  | poll =>
      obtain ⟨hpoller, rfl⟩ := hstep
      exact h.poll hpoller
  | snapshot =>
      obtain ⟨changed, hpoller, rfl⟩ := hstep
      exact h.snapshot hpoller
  | send =>
      obtain ⟨callbacks, todo, inner, hpoller, rfl⟩ := hstep
      exact h.send hpoller
  | register callback filterType type =>
      rw [hstep]
      exact h.clients (register_distinct h.distinct callback filterType type)
  | unregister callback =>
      rw [hstep]
      exact h.clients (unregister_distinct h.distinct callback)
  | env world =>
      rw [hstep]
      exact ⟨h.distinct, h.copies, h.past, h.current, h.delivered⟩

theorem sensorLaw_step [DecidableEq ι] {a : Action σ ι} {s' : ThermalHal σ T ι}
    (h : SensorLaw P s.sensors s.readings s.notifications) (hstep : ThermalStep P s a s') :
    SensorLaw P s'.sensors s'.readings s'.notifications := by
  cases a with
  | poll =>
      obtain ⟨-, rfl⟩ := hstep
      exact h.poll s.world
  | snapshot =>
      obtain ⟨changed, -, rfl⟩ := hstep
      exact h
  | send =>
      obtain ⟨callbacks, todo, inner, -, rfl⟩ := hstep
      cases todo with
      | nil => exact h
      | cons t todo =>
          cases inner with
          | nil => exact h
          | cons c inner => exact h
  | register callback filterType type =>
      rw [hstep]
      exact h
  | unregister callback =>
      rw [hstep]
      exact h
  | env world =>
      rw [hstep]
      exact h

end Steps

section Ends

variable {σ ι T : Type} {P : Platform σ T} {s s' : ThermalHal σ T ι} {a : Action σ ι}

/-- The turns that the loops still take before the one that ends them. -/
def Poller.turns {ι T : Type} : Poller ι T → Nat
  | .sending callbacks (_ :: todo) inner =>
      inner.length + 1 + todo.length * (callbacks.length + 1)
  | _ => 0

/-- A call is recorded in its round, and the round stays what it is about. -/
theorem notify_plan (callback : ι) (t : Temperature T) (rounds : List (Round ι T)) :
    (notify callback t rounds).map Round.plan = rounds.map Round.plan := by
  cases rounds with
  | nil => rfl
  | cons r rounds => rfl

/-- A turn of the loops ends the round, or leaves fewer turns. -/
theorem send_turns (callbacks inner : List (CallbackSetting ι)) (todo : List (Temperature T))
    (s : ThermalHal σ T ι) :
    (s.send callbacks todo inner).rounds.map Round.plan = s.rounds.map Round.plan ∧
      ((s.send callbacks todo inner).poller = .sleeping ∨
        ∃ todo' inner', (s.send callbacks todo inner).poller = .sending callbacks todo' inner' ∧
          (s.send callbacks todo inner).poller.turns + 1 ≤
            (Poller.sending callbacks todo inner).turns) := by
  cases todo with
  | nil => exact ⟨rfl, Or.inl rfl⟩
  | cons t todo =>
      cases inner with
      | nil =>
          refine ⟨rfl, Or.inr ⟨todo, callbacks, rfl, ?_⟩⟩
          cases todo with
          | nil => simp [ThermalHal.send, Poller.turns]
          | cons t' todo =>
              simp only [ThermalHal.send, Poller.turns, List.length_cons, List.length_nil]
              ring_nf
              exact le_rfl
      | cons c inner =>
          refine ⟨?_, Or.inr ⟨t :: todo, inner, rfl, ?_⟩⟩
          · simp only [ThermalHal.send]
            split_ifs
            · exact notify_plan c.callback t s.rounds
            · rfl
          · simp only [ThermalHal.send, Poller.turns, List.length_cons]
            omega

/-- While a round of these plans is going on. -/
def Going (plans : List (List (Temperature T) × List (CallbackSetting ι)))
    (s : ThermalHal σ T ι) : Prop :=
  s.rounds.map Round.plan = plans ∧
    ∃ callbacks todo inner, s.poller = .sending callbacks todo inner

/-- Past rounds are the last of all rounds, or all of them. -/
theorem finished_suffix (s : ThermalHal σ T ι) : s.finished <:+ s.rounds := by
  unfold ThermalHal.finished
  split
  · exact List.tail_suffix s.rounds
  · exact List.suffix_rfl

theorem Going.step [DecidableEq ι] {plans : List (List (Temperature T) × List (CallbackSetting ι))}
    (h : Going plans s) (hstep : ThermalStep P s a s') :
    plans <:+ s'.finished.map Round.plan ∨
      (Going plans s' ∧ s'.poller.turns + (if a.isSend then 1 else 0) ≤ s.poller.turns) := by
  obtain ⟨hplans, callbacks, todo, inner, hpoller⟩ := h
  cases a with
  | poll =>
      obtain ⟨hsleeping, -⟩ := hstep
      rw [hpoller] at hsleeping
      cases hsleeping
  | snapshot =>
      obtain ⟨changed, hcollected, -⟩ := hstep
      rw [hpoller] at hcollected
      cases hcollected
  | send =>
      obtain ⟨callbacks', todo', inner', hpoller', rfl⟩ := hstep
      rw [hpoller] at hpoller'
      cases hpoller'
      obtain ⟨hsame, hends | ⟨todo', inner', hgoing, hturns⟩⟩ := send_turns callbacks inner todo s
      · left
        rw [ThermalHal.finished, hends]
        simp only
        rw [hsame, hplans]
      · right
        rw [hpoller]
        exact ⟨⟨hsame.trans hplans, callbacks, todo', inner', hgoing⟩, hturns⟩
  | register callback filterType type =>
      rw [hstep]
      exact Or.inr ⟨⟨hplans, callbacks, todo, inner, hpoller⟩, le_rfl⟩
  | unregister callback =>
      rw [hstep]
      exact Or.inr ⟨⟨hplans, callbacks, todo, inner, hpoller⟩, le_rfl⟩
  | env world =>
      rw [hstep]
      exact Or.inr ⟨⟨hplans, callbacks, todo, inner, hpoller⟩, le_rfl⟩

/-- A round that has ended stays among the past ones. -/
theorem finished_kept [DecidableEq ι] (hstep : ThermalStep P s a s') :
    s.finished.map Round.plan <:+ s'.finished.map Round.plan := by
  cases a with
  | poll =>
      obtain ⟨hpoller, rfl⟩ := hstep
      have hrounds : s.finished = s.rounds := by rw [ThermalHal.finished, hpoller]
      rw [hrounds]
      simp only [ThermalHal.finished, ThermalHal.poll]
      split_ifs <;> exact List.suffix_rfl
  | snapshot =>
      obtain ⟨changed, hpoller, rfl⟩ := hstep
      have hrounds : s.finished = s.rounds := by rw [ThermalHal.finished, hpoller]
      rw [hrounds]
      exact List.suffix_rfl
  | send =>
      obtain ⟨callbacks, todo, inner, hpoller, rfl⟩ := hstep
      have htail : s.finished = s.rounds.tail := by rw [ThermalHal.finished, hpoller]
      obtain ⟨hsame, hends | ⟨todo', inner', hgoing, -⟩⟩ := send_turns callbacks inner todo s
      · have hall : (s.send callbacks todo inner).finished =
            (s.send callbacks todo inner).rounds := by
          rw [ThermalHal.finished, hends]
        rw [hall, hsame]
        exact (finished_suffix s).map Round.plan
      · rw [htail, ThermalHal.finished, hgoing]
        simp only
        rw [List.map_tail, List.map_tail, hsame]
  | register callback filterType type =>
      rw [hstep]
      exact List.suffix_rfl
  | unregister callback =>
      rw [hstep]
      exact List.suffix_rfl
  | env world =>
      rw [hstep]
      exact List.suffix_rfl

/-- The turns of a round are bounded by its changes and its callbacks. -/
theorem Delivering.turns_le (h : Delivering s) {r : Round ι T} {rest : List (Round ι T)}
    (hrounds : s.rounds = r :: rest) :
    s.poller.turns ≤ r.changed.length * (r.callbacks.length + 1) := by
  cases hpoller : s.poller with
  | sleeping => exact Nat.zero_le _
  | collected changed => exact Nat.zero_le _
  | sending callbacks todo inner =>
      obtain ⟨r', rest', hrounds', hcopy, -, htodo, hinner⟩ :=
        h.current callbacks todo inner hpoller
      rw [hrounds] at hrounds'
      cases hrounds'
      rw [hcopy]
      cases todo with
      | nil => exact Nat.zero_le _
      | cons t todo =>
          calc inner.length + 1 + todo.length * (callbacks.length + 1)
              ≤ (callbacks.length + 1) + todo.length * (callbacks.length + 1) := by omega
            _ = (t :: todo).length * (callbacks.length + 1) := by
                rw [List.length_cons]
                ring
            _ ≤ r.changed.length * (callbacks.length + 1) := Nat.mul_le_mul_right _ htodo

/-- After its turns a round has ended. -/
theorem Delivering.ends [DecidableEq ι] (h : Delivering s) {r : Round ι T} {rest : List (Round ι T)}
    (hrounds : s.rounds = r :: rest) {actions : List (Action σ ι)}
    (hrun : Run (ThermalStep P) s actions s')
    (hcount : r.changed.length * (r.callbacks.length + 1) < actions.countP Action.isSend) :
    s.rounds.map Round.plan <:+ s'.finished.map Round.plan := by
  have hkept : ∀ (s₁ : ThermalHal σ T ι) a s₂,
      s.rounds.map Round.plan <:+ s₁.finished.map Round.plan → ThermalStep P s₁ a s₂ →
        s.rounds.map Round.plan <:+ s₂.finished.map Round.plan :=
    fun _ _ _ hold hstep => hold.trans (finished_kept hstep)
  by_cases hsending : ∃ callbacks todo inner, s.poller = .sending callbacks todo inner
  · have hgoing : Going (s.rounds.map Round.plan) s := ⟨rfl, hsending⟩
    have hturn : ∀ (s₁ : ThermalHal σ T ι) a s₂, Going (s.rounds.map Round.plan) s₁ →
        ThermalStep P s₁ a s₂ → s.rounds.map Round.plan <:+ s₂.finished.map Round.plan ∨
          (Going (s.rounds.map Round.plan) s₂ ∧
            s₂.poller.turns + (if a.isSend then 1 else 0) ≤ s₁.poller.turns) :=
      fun _ _ _ hgoing hstep => hgoing.step hstep
    exact hrun.ends hkept hturn hgoing (lt_of_le_of_lt (h.turns_le hrounds) hcount)
  · apply hrun.invariant (P := fun s₁ =>
      s.rounds.map Round.plan <:+ s₁.finished.map Round.plan) hkept
    have hfinished : s.finished = s.rounds := by
      unfold ThermalHal.finished
      split
      · next hpoller => exact absurd ⟨_, _, _, hpoller⟩ hsending
      · rfl
    rw [hfinished]

end Ends

/-- In every run of polls and clients, the sensors stand at the severity of their last
valid reading, the changes and no others are notified, every callback of a copy gets
those that match its filter, and the round of a copy ends. -/
theorem thermal_notifications {σ ι T : Type} [DecidableEq ι] (P : Platform σ T)
    (s : ThermalHal σ T ι) (h : Reachable (ThermalStart P) (ThermalStep P) s) : ThermalLaw P s := by
  have hboth : Delivering s ∧ SensorLaw P s.sensors s.readings s.notifications := by
    apply h.invariant (P := fun s => Delivering s ∧
      SensorLaw P s.sensors s.readings s.notifications)
    · intro s hstart
      refine ⟨delivering_start hstart, ?_⟩
      obtain ⟨w, rfl⟩ := hstart
      exact sensorLaw_kSensors w
    · intro s a s' hs hstep
      exact ⟨hs.1.step hstep, sensorLaw_step hs.2 hstep⟩
  obtain ⟨hdelivering, hsensors⟩ := hboth
  constructor
  · exact hsensors
  · exact hdelivering.delivered
  · intro r hr callback
    exact Round.received_of_prefix (hdelivering.copies r hr) (hdelivering.sent_prefix hr) callback
  · intro r hr callback
    have hmem : r ∈ s.rounds := by
      unfold ThermalHal.finished at hr
      split at hr
      · exact List.mem_of_mem_tail hr
      · exact hr
    exact Round.received_of_complete (hdelivering.copies r hmem) (hdelivering.past r hr) callback
  · intro callbacks todo inner hpoller
    exact ⟨_, callbacks, todo, inner, hpoller, rfl⟩
  · intro r rest hrounds actions s' hrun hcount
    exact hdelivering.ends hrounds hrun hcount
  · exact hdelivering.distinct
  · intro callback filterType type hcode
    exact register_refused hcode
  · intro callback hcode
    exact unregister_refused hcode

/-- A board on which the zone of the CPU is the only one, at 90 degrees. -/
def warmBoard : Platform Unit Int where
  readFileToString := fun path w =>
    (if path = zoneDir 0 ++ "type" then some "mtktscpu"
      else if path = zoneDir 0 ++ "temp" then some "90000" else none, w)
  trim := id
  parseInt := fun text => if text = "90000" then some 90000 else none
  celsius := id
  degrees := fun d => 1000 * d
  ge := fun a b => decide (b ≤ a)

/-- A client that filters for the CPU hears of it, once, and the round ends. -/
theorem thermal_notifications_warm :
    ∃ s : ThermalHal Unit Int Nat, Reachable (ThermalStart warmBoard) (ThermalStep warmBoard) s ∧
      s.notifications = [⟨.cpu, "cpu", 90000, .severe⟩] ∧
      s.finished.map (fun r => r.received 7) = [[⟨.cpu, "cpu", 90000, .severe⟩]] ∧
      ThermalLaw warmBoard s := by
  let start : ThermalHal Unit Int Nat := {
    sensors := (resolveZones warmBoard (kSensors warmBoard) ()).1
    world := () }
  have hstart : Reachable (ThermalStart warmBoard) (ThermalStep warmBoard) start :=
    .init ⟨(), rfl⟩
  have hregister := hstart.next (.register (some 7) true .cpu) rfl
  have hpoll := hregister.next .poll ⟨rfl, rfl⟩
  have hsnapshot := hpoll.next .snapshot ⟨_, rfl, rfl⟩
  have hcall := hsnapshot.next .send ⟨_, _, _, rfl, rfl⟩
  have hnext := hcall.next .send ⟨_, _, _, rfl, rfl⟩
  have hend := hnext.next .send ⟨_, _, _, rfl, rfl⟩
  exact ⟨_, hend, by decide, by decide, thermal_notifications warmBoard _ hend⟩

end MeizuM5c.Thermal
