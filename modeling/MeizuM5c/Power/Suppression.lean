import MeizuM5c.Power.AdpfLevel
import MeizuM5c.Power.Hal

/-!
The HAL, ADPF and the engine under any interleaving of their clients. A
thread that waits for a lock has done nothing yet, so the system is described
by what the holders of the HAL's lock and of ADPF's lock have still to do.
When neither lock is held, screen off and battery saver leave no request that
they should have removed.
-/

namespace MeizuM5c.Power

open Lib

/-- The holder of ADPF's lock, within `recomputeLocked`: whether it is the
HAL, and the call of the engine that is still to come. -/
structure AdpfCall where
  fromPower : Bool
  call : Option EngineOp

structure System (σ : Type) where
  engine : Engine × σ
  adpf : Adpf
  flags : PowerState := {}
  power : Option (List PowerAction) := none
  adpfCall : Option AdpfCall := none

/-- The steps between which the threads may be interleaved. -/
inductive SystemLabel where
  | setMode (off : List String) (clock : Nat → Time) (type : Mode) (enabled : Bool)
  | setBoost (off : List String) (clock : Nat → Time) (type : Boost) (durationMs : Int)
  | powerEngine
  | powerSuppress
  | powerReturn
  | hint (op : AdpfOp)
  | adpfEngine
  | adpfReturn
  | worker (now : Time)
  | env

section Steps

variable {σ : Type} (fs : Fs σ) (cfg : Config)

/-- A hint-session call takes ADPF's lock and updates the sessions; it keeps
the lock if it goes on to recompute. -/
def hintCall (op : AdpfOp) (s : System σ) : System σ :=
  match op.update cfg.adpf s.adpf with
  | (a, none) => { s with adpf := a }
  | (a, some now) =>
      { s with adpf := a, adpfCall := some ⟨false, Adpf.engineCall cfg.adpf now a⟩ }

def suppressCall (suppressed : Bool) (now : Time) (s : System σ) : System σ :=
  let a := (Adpf.setSuppressed suppressed now s.adpf).1
  { s with adpf := a, adpfCall := some ⟨true, Adpf.engineCall cfg.adpf now a⟩ }

/-- The end of `recomputeLocked`; the HAL goes on once its call returns. -/
def adpfDone (call : AdpfCall) (s : System σ) : System σ :=
  { s with
    adpf := Adpf.applied s.adpf
    adpfCall := none
    power := if call.fromPower then s.power.map List.tail else s.power }

def SystemStep (s : System σ) : SystemLabel → System σ → Prop
  | .setMode off clock type enabled, t =>
      s.power = none ∧ type.toString ∈ cfg.modes ∧
        t = { s with
          flags := (setMode cfg off clock type enabled s.flags).1
          power := some (setMode cfg off clock type enabled s.flags).2 }
  | .setBoost off clock type durationMs, t =>
      s.power = none ∧ type = .interaction ∧ type.toString ∈ cfg.boosts ∧
        t = { s with power := some (setBoost cfg off clock durationMs s.flags) }
  | .powerEngine, t =>
      ∃ op rest, s.power = some (.engine op :: rest) ∧
        t = { s with engine := op.exec fs s.engine, power := some rest }
  | .powerSuppress, t =>
      ∃ suppressed now rest, s.power = some (.suppress suppressed now :: rest) ∧
        s.adpfCall = none ∧ t = suppressCall cfg suppressed now s
  | .powerReturn, t => s.power = some [] ∧ t = { s with power := none }
  | .hint op, t =>
      s.adpfCall = none ∧ (∀ suppressed now, op ≠ .setSuppressed suppressed now) ∧
        t = hintCall cfg op s
  | .adpfEngine, t =>
      ∃ call op, s.adpfCall = some call ∧ call.call = some op ∧
        t = { s with
          engine := op.exec fs s.engine
          adpfCall := some { call with call := none } }
  | .adpfReturn, t =>
      ∃ call, s.adpfCall = some call ∧ call.call = none ∧ t = adpfDone call s
  | .worker now, t => t = { s with engine := (EngineOp.apply now).exec fs s.engine }
  | .env, t => t.engine.1 = s.engine.1 ∧ t = { s with engine := t.engine }

/-- Nothing is requested before the first call. -/
def SystemStart (s : System σ) : Prop :=
  s.engine.1.mRequests = OrdMap.empty ∧ s.adpf = Adpf.create cfg.adpf ∧ s.flags = {} ∧
    s.power = none ∧ s.adpfCall = none

end Steps

/-- The engine holds no request of the source. -/
def Free {σ : Type} (s : System σ) (source : String) : Prop :=
  s.engine.1.mRequests.find? source = none

/-- The sources, other than ADPF, that the HAL keeps out. -/
def Barred (p : PowerState) (source : String) : Prop :=
  source ≠ "adpf" ∧
    (p.mScreenOff = true ∨ (p.mLowPower = true ∧ (source = "interaction" ∨ source = "fling")))

def EngineOp.Sets (source : String) (op : EngineOp) : Prop :=
  ∃ values untilTime extend now, op = .setRequest source values untilTime extend now

def PowerAction.Sets (source : String) (action : PowerAction) : Prop :=
  ∃ op, action = .engine op ∧ op.Sets source

def PowerAction.Removes (source : String) (action : PowerAction) : Prop :=
  ∃ now, action = .engine (.clearAll now) ∨ action = .engine (.clearRequest source now)

/-- What the holder of the HAL's lock still has to do. -/
def System.todo {σ : Type} (s : System σ) : List PowerAction := s.power.getD []

structure SuppressionInvariant {σ : Type} (s : System σ) : Prop where
  barred : ∀ source, Barred s.flags source →
    (∀ action ∈ s.todo, ¬ action.Sets source) ∧
      ((∃ action ∈ s.todo, action.Removes source) ∨ Free s source)
  notAdpf : ∀ action ∈ s.todo, ¬ action.Sets "adpf"
  flag : ∀ suppressed now, .suppress suppressed now ∈ s.todo →
    suppressed = (s.flags.mScreenOff || s.flags.mLowPower)
  settled : (∀ suppressed now, .suppress suppressed now ∉ s.todo) →
    s.adpf.mSuppressed = (s.flags.mScreenOff || s.flags.mLowPower)
  idle : s.adpfCall = none → (s.adpf.mApplied = 0 → Free s "adpf") ∧
    (s.adpf.mSuppressed = true → s.adpf.mApplied = 0)
  calling : ∀ call op, s.adpfCall = some call → call.call = some op →
    (Adpf.recomputeLevel s.adpf = 0 → ∃ now, op = .clearRequest "adpf" now) ∧
      ∀ source, source ≠ "adpf" → ¬ op.Sets source
  called : ∀ call, s.adpfCall = some call → call.call = none →
    Adpf.recomputeLevel s.adpf = 0 → Free s "adpf"
  owner : ∀ call, s.adpfCall = some call → call.fromPower = true →
    ∃ now rest, s.power = some (.suppress s.adpf.mSuppressed now :: rest)

section Calls

variable (cfg : Config) (off : List String) (clock : Nat → Time) (p : PowerState)

/-- What a call of the HAL promises when it begins. -/
structure CallSpec (p q : PowerState) (actions : List PowerAction) : Prop where
  barred : ∀ source, Barred q source → (∀ action ∈ actions, ¬ action.Sets source) ∧
    ((∃ action ∈ actions, action.Removes source) ∨ Barred p source)
  notAdpf : ∀ action ∈ actions, ¬ action.Sets "adpf"
  flag : ∀ suppressed now, .suppress suppressed now ∈ actions →
    suppressed = (q.mScreenOff || q.mLowPower)
  settled : (∀ suppressed now, .suppress suppressed now ∉ actions) → q = p

theorem not_sets_of_mem_pulses {durationMs : Int} {names : List String} {action : PowerAction}
    (h : action ∈ pulses off durationMs names) (source : String) : ¬ action.Sets source := by
  obtain ⟨name, _, rfl⟩ := List.mem_map.mp h
  rintro ⟨op, hop, values, untilTime, extend, now, rfl⟩
  cases hop

theorem not_suppress_of_mem_pulses {durationMs : Int} {names : List String}
    (suppressed : Bool) (now : Time) :
    .suppress suppressed now ∉ pulses off durationMs names := by
  intro h
  obtain ⟨name, _, hname⟩ := List.mem_map.mp h
  cases hname

/-- Pulses and at most one request, of a source that is not barred. -/
theorem callSpec_pulses_request (durationMs : Int) (names : List String)
    (requests : List PowerAction) (source : String) (hsource : ¬ Barred p source)
    (hadpf : source ≠ "adpf")
    (hrequests : ∀ action ∈ requests, ∃ values untilTime extend now,
      action = .engine (.setRequest source values untilTime extend now)) :
    CallSpec p p (pulses off durationMs names ++ requests) := by
  have hsets : ∀ other, other ≠ source →
      ∀ action ∈ pulses off durationMs names ++ requests, ¬ action.Sets other := by
    intro other hne action haction
    rcases List.mem_append.mp haction with h | h
    · exact not_sets_of_mem_pulses off h other
    · obtain ⟨values, untilTime, extend, now, rfl⟩ := hrequests action h
      rintro ⟨op, hop, values', untilTime', extend', now', rfl⟩
      cases hop
      exact hne rfl
  refine ⟨?_, hsets "adpf" hadpf.symm, ?_, fun _ => rfl⟩
  · intro other hbarred
    refine ⟨hsets other ?_, Or.inr hbarred⟩
    rintro rfl
    exact hsource hbarred
  · intro suppressed now h
    rcases List.mem_append.mp h with h | h
    · exact absurd h (not_suppress_of_mem_pulses off suppressed now)
    · obtain ⟨values, untilTime, extend, now', hop⟩ := hrequests _ h
      cases hop

theorem callSpec_nil : CallSpec p p [] :=
  ⟨fun _ hbarred => ⟨by simp, Or.inr hbarred⟩, by simp, by simp, fun _ => rfl⟩

theorem callSpec_launch (enabled : Bool) :
    CallSpec p p (setModeLaunch cfg off clock enabled p) := by
  unfold setModeLaunch
  split
  · exact callSpec_nil p
  · split
    · refine ⟨?_, ?_, by simp, fun _ => rfl⟩
      · intro source hbarred
        refine ⟨?_, Or.inr hbarred⟩
        simp [PowerAction.Sets, EngineOp.Sets]
      · simp [PowerAction.Sets, EngineOp.Sets]
    · rename_i rc hrc hclear
      refine callSpec_pulses_request off p _ _ _ "launch" ?_ (by decide) ?_
      · rintro ⟨_, hoff | ⟨_, h | h⟩⟩
        · simp [hoff] at hclear
        · exact absurd h (by decide)
        · exact absurd h (by decide)
      · intro action haction
        rw [List.mem_singleton] at haction
        exact ⟨_, _, _, _, haction⟩

theorem callSpec_screen (screenOff : Bool) :
    CallSpec p (setModeScreen clock screenOff p).1 (setModeScreen clock screenOff p).2 := by
  unfold setModeScreen updateAdpfSuppression
  cases screenOff with
  | true =>
      refine ⟨?_, ?_, ?_, ?_⟩
      · intro source _
        refine ⟨by simp [PowerAction.Sets, EngineOp.Sets], Or.inl ?_⟩
        exact ⟨_, List.mem_cons_self, clock 0, Or.inl rfl⟩
      · simp [PowerAction.Sets, EngineOp.Sets]
      · simp
      · intro h
        exact absurd (List.mem_append_right _ (List.mem_singleton_self _)) (h _ _)
  | false =>
      refine ⟨?_, ?_, ?_, ?_⟩
      · rintro source ⟨hadpf, hoff | hlow⟩
        · cases hoff
        · exact ⟨by simp [PowerAction.Sets], Or.inr ⟨hadpf, Or.inr hlow⟩⟩
      · simp [PowerAction.Sets]
      · simp
      · intro h
        exact absurd (List.mem_append_right _ (List.mem_singleton_self _)) (h _ _)

theorem callSpec_lowPower (enabled : Bool) :
    CallSpec p (setModeLowPower clock enabled p).1 (setModeLowPower clock enabled p).2 := by
  unfold setModeLowPower updateAdpfSuppression
  cases enabled with
  | true =>
      refine ⟨?_, ?_, ?_, ?_⟩
      · rintro source ⟨hadpf, hoff | ⟨_, rfl | rfl⟩⟩
        · exact ⟨by simp [PowerAction.Sets, EngineOp.Sets], Or.inr ⟨hadpf, Or.inl hoff⟩⟩
        · refine ⟨by simp [PowerAction.Sets, EngineOp.Sets], Or.inl ?_⟩
          exact ⟨_, List.mem_cons_self, clock 0, Or.inr rfl⟩
        · refine ⟨by simp [PowerAction.Sets, EngineOp.Sets], Or.inl ?_⟩
          exact ⟨_, List.mem_cons_of_mem _ List.mem_cons_self, clock 1, Or.inr rfl⟩
      · simp [PowerAction.Sets, EngineOp.Sets]
      · simp
      · intro h
        exact absurd (List.mem_append_right _ (List.mem_singleton_self _)) (h _ _)
  | false =>
      refine ⟨?_, ?_, ?_, ?_⟩
      · rintro source ⟨hadpf, hoff | ⟨hlow, _⟩⟩
        · exact ⟨by simp [PowerAction.Sets], Or.inr ⟨hadpf, Or.inl hoff⟩⟩
        · cases hlow
      · simp [PowerAction.Sets]
      · simp
      · intro h
        exact absurd (List.mem_append_right _ (List.mem_singleton_self _)) (h _ _)

theorem callSpec_setMode (type : Mode) (enabled : Bool) :
    CallSpec p (setMode cfg off clock type enabled p).1
      (setMode cfg off clock type enabled p).2 := by
  cases type with
  | launch => exact callSpec_launch cfg off clock p enabled
  | interactive => exact callSpec_screen clock p (!enabled)
  | displayInactive => exact callSpec_screen clock p enabled
  | lowPower => exact callSpec_lowPower clock p enabled
  | other name => exact callSpec_nil p

theorem callSpec_boostActions (fling : Bool) {source : String} (durationMs : Int)
    (rc : RequestConfig) (hsource : ¬ Barred p source) (hadpf : source ≠ "adpf") :
    CallSpec p p (boostActions off clock fling source durationMs rc) := by
  refine callSpec_pulses_request off p _ _ _ source hsource hadpf ?_
  intro action haction
  split at haction
  · cases haction
  · exact ⟨_, _, _, _, List.mem_singleton.mp haction⟩

theorem callSpec_setBoost (durationMs : Int) :
    CallSpec p p (setBoost cfg off clock durationMs p) := by
  unfold setBoost
  split
  · exact callSpec_nil p
  · rename_i hflags
    simp only
    generalize (decide (0 < durationMs) && (cfg.requests.find? "fling").isSome) = fling
    have hadpf : (if fling then "fling" else "interaction") ≠ "adpf" := by
      cases fling <;> decide
    generalize (if fling then "fling" else "interaction") = source at hadpf ⊢
    have hsource : ¬ Barred p source := by
      rintro ⟨_, hoff | ⟨hlow, _⟩⟩
      · simp [hoff] at hflags
      · simp [hlow] at hflags
    split
    · exact callSpec_nil p
    · split
      · exact callSpec_nil p
      · split
        · exact callSpec_nil p
        · exact callSpec_boostActions off clock p fling durationMs _ hsource hadpf

end Calls

section Preservation

variable {σ : Type} (fs : Fs σ) (cfg : Config) {s : System σ}

theorem free_exec {op : EngineOp} {source : String} (hop : ¬ op.Sets source)
    {engine : Engine × σ} (hfree : engine.1.mRequests.find? source = none) :
    (op.exec fs engine).1.mRequests.find? source = none := by
  refine EngineOp.exec_find?_of_none fs op engine ?_ hfree
  intro values untilTime extend now hset
  exact hop ⟨values, untilTime, extend, now, hset⟩

/-- A removal frees the source whatever the engine held. -/
theorem free_of_removes {op : EngineOp} {source : String}
    (hop : (PowerAction.engine op).Removes source) (engine : Engine × σ) :
    (op.exec fs engine).1.mRequests.find? source = none := by
  obtain ⟨now, h | h⟩ := hop
  · cases h
    exact EngineOp.exec_clearAll_find? fs source now engine
  · cases h
    exact EngineOp.exec_clearRequest_find? fs source now engine

theorem engineCall_spec (a : Adpf) (now : Time) :
    (∀ op, Adpf.engineCall cfg.adpf now a = some op →
      (Adpf.recomputeLevel a = 0 → ∃ now, op = .clearRequest "adpf" now) ∧
        ∀ source, source ≠ "adpf" → ¬ op.Sets source) ∧
      (Adpf.engineCall cfg.adpf now a = none → a.mApplied = 0) := by
  unfold Adpf.engineCall
  simp only
  split_ifs with hlevel happlied
  · refine ⟨?_, by simp⟩
    intro op hop
    cases hop
    refine ⟨fun _ => ⟨now, rfl⟩, ?_⟩
    rintro source _ ⟨values, untilTime, extend, now', h⟩
    cases h
  · exact ⟨by simp, fun _ => not_not.mp happlied⟩
  · refine ⟨?_, by simp⟩
    intro op hop
    cases hop
    refine ⟨fun h => absurd h hlevel, ?_⟩
    rintro source hsource ⟨values, untilTime, extend, now', h⟩
    cases h
    exact hsource rfl

theorem AdpfOp.update_mSuppressed {op : AdpfOp}
    (hop : ∀ suppressed now, op ≠ .setSuppressed suppressed now) (cfg : AdpfConfig) (a : Adpf) :
    (op.update cfg a).1.mSuppressed = a.mSuppressed := by
  obtain ⟨suppressed, now, rfl⟩ | ⟨sessions, next, hupdate⟩ := op.update_sessions cfg a
  · exact absurd rfl (hop suppressed now)
  · rw [hupdate]

theorem System.todo_of_power {actions : List PowerAction} (h : s.power = some actions) :
    s.todo = actions := by
  rw [System.todo, h]
  rfl

/-- A call of the HAL begins. -/
theorem invariant_begin (h : SuppressionInvariant s) (hpower : s.power = none)
    {q : PowerState} {actions : List PowerAction} (hspec : CallSpec s.flags q actions) :
    SuppressionInvariant { s with flags := q, power := some actions } where
  barred := by
    intro source hbarred
    obtain ⟨hsets, hremoves | hold⟩ := hspec.barred source hbarred
    · exact ⟨hsets, Or.inl hremoves⟩
    · refine ⟨hsets, Or.inr ?_⟩
      rcases (h.barred source hold).2 with ⟨action, haction, _⟩ | hfree
      · rw [System.todo, hpower] at haction
        cases haction
      · exact hfree
  notAdpf := hspec.notAdpf
  flag := hspec.flag
  settled := by
    intro hnone
    have hq : q = s.flags := hspec.settled hnone
    simp only [hq]
    refine h.settled ?_
    rw [System.todo, hpower]
    simp
  idle := h.idle
  calling := h.calling
  called := h.called
  owner := by
    intro call hcall hfrom
    obtain ⟨now, rest, hsome⟩ := h.owner call hcall hfrom
    rw [hpower] at hsome
    cases hsome

theorem invariant_powerEngine (h : SuppressionInvariant s) {op : EngineOp}
    {rest : List PowerAction} (hpower : s.power = some (.engine op :: rest)) :
    SuppressionInvariant { s with engine := op.exec fs s.engine, power := some rest } := by
  have htodo := System.todo_of_power hpower
  have hadpf : ¬ op.Sets "adpf" := by
    intro hop
    exact h.notAdpf (.engine op) (by rw [htodo]; exact List.mem_cons_self) ⟨op, rfl, hop⟩
  constructor
  case barred =>
    intro source hbarred
    obtain ⟨hsets, hremoves⟩ := h.barred source hbarred
    rw [htodo] at hsets hremoves
    have hop : ¬ op.Sets source := fun hop => hsets _ List.mem_cons_self ⟨op, rfl, hop⟩
    refine ⟨fun action haction => hsets action (List.mem_cons_of_mem _ haction), ?_⟩
    rcases hremoves with ⟨action, haction, hremove⟩ | hfree
    · rcases List.mem_cons.mp haction with rfl | hrest
      · exact Or.inr (free_of_removes fs hremove s.engine)
      · exact Or.inl ⟨action, hrest, hremove⟩
    · exact Or.inr (free_exec fs hop hfree)
  case notAdpf =>
    intro action haction
    exact h.notAdpf action (by rw [htodo]; exact List.mem_cons_of_mem _ haction)
  case flag =>
    intro suppressed now hmem
    exact h.flag suppressed now (by rw [htodo]; exact List.mem_cons_of_mem _ hmem)
  case settled =>
    intro hnone
    refine h.settled ?_
    rw [htodo]
    intro suppressed now hmem
    rcases List.mem_cons.mp hmem with heq | hrest
    · cases heq
    · exact hnone suppressed now hrest
  case idle =>
    intro hcall
    exact ⟨fun happlied => free_exec fs hadpf ((h.idle hcall).1 happlied), (h.idle hcall).2⟩
  case calling => exact h.calling
  case called =>
    intro call hcall hnone hlevel
    exact free_exec fs hadpf (h.called call hcall hnone hlevel)
  case owner =>
    intro call hcall hfrom
    obtain ⟨now, rest', hsome⟩ := h.owner call hcall hfrom
    rw [hpower] at hsome
    cases hsome

/-- ADPF's lock is taken, by the HAL or by a hint session, for a
recomputation. -/
theorem invariant_recompute (h : SuppressionInvariant s) (hcall : s.adpfCall = none)
    {a : Adpf} (now : Time) (fromPower : Bool) (happlied : a.mApplied = s.adpf.mApplied)
    (hsettled : (∀ suppressed now, .suppress suppressed now ∉ s.todo) →
      a.mSuppressed = s.adpf.mSuppressed)
    (howner : fromPower = true →
      ∃ now rest, s.power = some (.suppress a.mSuppressed now :: rest)) :
    SuppressionInvariant { s with
      adpf := a
      adpfCall := some ⟨fromPower, Adpf.engineCall cfg.adpf now a⟩ } where
  barred := h.barred
  notAdpf := h.notAdpf
  flag := h.flag
  settled := fun hnone => (hsettled hnone).trans (h.settled hnone)
  idle := fun hnone => by cases hnone
  calling := by
    intro call op hsome hop
    cases hsome
    exact (engineCall_spec cfg a now).1 op hop
  called := by
    intro call hsome hnone _
    cases hsome
    refine (h.idle hcall).1 ?_
    rw [← happlied]
    exact (engineCall_spec cfg a now).2 hnone
  owner := by
    intro call hsome hfrom
    cases hsome
    exact howner hfrom

theorem invariant_hint (h : SuppressionInvariant s) (hcall : s.adpfCall = none)
    {op : AdpfOp} (hop : ∀ suppressed now, op ≠ .setSuppressed suppressed now) :
    SuppressionInvariant (hintCall cfg op s) := by
  have happlied := AdpfOp.update_mApplied cfg.adpf op s.adpf
  have hsuppressed := AdpfOp.update_mSuppressed hop cfg.adpf s.adpf
  unfold hintCall
  rcases hupdate : op.update cfg.adpf s.adpf with ⟨a, _ | now⟩
  · rw [hupdate] at happlied hsuppressed
    simp only at happlied hsuppressed
    refine ⟨h.barred, h.notAdpf, h.flag, ?_, ?_, ?_, ?_, ?_⟩
    · intro hnone
      exact hsuppressed.trans (h.settled hnone)
    · intro hnone
      simp only [happlied, hsuppressed]
      exact h.idle hnone
    · intro call op' hsome
      rw [hcall] at hsome
      cases hsome
    · intro call hsome
      rw [hcall] at hsome
      cases hsome
    · intro call hsome
      rw [hcall] at hsome
      cases hsome
  · rw [hupdate] at happlied hsuppressed
    exact invariant_recompute cfg h hcall now false happlied (fun _ => hsuppressed) (by simp)

theorem invariant_adpfEngine (h : SuppressionInvariant s) {call : AdpfCall} {op : EngineOp}
    (hcall : s.adpfCall = some call) (hop : call.call = some op) :
    SuppressionInvariant { s with
      engine := op.exec fs s.engine
      adpfCall := some { call with call := none } } := by
  obtain ⟨hclear, hothers⟩ := h.calling call op hcall hop
  constructor
  case barred =>
    intro source hbarred
    obtain ⟨hsets, hremoves⟩ := h.barred source hbarred
    exact ⟨hsets, hremoves.imp id (free_exec fs (hothers source hbarred.1))⟩
  case notAdpf => exact h.notAdpf
  case flag => exact h.flag
  case settled => exact h.settled
  case idle =>
    intro hnone
    cases hnone
  case calling =>
    intro call' op' hsome hop'
    cases hsome
    cases hop'
  case called =>
    intro _ _ _ hlevel
    obtain ⟨now, rfl⟩ := hclear hlevel
    exact EngineOp.exec_clearRequest_find? fs "adpf" now s.engine
  case owner =>
    intro call' hsome hfrom
    cases hsome
    exact h.owner call hcall hfrom

/-- Only the suppression that has just been carried out is taken off the
list. -/
theorem mem_todo_of_adpfDone {call : AdpfCall} {action : PowerAction}
    (h : action ∈ (adpfDone call s).todo) : action ∈ s.todo := by
  unfold adpfDone System.todo at h
  unfold System.todo
  cases hpower : s.power with
  | none => simp [hpower] at h
  | some actions =>
      simp only [hpower, Option.map_some] at h
      split at h
      · exact List.mem_of_mem_tail h
      · exact h

theorem mem_todo_adpfDone (h : SuppressionInvariant s) {call : AdpfCall}
    (hcall : s.adpfCall = some call) {action : PowerAction} (haction : action ∈ s.todo) :
    action ∈ (adpfDone call s).todo ∨ ∃ now, action = .suppress s.adpf.mSuppressed now := by
  cases hfrom : call.fromPower with
  | false =>
      left
      simp only [System.todo, adpfDone, hfrom] at haction ⊢
      exact haction
  | true =>
      obtain ⟨now, rest, hpower⟩ := h.owner call hcall hfrom
      rw [System.todo_of_power hpower] at haction
      rcases List.mem_cons.mp haction with rfl | hrest
      · exact Or.inr ⟨now, rfl⟩
      · left
        simp only [System.todo, adpfDone, hfrom, hpower]
        exact hrest

theorem invariant_adpfReturn (h : SuppressionInvariant s) {call : AdpfCall}
    (hcall : s.adpfCall = some call) (hnone : call.call = none) :
    SuppressionInvariant (adpfDone call s) := by
  constructor
  case barred =>
    intro source hbarred
    obtain ⟨hsets, hremoves⟩ := h.barred source hbarred
    refine ⟨fun action haction => hsets action (mem_todo_of_adpfDone haction), ?_⟩
    rcases hremoves with ⟨action, haction, hremove⟩ | hfree
    · rcases mem_todo_adpfDone h hcall haction with hrest | ⟨now, rfl⟩
      · exact Or.inl ⟨action, hrest, hremove⟩
      · obtain ⟨now', h' | h'⟩ := hremove <;> cases h'
    · exact Or.inr hfree
  case notAdpf => exact fun action haction => h.notAdpf action (mem_todo_of_adpfDone haction)
  case flag => exact fun suppressed now hmem => h.flag suppressed now (mem_todo_of_adpfDone hmem)
  case settled =>
    intro hsettled
    by_cases hold : ∀ suppressed now, .suppress suppressed now ∉ s.todo
    · exact h.settled hold
    · push Not at hold
      obtain ⟨suppressed, now, hmem⟩ := hold
      rcases mem_todo_adpfDone h hcall hmem with hrest | ⟨now', heq⟩
      · exact absurd hrest (hsettled suppressed now)
      · cases heq
        exact h.flag _ _ hmem
  case idle =>
    intro _
    refine ⟨h.called call hcall hnone, ?_⟩
    intro hsuppressed
    have hlevel : Adpf.recomputeLevel s.adpf = 0 := by
      unfold Adpf.recomputeLevel
      exact if_pos hsuppressed
    exact hlevel
  case calling =>
    intro call' op' hsome
    cases hsome
  case called =>
    intro call' hsome
    cases hsome
  case owner =>
    intro call' hsome
    cases hsome

theorem invariant_powerReturn (h : SuppressionInvariant s) (hpower : s.power = some []) :
    SuppressionInvariant { s with power := none } := by
  have htodo : s.todo = [] := System.todo_of_power hpower
  refine ⟨?_, ?_, ?_, ?_, h.idle, h.calling, h.called, ?_⟩
  · intro source hbarred
    have hold := h.barred source hbarred
    rw [htodo] at hold
    exact hold
  · simp [System.todo]
  · simp [System.todo]
  · intro _
    exact h.settled (by simp [htodo])
  · intro call hcall hfrom
    obtain ⟨now, rest, hsome⟩ := h.owner call hcall hfrom
    rw [hpower] at hsome
    cases hsome

/-- A step of the engine on its own that adds no request. -/
theorem invariant_engine (h : SuppressionInvariant s) {e : Engine × σ}
    (hfree : ∀ source, Free s source → Free { s with engine := e } source) :
    SuppressionInvariant { s with engine := e } := by
  refine ⟨?_, h.notAdpf, h.flag, h.settled, ?_, h.calling, ?_, h.owner⟩
  · intro source hbarred
    obtain ⟨hsets, hremoves⟩ := h.barred source hbarred
    exact ⟨hsets, hremoves.imp id (hfree source)⟩
  · intro hcall
    exact ⟨fun happlied => hfree _ ((h.idle hcall).1 happlied), (h.idle hcall).2⟩
  · intro call hcall hnone hlevel
    exact hfree _ (h.called call hcall hnone hlevel)

theorem invariant_worker (h : SuppressionInvariant s) (now : Time) :
    SuppressionInvariant { s with engine := (EngineOp.apply now).exec fs s.engine } := by
  apply invariant_engine h
  intro source hsource
  apply free_exec fs _ hsource
  rintro ⟨values, untilTime, extend, now', h⟩
  cases h

/-- Every step keeps the invariant. -/
theorem invariant_step (h : SuppressionInvariant s) {label : SystemLabel} {t : System σ}
    (hstep : SystemStep fs cfg s label t) : SuppressionInvariant t := by
  cases label with
  | setMode off clock type enabled =>
      obtain ⟨hpower, _, rfl⟩ := hstep
      exact invariant_begin h hpower (callSpec_setMode cfg off clock s.flags type enabled)
  | setBoost off clock type durationMs =>
      obtain ⟨hpower, _, _, rfl⟩ := hstep
      exact invariant_begin h hpower (callSpec_setBoost cfg off clock s.flags durationMs)
  | powerEngine =>
      obtain ⟨op, rest, hpower, rfl⟩ := hstep
      exact invariant_powerEngine fs h hpower
  | powerSuppress =>
      obtain ⟨suppressed, now, rest, hpower, hcall, rfl⟩ := hstep
      refine invariant_recompute cfg h hcall now true rfl ?_ (fun _ => ⟨now, rest, hpower⟩)
      intro hnone
      rw [System.todo_of_power hpower] at hnone
      exact absurd List.mem_cons_self (hnone suppressed now)
  | powerReturn =>
      obtain ⟨hpower, rfl⟩ := hstep
      exact invariant_powerReturn h hpower
  | hint op =>
      obtain ⟨hcall, hop, rfl⟩ := hstep
      exact invariant_hint cfg h hcall hop
  | adpfEngine =>
      obtain ⟨call, op, hcall, hop, rfl⟩ := hstep
      exact invariant_adpfEngine fs h hcall hop
  | adpfReturn =>
      obtain ⟨call, hcall, hnone, rfl⟩ := hstep
      exact invariant_adpfReturn h hcall hnone
  | worker now =>
      rw [hstep]
      exact invariant_worker fs h now
  | env =>
      obtain ⟨hengine, ht⟩ := hstep
      rw [ht]
      apply invariant_engine h
      intro source hsource
      rw [Free, hengine]
      exact hsource

end Preservation

theorem invariant_start {σ : Type} {cfg : Config} {s : System σ} (h : SystemStart cfg s) :
    SuppressionInvariant s := by
  obtain ⟨hrequests, hadpf, hflags, hpower, hcall⟩ := h
  have htodo : s.todo = [] := by
    rw [System.todo, hpower]
    rfl
  have hfree : ∀ source, Free s source := by
    intro source
    rw [Free, hrequests]
    rfl
  refine ⟨?_, ?_, ?_, ?_, ?_, ?_, ?_, ?_⟩
  · exact fun source _ => ⟨by simp [htodo], Or.inr (hfree source)⟩
  · simp [htodo]
  · simp [htodo]
  · intro _
    rw [hadpf, hflags]
    rfl
  · intro _
    exact ⟨fun _ => hfree "adpf", fun _ => by rw [hadpf]; rfl⟩
  · simp [hcall]
  · simp [hcall]
  · simp [hcall]

/-- In every state of every run in which no call is in progress: with the
screen off the engine holds no request at all, and with battery saver on none
of the touch sources and none of ADPF. -/
theorem suppression_holds {σ : Type} (fs : Fs σ) (cfg : Config) (s : System σ)
    (hreach : Reachable (SystemStart cfg) (SystemStep fs cfg) s)
    (hidle : s.power = none ∧ s.adpfCall = none) :
    (s.flags.mScreenOff = true → ∀ source, s.engine.1.mRequests.find? source = none) ∧
      (s.flags.mLowPower = true → ∀ source ∈ ["interaction", "fling", "adpf"],
        s.engine.1.mRequests.find? source = none) := by
  have hinv : SuppressionInvariant s := by
    apply hreach.invariant (P := SuppressionInvariant)
    · intro s hstart
      exact invariant_start hstart
    · intro s label t hs hstep
      exact invariant_step fs cfg hs hstep
  obtain ⟨hpower, hcall⟩ := hidle
  have htodo : s.todo = [] := by
    rw [System.todo, hpower]
    rfl
  have hadpf : (s.flags.mScreenOff || s.flags.mLowPower) = true → Free s "adpf" := by
    intro hflag
    have hsuppressed := hinv.settled (by simp [htodo])
    rw [hflag] at hsuppressed
    exact (hinv.idle hcall).1 ((hinv.idle hcall).2 hsuppressed)
  have hbarred : ∀ source, Barred s.flags source → Free s source := by
    intro source hbarred
    rcases (hinv.barred source hbarred).2 with ⟨action, haction, _⟩ | hfree
    · rw [htodo] at haction
      cases haction
    · exact hfree
  refine ⟨?_, ?_⟩
  · intro hoff source
    by_cases hsource : source = "adpf"
    · rw [hsource]
      exact hadpf (by rw [hoff]; rfl)
    · exact hbarred source ⟨hsource, Or.inl hoff⟩
  · intro hlow source hsource
    simp only [List.mem_cons, List.not_mem_nil, or_false] at hsource
    rcases hsource with rfl | rfl | rfl
    · exact hbarred _ ⟨by decide, Or.inr ⟨hlow, Or.inl rfl⟩⟩
    · exact hbarred _ ⟨by decide, Or.inr ⟨hlow, Or.inr rfl⟩⟩
    · exact hadpf (by rw [hlow, Bool.or_true])

def screenConfig : Config where
  adpf := twoLevels
  modes := ["INTERACTIVE"]

/-- A report that comes between `clearAll` and `setSuppressed` arms the floor
once more; when all calls have returned it is gone. -/
theorem suppression_holds_report_in_between :
    ∃ s, Reachable (SystemStart screenConfig) (SystemStep steadyFs screenConfig) s ∧
      (s.power = none ∧ s.adpfCall = none) ∧ s.flags.mScreenOff = true ∧
      s.adpf.mLevelHits = [1, 0, 1] ∧ s.engine.1.mRequests.find? "adpf" = none := by
  have hstart : Reachable (SystemStart screenConfig) (SystemStep steadyFs screenConfig)
      { engine := (Engine.create [], ()), adpf := Adpf.create twoLevels } :=
    Reachable.init ⟨rfl, rfl, rfl, rfl, rfl⟩
  have hopen := hstart.next (.hint (.openSession 10 0)) ⟨rfl, by simp, rfl⟩
  have hmode := hopen.next (.setMode [] (fun _ => 1) .interactive false)
    ⟨rfl, by decide, rfl⟩
  have hclear := hmode.next .powerEngine ⟨_, _, rfl, rfl⟩
  have hreport := hclear.next (.hint (.report 1 [20] 2)) ⟨rfl, by simp, rfl⟩
  have hfloor := hreport.next .adpfEngine ⟨_, _, rfl, rfl, rfl⟩
  have hreported := hfloor.next .adpfReturn ⟨_, rfl, rfl, rfl⟩
  have hsuppress := hreported.next .powerSuppress ⟨_, _, _, rfl, rfl, rfl⟩
  have hgone := hsuppress.next .adpfEngine ⟨_, _, rfl, rfl, rfl⟩
  have hsuppressed := hgone.next .adpfReturn ⟨_, rfl, rfl, rfl⟩
  have hreturn := hsuppressed.next .powerReturn ⟨rfl, rfl⟩
  refine ⟨_, hreturn, ⟨rfl, rfl⟩, by decide, by decide, ?_⟩
  exact (suppression_holds steadyFs screenConfig _ hreturn ⟨rfl, rfl⟩).1 (by decide) "adpf"

end MeizuM5c.Power
