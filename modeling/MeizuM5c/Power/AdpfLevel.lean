import MeizuM5c.Power.Adpf
import MeizuM5c.Power.Requests

/-!
The level that ADPF keeps in force. It should be the highest level of the
running sessions that still report; the code takes the highest of all running
sessions, and checks staleness only for the session that reports. The theorem
below says exactly when the two agree.
-/

namespace MeizuM5c.Power

open Lib

/-- The engine holds the floor of `level`, and none for level 0. -/
def LevelInForce (cfg : AdpfConfig) (e : Engine) (level : Int) : Prop :=
  (level = 0 ∧ e.mRequests.find? "adpf" = none) ∨
    (0 < level ∧ ∃ r, e.mRequests.find? "adpf" = some r ∧
      cfg.levels[(level - 1).toNat]? = some r.values)

/-- The last report is at most `staleMs` old. -/
def Fresh (cfg : AdpfConfig) (now : Time) (s : Session) : Prop :=
  now - s.lastReport ≤ cfg.staleMs * 1000000

/-- A floor that is set at `now` does not expire at once. In 64 bits this fails not only
where `staleMs` is not positive. -/
def Lasts (cfg : AdpfConfig) (now : Time) : Prop :=
  now < wrapInt 64 (now + wrapInt 64 (cfg.staleMs * 1000000))

instance (cfg : AdpfConfig) (now : Time) : Decidable (Lasts cfg now) :=
  inferInstanceAs (Decidable (_ < _))

/-- A session that is not paused, while nothing is suppressed. -/
def Running (a : Adpf) (s : Session) : Prop :=
  a.mSuppressed = false ∧ s.paused = false ∧ ∃ id, (id, s) ∈ a.mSessions.entries

/-- After an operation that recomputes at `now`, the level in force is the
highest of the running sessions whose last report is fresh, or 0. -/
def AdpfLaw {σ : Type} (fs : Fs σ) (cfg : AdpfConfig) (op : AdpfOp)
    (s : Adpf × (Engine × σ)) : Prop :=
  ∀ now, (op.update cfg s.1).2 = some now →
    ∃ level, IsGreatest ({0} ∪ {l | ∃ session, Running (op.exec cfg fs s).1 session ∧
        Fresh cfg now session ∧ session.level = l}) level ∧
      LevelInForce cfg (op.exec cfg fs s).2.1 level

/-- With `a` the sessions that the operation leaves: every running session
that has a level is fresh or outranked by a fresh one. When the floor would
expire as it is set, no fresh session has a level. -/
def AdpfCondition (cfg : AdpfConfig) (op : AdpfOp) (a : Adpf) : Prop :=
  ∀ now, (op.update cfg a).2 = some now →
    if Lasts cfg now then
      ∀ session, Running (op.update cfg a).1 session → 0 < session.level →
        ∃ other, Running (op.update cfg a).1 other ∧ Fresh cfg now other ∧
          session.level ≤ other.level
    else
      ∀ session, Running (op.update cfg a).1 session → Fresh cfg now session →
        session.level ≤ 0

/-- A step of a run: an operation of ADPF, an operation that another caller
makes of the engine, or a change of the file system. -/
inductive AdpfLabel where
  | op (op : AdpfOp)
  | engine (op : EngineOp)
  | env

def AdpfStep {σ : Type} (fs : Fs σ) (cfg : AdpfConfig) (s : Adpf × (Engine × σ)) :
    AdpfLabel → Adpf × (Engine × σ) → Prop
  | .op op, t => t = op.exec cfg fs s
  | .engine op, t => t = (s.1, op.exec fs s.2) ∧
      ∀ values untilTime extend now, op ≠ .setRequest "adpf" values untilTime extend now
  | .env, t => t.1 = s.1 ∧ t.2.1 = s.2.1

def AdpfStart {σ : Type} (cfg : AdpfConfig) (nodes : List NodeConfig)
    (s : Adpf × (Engine × σ)) : Prop :=
  s.1 = Adpf.create cfg ∧ s.2.1 = Engine.create nodes

/-- The levels are in range, and the engine has a floor only while ADPF knows
of one. -/
structure AdpfInvariant {σ : Type} (cfg : AdpfConfig) (s : Adpf × (Engine × σ)) : Prop where
  bounded : LevelsBounded cfg s.1
  idle : s.1.mApplied = 0 → s.2.1.mRequests.find? "adpf" = none

/-- On a clock that has not wrapped: `staleMs` is positive, and neither its nanoseconds nor
the deadline leave 64 bits. -/
theorem lasts_iff (cfg : AdpfConfig) {now : Time} (hnow : 0 ≤ now)
    (hfits : now ≤ 9223372036854775807)
    (hstale : -9223372036854 ≤ cfg.staleMs ∧ cfg.staleMs ≤ 9223372036854) :
    Lasts cfg now ↔ 0 < cfg.staleMs ∧ now + cfg.staleMs * 1000000 ≤ 9223372036854775807 := by
  have hproduct : wrapInt 64 (cfg.staleMs * 1000000) = cfg.staleMs * 1000000 := by
    rw [wrapInt_64_eq_iff]
    omega
  have hadd := lt_wrapInt_64_add_iff (x := now) (d := cfg.staleMs * 1000000) hnow hfits
    (by omega) (by omega)
  have hpos : 0 < cfg.staleMs * 1000000 ↔ 0 < cfg.staleMs := by omega
  unfold Lasts
  rw [hproduct, hadd, hpos]

section Recompute

variable {σ : Type} (fs : Fs σ) (cfg : AdpfConfig)

theorem recomputeLevel_isGreatest (a : Adpf) :
    IsGreatest ({0} ∪ {l | ∃ session, Running a session ∧ session.level = l})
      (Adpf.recomputeLevel a) := by
  unfold Adpf.recomputeLevel
  cases hsuppressed : a.mSuppressed with
  | true => simp [Running, hsuppressed, IsGreatest, upperBounds]
  | false =>
      have hset : {l | ∃ session, Running a session ∧ session.level = l} =
          readings (fun e : Int × Session => if e.2.paused then none else some e.2.level)
            a.mSessions.entries := by
        ext l
        simp only [Running, hsuppressed, readings, Set.mem_ofPred_eq, true_and]
        constructor
        · rintro ⟨session, ⟨hpaused, id, hmem⟩, hlevel⟩
          exact ⟨(id, session), hmem, by simp [hpaused, hlevel]⟩
        · rintro ⟨⟨id, session⟩, hmem, hread⟩
          by_cases hpaused : session.paused = true
          · simp [hpaused] at hread
          · simp only [hpaused] at hread
            exact ⟨session, ⟨by simpa using hpaused, id, hmem⟩, by simpa using hread⟩
      rw [hset]
      exact maxFrom_isGreatest _ _ _

theorem recomputeLevel_nonneg (a : Adpf) : 0 ≤ Adpf.recomputeLevel a :=
  (recomputeLevel_isGreatest a).2 (Or.inl rfl)

theorem recomputeLevel_le {a : Adpf} (h : LevelsBounded cfg a) :
    Adpf.recomputeLevel a ≤ cfg.levels.length := by
  rcases (recomputeLevel_isGreatest a).1 with hzero | ⟨session, ⟨_, _, id, hmem⟩, hlevel⟩
  · rw [Set.mem_singleton_iff.mp hzero]
    simp
  · rw [← hlevel]
    exact (h _ hmem).2

/-- After a recomputation the engine holds the floor of the recomputed level,
unless that level is 0 or the floor expires as it is made. -/
theorem recomputeLocked_find? (now : Time) (a : Adpf) (s : Engine × σ)
    (hidle : a.mApplied = 0 → s.1.mRequests.find? "adpf" = none) :
    (Adpf.recomputeLocked cfg fs now a s).2.1.mRequests.find? "adpf" =
      if Adpf.recomputeLevel a = 0 ∨ ¬ Lasts cfg now then none
      else some ⟨cfg.levels.getD (Adpf.recomputeLevel a - 1).toNat OrdMap.empty,
        Deadline.atTime (wrapInt 64 (now + milliseconds cfg.staleMs))⟩ := by
  unfold Adpf.recomputeLocked Adpf.engineCall
  by_cases hlevel : Adpf.recomputeLevel a = 0
  · by_cases happlied : a.mApplied = 0
    · simpa [hlevel, happlied] using hidle happlied
    · simpa [hlevel, happlied] using EngineOp.exec_clearRequest_find? fs "adpf" now s
  · simp only [hlevel, if_false, false_or]
    rw [EngineOp.exec_setRequest_find?]
    have hlive : Deadline.atTime now <
        Deadline.atTime (wrapInt 64 (now + milliseconds cfg.staleMs)) ↔ Lasts cfg now :=
      Deadline.atTime_lt_atTime _ _
    simp only [hlive, ite_not]

@[simp] theorem recomputeLocked_fst (now : Time) (a : Adpf) (s : Engine × σ) :
    (Adpf.recomputeLocked cfg fs now a s).1 = Adpf.applied a := by
  unfold Adpf.recomputeLocked
  split <;> rfl

/-- Every operation but `setSuppressed` works on the sessions alone. -/
theorem AdpfOp.update_sessions (op : AdpfOp) (a : Adpf) :
    (∃ suppressed now, op = .setSuppressed suppressed now) ∨
      ∃ sessions next, (op.update cfg a).1 = { a with mSessions := sessions, mNextId := next } := by
  cases op with
  | openSession targetNs now => exact .inr ⟨_, _, rfl⟩
  | setTarget id targetNs =>
      right
      simp only [AdpfOp.update, Adpf.setTarget]
      split
      · exact ⟨_, _, rfl⟩
      · split
        · exact ⟨_, _, rfl⟩
        · exact ⟨_, _, rfl⟩
  | report id actualNs now =>
      right
      simp only [AdpfOp.update, Adpf.report]
      split <;> exact ⟨_, _, rfl⟩
  | setPaused id paused now =>
      right
      simp only [AdpfOp.update, Adpf.setPaused]
      split <;> exact ⟨_, _, rfl⟩
  | close id now =>
      right
      simp only [AdpfOp.update, Adpf.close]
      split <;> exact ⟨_, _, rfl⟩
  | setSuppressed suppressed now => exact .inl ⟨suppressed, now, rfl⟩

theorem AdpfOp.update_mApplied (op : AdpfOp) (a : Adpf) :
    (op.update cfg a).1.mApplied = a.mApplied := by
  obtain ⟨suppressed, now, rfl⟩ | ⟨sessions, next, hupdate⟩ := op.update_sessions cfg a
  · rfl
  · rw [hupdate]

theorem AdpfOp.exec_eq (op : AdpfOp) (s : Adpf × (Engine × σ)) :
    op.exec cfg fs s =
      match (op.update cfg s.1).2 with
      | none => ((op.update cfg s.1).1, s.2)
      | some now => Adpf.recomputeLocked cfg fs now (op.update cfg s.1).1 s.2 := by
  unfold AdpfOp.exec
  rcases op.update cfg s.1 with ⟨a, _ | now⟩ <;> rfl

theorem adpfInvariant_op (op : AdpfOp) (s : Adpf × (Engine × σ)) (h : AdpfInvariant cfg s) :
    AdpfInvariant cfg (op.exec cfg fs s) := by
  have hbounded := levelsBounded_update cfg op s.1 h.bounded
  have hidle : (op.update cfg s.1).1.mApplied = 0 → s.2.1.mRequests.find? "adpf" = none := by
    rw [AdpfOp.update_mApplied]
    exact h.idle
  rw [AdpfOp.exec_eq]
  cases hnow : (op.update cfg s.1).2 with
  | none => exact ⟨hbounded, hidle⟩
  | some now =>
      refine ⟨?_, ?_⟩
      · simp only [recomputeLocked_fst]
        exact hbounded
      · intro happlied
        simp only [recomputeLocked_fst, Adpf.applied] at happlied
        simp only
        rw [recomputeLocked_find? fs cfg now _ s.2 hidle, if_pos (Or.inl happlied)]

end Recompute

/-- In every reachable state. -/
theorem adpfInvariant_of_reachable {σ : Type} (fs : Fs σ) (cfg : AdpfConfig)
    (nodes : List NodeConfig) (s : Adpf × (Engine × σ))
    (hreach : Reachable (AdpfStart cfg nodes) (AdpfStep fs cfg) s) : AdpfInvariant cfg s := by
  refine hreach.invariant (P := AdpfInvariant cfg) ?_ ?_
  · rintro s ⟨hadpf, hengine⟩
    refine ⟨?_, ?_⟩
    · rw [hadpf]
      intro e he
      cases he
    · intro _
      rw [hengine]
      rfl
  · intro s label t h hstep
    cases label with
    | op op =>
        rw [hstep]
        exact adpfInvariant_op fs cfg op s h
    | engine op =>
        obtain ⟨rfl, hop⟩ := hstep
        refine ⟨h.bounded, fun happlied => ?_⟩
        exact EngineOp.exec_find?_of_none fs op s.2 hop (h.idle happlied)
    | env =>
        obtain ⟨hadpf, hengine⟩ := hstep
        refine ⟨?_, ?_⟩
        · rw [hadpf]
          exact h.bounded
        · rw [hadpf, hengine]
          exact h.idle

section Law

variable {cfg : AdpfConfig} {e : Engine} {a : Adpf} {now : Time}

/-- The floor of the recomputed level is in force when it does not expire at
once. -/
theorem levelInForce_recomputeLevel (hbounded : LevelsBounded cfg a)
    (hfind : e.mRequests.find? "adpf" =
      if Adpf.recomputeLevel a = 0 ∨ ¬ Lasts cfg now then none
      else some ⟨cfg.levels.getD (Adpf.recomputeLevel a - 1).toNat OrdMap.empty,
        Deadline.atTime (wrapInt 64 (now + milliseconds cfg.staleMs))⟩)
    (hlasts : Lasts cfg now) : LevelInForce cfg e (Adpf.recomputeLevel a) := by
  have hnonneg := recomputeLevel_nonneg a
  have hle := recomputeLevel_le cfg hbounded
  by_cases hzero : Adpf.recomputeLevel a = 0
  · exact Or.inl ⟨hzero, by rw [hfind, if_pos (Or.inl hzero)]⟩
  · right
    rw [hfind, if_neg (by simp only [hzero, false_or, not_not]; exact hlasts)]
    refine ⟨by omega, _, rfl, ?_⟩
    rw [List.getD_eq_getElem?_getD, List.getElem?_eq_getElem (by omega)]
    rfl

/-- Fresh sessions that outrank the others decide the recomputed level. -/
theorem recomputeLevel_isGreatest_fresh
    (hcover : ∀ session, Running a session → 0 < session.level →
      ∃ other, Running a other ∧ Fresh cfg now other ∧ session.level ≤ other.level) :
    IsGreatest ({0} ∪ {l | ∃ session, Running a session ∧ Fresh cfg now session ∧
      session.level = l}) (Adpf.recomputeLevel a) := by
  obtain ⟨hmem, hupper⟩ := recomputeLevel_isGreatest a
  refine ⟨?_, ?_⟩
  · rcases hmem with hzero | ⟨session, hrunning, hlevel⟩
    · exact Or.inl hzero
    · by_cases hpos : 0 < session.level
      · obtain ⟨other, hother, hfresh, hle⟩ := hcover session hrunning hpos
        have hge := hupper (Or.inr ⟨other, hother, rfl⟩)
        exact Or.inr ⟨other, hother, hfresh, le_antisymm hge (hlevel ▸ hle)⟩
      · have hnonneg := recomputeLevel_nonneg a
        left
        rw [Set.mem_singleton_iff]
        omega
  · rintro l (hzero | ⟨session, hrunning, _, hlevel⟩)
    · exact hupper (Or.inl hzero)
    · exact hupper (Or.inr ⟨session, hrunning, hlevel⟩)

/-- Conversely, when the floors differ, a level in force is the recomputed
one. -/
theorem eq_recomputeLevel_of_levelInForce (hnodup : cfg.levels.Nodup)
    (hbounded : LevelsBounded cfg a) {r : Request} {level : Int}
    (hfind : e.mRequests.find? "adpf" = some r)
    (hvalues : r.values = cfg.levels.getD (Adpf.recomputeLevel a - 1).toNat OrdMap.empty)
    (hpos : 0 < Adpf.recomputeLevel a) (hforce : LevelInForce cfg e level) :
    level = Adpf.recomputeLevel a := by
  have hle := recomputeLevel_le cfg hbounded
  rcases hforce with ⟨_, hnone⟩ | ⟨hlevel, r', hfind', hindex⟩
  · rw [hfind] at hnone
    cases hnone
  · rw [hfind] at hfind'
    cases hfind'
    have hown : cfg.levels[(Adpf.recomputeLevel a - 1).toNat]? = some r.values := by
      rw [hvalues, List.getD_eq_getElem?_getD, List.getElem?_eq_getElem (by omega)]
      rfl
    have hindices := (List.getElem?_inj (by omega) hnodup).mp (hown.trans hindex.symm)
    omega

end Law

/-- In every run, for every operation: the condition is enough for the law,
and where the configured floors are all different it is needed. -/
theorem adpf_level_law_iff {σ : Type} (fs : Fs σ) (cfg : AdpfConfig)
    (nodes : List NodeConfig) (s : Adpf × (Engine × σ))
    (hreach : Reachable (AdpfStart cfg nodes) (AdpfStep fs cfg) s) (op : AdpfOp) :
    (AdpfCondition cfg op s.1 → AdpfLaw fs cfg op s) ∧
      (cfg.levels.Nodup → AdpfLaw fs cfg op s → AdpfCondition cfg op s.1) := by
  have hinv := adpfInvariant_of_reachable fs cfg nodes s hreach
  have hbounded := levelsBounded_update cfg op s.1 hinv.bounded
  have hidle : (op.update cfg s.1).1.mApplied = 0 → s.2.1.mRequests.find? "adpf" = none := by
    rw [AdpfOp.update_mApplied]
    exact hinv.idle
  have hexec : ∀ now, (op.update cfg s.1).2 = some now →
      op.exec cfg fs s = Adpf.recomputeLocked cfg fs now (op.update cfg s.1).1 s.2 := by
    intro now hnow
    rw [AdpfOp.exec_eq, hnow]
  refine ⟨?_, ?_⟩
  · intro hcond now hnow
    have hfind := recomputeLocked_find? fs cfg now _ s.2 hidle
    rw [hexec now hnow, recomputeLocked_fst]
    have hcond := hcond now hnow
    by_cases hlasts : Lasts cfg now
    · rw [if_pos hlasts] at hcond
      exact ⟨_, recomputeLevel_isGreatest_fresh hcond,
        levelInForce_recomputeLevel hbounded hfind hlasts⟩
    · rw [if_neg hlasts] at hcond
      refine ⟨0, ⟨Or.inl rfl, ?_⟩, Or.inl ⟨rfl, ?_⟩⟩
      · rintro l (hzero | ⟨session, hrunning, hfresh, hlevel⟩)
        · exact le_of_eq hzero
        · rw [← hlevel]
          exact hcond session hrunning hfresh
      · rw [hfind, if_pos (Or.inr hlasts)]
  · intro hnodup hlaw now hnow
    have hfind := recomputeLocked_find? fs cfg now _ s.2 hidle
    obtain ⟨level, hgreatest, hforce⟩ := hlaw now hnow
    rw [hexec now hnow] at hgreatest hforce
    rw [recomputeLocked_fst] at hgreatest
    by_cases hlasts : Lasts cfg now
    · rw [if_pos hlasts]
      intro session hrunning hpos
      have hge := (recomputeLevel_isGreatest _).2 (Or.inr ⟨session, hrunning, rfl⟩)
      have hlc : 0 < Adpf.recomputeLevel (op.update cfg s.1).1 := lt_of_lt_of_le hpos hge
      have hset : ¬ (Adpf.recomputeLevel (op.update cfg s.1).1 = 0 ∨ ¬ Lasts cfg now) := by
        rintro (hzero | hnot)
        · omega
        · exact hnot hlasts
      rw [if_neg hset] at hfind
      have hlevel := eq_recomputeLevel_of_levelInForce hnodup hbounded hfind rfl hlc hforce
      rcases hgreatest.1 with hzero | ⟨other, hother, hfresh, heq⟩
      · rw [Set.mem_singleton_iff] at hzero
        omega
      · exact ⟨other, hother, hfresh, by omega⟩
    · rw [if_neg hlasts]
      intro session hrunning hfresh
      rw [if_pos (Or.inr hlasts)] at hfind
      have hzero : level = 0 := by
        rcases hforce with ⟨h, _⟩ | ⟨_, r, hr, _⟩
        · exact h
        · rw [hfind] at hr
          cases hr
      rw [← hzero]
      exact hgreatest.2 (Or.inr ⟨session, hrunning, hfresh, rfl⟩)

/-- Two levels, with the default `StaleMs`. -/
def twoLevels : AdpfConfig where
  lowWater := fun _ _ => false
  levels := [OrdMap.empty.insert "cpu" "pct:50", OrdMap.empty.insert "cpu" "max"]

def adpfRun (ops : List AdpfOp) : Adpf × (Engine × Unit) :=
  ops.foldl (fun s op => op.exec twoLevels steadyFs s)
    (Adpf.create twoLevels, (Engine.create [], ()))

theorem adpfRun_reachable (ops : List AdpfOp) :
    Reachable (AdpfStart twoLevels []) (AdpfStep steadyFs twoLevels) (adpfRun ops) := by
  induction ops using List.reverseRecOn with
  | nil => exact Reachable.init ⟨rfl, rfl⟩
  | append_singleton ops op ih =>
      rw [adpfRun, List.foldl_append]
      exact Reachable.step (a := .op op) ih rfl

/-- A heavy session that goes quiet, and a light one that keeps reporting. -/
def quietSession : List AdpfOp :=
  [.openSession 10 0, .openSession 10 0, .report 1 [20] 0, .report 2 [10] (milliseconds 100)]

/-- 200 ms after the last report of the heavy session, a report of the light
one re-arms the heavy one's floor. -/
theorem adpf_level_law_rearmed :
    Reachable (AdpfStart twoLevels []) (AdpfStep steadyFs twoLevels) (adpfRun quietSession) ∧
      ¬ AdpfLaw steadyFs twoLevels (.report 2 [10] (milliseconds 200))
        (adpfRun quietSession) := by
  refine ⟨adpfRun_reachable _, ?_⟩
  intro hlaw
  obtain ⟨level, hgreatest, hforce⟩ := hlaw (milliseconds 200) rfl
  have hsessions : ((AdpfOp.report 2 [10] (milliseconds 200)).exec twoLevels steadyFs
      (adpfRun quietSession)).1.mSessions.entries =
        [(1, { targetNs := 10, level := 2, lastReport := 0 }),
          (2, { targetNs := 10, level := 0, lastReport := milliseconds 200 })] := by
    decide
  have hheld : ((AdpfOp.report 2 [10] (milliseconds 200)).exec twoLevels steadyFs
      (adpfRun quietSession)).2.1.mRequests.find? "adpf" ≠ none := by
    decide
  have hpos : 0 < level := by
    rcases hforce with ⟨_, hnone⟩ | ⟨hpos, _⟩
    · exact absurd hnone hheld
    · exact hpos
  rcases hgreatest.1 with hzero | ⟨session, ⟨_, _, id, hmem⟩, hfresh, hlevel⟩
  · rw [hzero] at hpos
    exact absurd hpos (by decide)
  · rw [hsessions, List.mem_pair] at hmem
    rcases hmem with hmem | hmem
    · cases hmem
      exact absurd hfresh (by unfold Fresh; decide)
    · cases hmem
      rw [← hlevel] at hpos
      exact absurd hpos (by decide)

/-- While the heavy session itself reports, the law holds. -/
theorem adpf_level_law_reporting :
    ∃ s, Reachable (AdpfStart twoLevels []) (AdpfStep steadyFs twoLevels) s ∧
      AdpfCondition twoLevels (.report 1 [20] 0) s.1 ∧
      AdpfLaw steadyFs twoLevels (.report 1 [20] 0) s ∧
      LevelInForce twoLevels ((AdpfOp.report 1 [20] 0).exec twoLevels steadyFs s).2.1 2 := by
  have hreach := adpfRun_reachable [.openSession 10 0]
  have hcond : AdpfCondition twoLevels (.report 1 [20] 0) (adpfRun [.openSession 10 0]).1 := by
    intro now hnow
    cases hnow
    rw [if_pos (by decide)]
    intro session hrunning _
    have hsessions : ((AdpfOp.report 1 [20] 0).update twoLevels
        (adpfRun [.openSession 10 0]).1).1.mSessions.entries =
          [(1, { targetNs := 10, level := 2, lastReport := 0 })] := by
      decide
    refine ⟨session, hrunning, ?_, le_rfl⟩
    obtain ⟨_, _, id, hmem⟩ := hrunning
    rw [hsessions, List.mem_singleton] at hmem
    cases hmem
    unfold Fresh
    decide
  refine ⟨_, hreach, hcond, (adpf_level_law_iff steadyFs twoLevels [] _ hreach _).1 hcond, ?_⟩
  exact Or.inr ⟨by decide, _, rfl, by decide⟩

end MeizuM5c.Power
