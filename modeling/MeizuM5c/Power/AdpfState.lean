import MeizuM5c.Power.AdpfLevel

/-!
Session levels, the applied level and the engine's request are three copies of
one fact. They agree in every run in which a session is opened under a number
that no open session has; the counter of the numbers wraps after 2^32 sessions.
-/

namespace MeizuM5c.Power

open Lib

/-- What should hold after every operation. -/
structure AdpfStateLaw {σ : Type} (cfg : AdpfConfig) (s : Adpf × (Engine × σ)) : Prop where
  levels : LevelsBounded cfg s.1
  hits : s.1.mLevelHits.length = cfg.levels.length + 1
  suppressed : s.1.mSuppressed = true → s.1.mApplied = 0
  applied : s.1.mSuppressed = false →
    IsGreatest ({0} ∪ {l | ∃ e ∈ s.1.mSessions.entries, e.2.paused = false ∧ e.2.level = l})
      s.1.mApplied
  held : ∀ r, s.2.1.mRequests.find? "adpf" = some r →
    0 < s.1.mApplied ∧ cfg.levels[(s.1.mApplied - 1).toNat]? = some r.values ∧
      s.1.mSuppressed = false

/-- `open` takes a number that no open session has. -/
def FreshNumber {σ : Type} (s : Adpf × (Engine × σ)) : AdpfLabel → Prop
  | .op (.openSession _ _) => s.1.mSessions.find? s.1.mNextId = none
  | _ => True

def FreshStep {σ : Type} (fs : Fs σ) (cfg : AdpfConfig) (s : Adpf × (Engine × σ))
    (label : AdpfLabel) (t : Adpf × (Engine × σ)) : Prop :=
  AdpfStep fs cfg s label t ∧ FreshNumber s label

/-- The applied level is the one that a recomputation would give, and a request
of the engine has its floor. -/
structure AdpfAgrees {σ : Type} (cfg : AdpfConfig) (s : Adpf × (Engine × σ)) : Prop where
  bounded : LevelsBounded cfg s.1
  hits : s.1.mLevelHits.length = cfg.levels.length + 1
  applied : s.1.mApplied = Adpf.recomputeLevel s.1
  held : ∀ r, s.2.1.mRequests.find? "adpf" = some r →
    0 < s.1.mApplied ∧ cfg.levels[(s.1.mApplied - 1).toNat]? = some r.values

section Step

variable {σ : Type} (fs : Fs σ) (cfg : AdpfConfig)

theorem Adpf.recomputeLevel_suppressed {a : Adpf} (h : a.mSuppressed = true) :
    Adpf.recomputeLevel a = 0 := by
  simp only [Adpf.recomputeLevel, h, if_true]

theorem AdpfAgrees.law {s : Adpf × (Engine × σ)} (h : AdpfAgrees cfg s) : AdpfStateLaw cfg s where
  levels := h.bounded
  hits := h.hits
  suppressed := fun hsuppressed => h.applied.trans (Adpf.recomputeLevel_suppressed hsuppressed)
  applied := by
    intro hrunning
    have hgreatest := recomputeLevel_isGreatest s.1
    have hset : {l | ∃ session, Running s.1 session ∧ session.level = l} =
        {l | ∃ e ∈ s.1.mSessions.entries, e.2.paused = false ∧ e.2.level = l} := by
      ext l
      constructor
      · rintro ⟨session, ⟨-, hpaused, id, hmem⟩, hlevel⟩
        exact ⟨(id, session), hmem, hpaused, hlevel⟩
      · rintro ⟨⟨id, session⟩, hmem, hpaused, hlevel⟩
        exact ⟨session, ⟨hrunning, hpaused, id, hmem⟩, hlevel⟩
    rw [h.applied, ← hset]
    exact hgreatest
  held := by
    intro r hr
    obtain ⟨hpos, hvalues⟩ := h.held r hr
    refine ⟨hpos, hvalues, ?_⟩
    by_contra hsuppressed
    rw [h.applied, Adpf.recomputeLevel_suppressed (by simpa using hsuppressed)] at hpos
    exact absurd hpos (lt_irrefl 0)

/-- The recomputed level depends on the positive levels of the running sessions
alone. -/
theorem recomputeLevel_congr {a b : Adpf}
    (h : ∀ l : Int, l ≠ 0 → ((∃ session, Running a session ∧ session.level = l) ↔
      ∃ session, Running b session ∧ session.level = l)) :
    Adpf.recomputeLevel a = Adpf.recomputeLevel b := by
  have hset : ({0} ∪ {l | ∃ session, Running a session ∧ session.level = l} : Set Int) =
      {0} ∪ {l | ∃ session, Running b session ∧ session.level = l} := by
    ext l
    by_cases hzero : l = 0
    · exact iff_of_true (.inl hzero) (.inl hzero)
    · exact or_congr_right (h l hzero)
  have hgreatest := recomputeLevel_isGreatest a
  rw [hset] at hgreatest
  exact hgreatest.unique (recomputeLevel_isGreatest b)

/-- A new session has level 0. Under a number that is in use it would take the
place of another one. -/
theorem recomputeLevel_openSession {a : Adpf} (targetNs : Int) (now : Time)
    (hfresh : a.mSessions.find? a.mNextId = none) :
    Adpf.recomputeLevel (Adpf.openSession targetNs now a) = Adpf.recomputeLevel a := by
  apply recomputeLevel_congr
  intro l hl
  constructor
  · rintro ⟨session, ⟨hsuppressed, hpaused, id, hmem⟩, hlevel⟩
    rcases (OrdMap.mem_insert _ _ _ _).mp hmem with hnew | ⟨hold, -⟩
    · cases hnew
      exact absurd hlevel.symm hl
    · exact ⟨session, ⟨hsuppressed, hpaused, id, hold⟩, hlevel⟩
  · rintro ⟨session, ⟨hsuppressed, hpaused, id, hmem⟩, hlevel⟩
    refine ⟨session, ⟨hsuppressed, hpaused, id, ?_⟩, hlevel⟩
    refine (OrdMap.mem_insert _ _ _ _).mpr (.inr ⟨hmem, ?_⟩)
    rintro rfl
    rw [(OrdMap.find?_eq_some_iff _ _ _).mpr hmem] at hfresh
    cases hfresh

theorem recomputeLevel_setTarget (a : Adpf) (id targetNs : Int) :
    Adpf.recomputeLevel (Adpf.setTarget id targetNs a) = Adpf.recomputeLevel a := by
  unfold Adpf.setTarget
  cases hfind : a.mSessions.find? id with
  | none => rfl
  | some s =>
      simp only
      split_ifs with hpos
      · have hs := (OrdMap.find?_eq_some_iff _ _ _).mp hfind
        apply recomputeLevel_congr
        intro l _
        constructor
        · rintro ⟨session, ⟨hsuppressed, hpaused, other, hmem⟩, hlevel⟩
          rcases (OrdMap.mem_insert _ _ _ _).mp hmem with hnew | ⟨hold, -⟩
          · cases hnew
            exact ⟨s, ⟨hsuppressed, hpaused, id, hs⟩, hlevel⟩
          · exact ⟨session, ⟨hsuppressed, hpaused, other, hold⟩, hlevel⟩
        · rintro ⟨session, ⟨hsuppressed, hpaused, other, hmem⟩, hlevel⟩
          by_cases heq : other = id
          · subst heq
            obtain rfl := a.mSessions.mem_entries_unique hmem hs
            exact ⟨{ session with targetNs := targetNs }, ⟨hsuppressed, hpaused, other,
              (OrdMap.mem_insert _ _ _ _).mpr (.inl rfl)⟩, hlevel⟩
          · exact ⟨session, ⟨hsuppressed, hpaused, other,
              (OrdMap.mem_insert _ _ _ _).mpr (.inr ⟨hmem, heq⟩)⟩, hlevel⟩
      · rfl

/-- An operation that does not recompute leaves the recomputed level as it was. -/
theorem recomputeLevel_update {op : AdpfOp} {a : Adpf} (hnone : (op.update cfg a).2 = none)
    (hfresh : ∀ targetNs now, op = .openSession targetNs now →
      a.mSessions.find? a.mNextId = none) :
    Adpf.recomputeLevel (op.update cfg a).1 = Adpf.recomputeLevel a := by
  cases op with
  | openSession targetNs now => exact recomputeLevel_openSession targetNs now (hfresh _ _ rfl)
  | setTarget id targetNs => exact recomputeLevel_setTarget a id targetNs
  | report id actualNs now =>
      simp only [AdpfOp.update, Adpf.report] at hnone ⊢
      split at hnone
      · rfl
      · cases hnone
  | setPaused id paused now =>
      simp only [AdpfOp.update, Adpf.setPaused] at hnone ⊢
      split at hnone
      · rfl
      · cases hnone
  | close id now =>
      simp only [AdpfOp.update, Adpf.close] at hnone ⊢
      split at hnone
      · rw [if_pos ‹_›]
      · cases hnone
  | setSuppressed suppressed now => cases hnone

theorem AdpfOp.update_mLevelHits (op : AdpfOp) (a : Adpf) :
    (op.update cfg a).1.mLevelHits = a.mLevelHits := by
  obtain ⟨suppressed, now, rfl⟩ | ⟨sessions, next, hupdate⟩ := op.update_sessions cfg a
  · rfl
  · rw [hupdate]

theorem adpfAgrees_op {op : AdpfOp} {s : Adpf × (Engine × σ)} (h : AdpfAgrees cfg s)
    (hfresh : ∀ targetNs now, op = .openSession targetNs now →
      s.1.mSessions.find? s.1.mNextId = none) :
    AdpfAgrees cfg (op.exec cfg fs s) := by
  have hbounded := levelsBounded_update cfg op s.1 h.bounded
  have hhits : (op.update cfg s.1).1.mLevelHits.length = cfg.levels.length + 1 := by
    rw [AdpfOp.update_mLevelHits]
    exact h.hits
  have hidle : (op.update cfg s.1).1.mApplied = 0 → s.2.1.mRequests.find? "adpf" = none := by
    rw [AdpfOp.update_mApplied]
    intro hzero
    by_contra hsome
    obtain ⟨r, hr⟩ := Option.ne_none_iff_exists'.mp hsome
    exact absurd hzero (h.held r hr).1.ne'
  rw [AdpfOp.exec_eq]
  cases hnow : (op.update cfg s.1).2 with
  | none =>
      refine ⟨hbounded, hhits, ?_, ?_⟩
      · rw [AdpfOp.update_mApplied, h.applied]
        exact (recomputeLevel_update cfg hnow hfresh).symm
      · simp only [AdpfOp.update_mApplied]
        exact h.held
  | some now =>
      have hnonneg := recomputeLevel_nonneg (op.update cfg s.1).1
      have hle := recomputeLevel_le cfg hbounded
      simp only
      refine ⟨?_, ?_, ?_, ?_⟩
      · rw [recomputeLocked_fst]
        exact hbounded
      · rw [recomputeLocked_fst]
        simp only [Adpf.applied]
        split_ifs
        · rw [List.length_modify, hhits]
        · exact hhits
      · rw [recomputeLocked_fst]
        rfl
      · intro r hr
        rw [recomputeLocked_find? fs cfg now _ s.2 hidle] at hr
        split_ifs at hr with hnothing
        cases hr
        have hne : Adpf.recomputeLevel (op.update cfg s.1).1 ≠ 0 := fun h => hnothing (.inl h)
        rw [recomputeLocked_fst]
        simp only [Adpf.applied]
        refine ⟨by omega, ?_⟩
        rw [List.getD_eq_getElem?_getD, List.getElem?_eq_getElem (by omega)]
        rfl

end Step

/-- In every run whose sessions are opened under fresh numbers, the three copies
agree after every operation. -/
theorem adpf_state_law {σ : Type} (fs : Fs σ) (cfg : AdpfConfig) (nodes : List NodeConfig)
    (s : Adpf × (Engine × σ)) (hreach : Reachable (AdpfStart cfg nodes) (FreshStep fs cfg) s) :
    AdpfStateLaw cfg s := by
  apply AdpfAgrees.law
  refine hreach.invariant (P := AdpfAgrees cfg) ?_ ?_
  · rintro s ⟨hadpf, hengine⟩
    have hfind : s.2.1.mRequests.find? "adpf" = none := by
      rw [hengine]
      rfl
    refine ⟨?_, ?_, ?_, ?_⟩
    · rw [hadpf]
      intro e he
      cases he
    · rw [hadpf, Adpf.create, List.length_replicate]
    · rw [hadpf]
      rfl
    · intro r hr
      rw [hfind] at hr
      cases hr
  · rintro s label t h ⟨hstep, hfresh⟩
    cases label with
    | op op =>
        rw [hstep]
        refine adpfAgrees_op fs cfg h ?_
        rintro targetNs now rfl
        exact hfresh
    | engine op =>
        obtain ⟨rfl, hop⟩ := hstep
        exact ⟨h.bounded, h.hits, h.applied,
          fun r hr => h.held r (EngineOp.exec_find?_some fs op s.2 hop hr)⟩
    | env =>
        obtain ⟨adpf, engine, w⟩ := s
        obtain ⟨adpf', engine', w'⟩ := t
        obtain ⟨rfl, rfl⟩ := hstep
        exact ⟨h.bounded, h.hits, h.applied, h.held⟩

/-- A session at level 2, as the first one is after its report. -/
def heavySession : Session := { targetNs := 10, level := 2, lastReport := 0 }

/-- The first session is the only one, and its level is applied. -/
structure OnlyFirst (a : Adpf) : Prop where
  sessions : ∀ e, e ∈ a.mSessions.entries ↔ e = (1, heavySession)
  running : a.mSuppressed = false
  applied : a.mApplied = 2

private theorem recomputeLevel_onlyFirst {a : Adpf}
    (hsessions : ∀ e, e ∈ a.mSessions.entries ↔ e = (1, heavySession))
    (hrunning : a.mSuppressed = false) : Adpf.recomputeLevel a = 2 := by
  refine (recomputeLevel_isGreatest a).unique ⟨Or.inr ⟨heavySession, ?_, rfl⟩, ?_⟩
  · exact ⟨hrunning, rfl, 1, (hsessions _).mpr rfl⟩
  · rintro l (hzero | ⟨session, ⟨-, -, id, hmem⟩, hlevel⟩)
    · rw [Set.mem_singleton_iff.mp hzero]
      decide
    · cases (hsessions _).mp hmem
      rw [← hlevel]
      decide

/-- Another session comes and goes. -/
private theorem open_close {s : Adpf × (Engine × Unit)} (h : OnlyFirst s.1)
    (hnumber : s.1.mNextId ≠ 1) :
    ∃ t, t = (AdpfOp.close s.1.mNextId 0).exec twoLevels steadyFs
        ((AdpfOp.openSession 10 0).exec twoLevels steadyFs s) ∧
      OnlyFirst t.1 ∧ t.1.mNextId = wrapInt 32 (s.1.mNextId + 1) := by
  have hopened : (Adpf.openSession 10 0 s.1).mSessions.find? s.1.mNextId ≠ none := by
    simp only [Adpf.openSession, OrdMap.find?_insert_self]
    exact nofun
  have hupdate : (AdpfOp.close s.1.mNextId 0).update twoLevels (Adpf.openSession 10 0 s.1) =
      ({ Adpf.openSession 10 0 s.1 with
        mSessions := (Adpf.openSession 10 0 s.1).mSessions.erase s.1.mNextId }, some 0) :=
    if_neg hopened
  have hsessions : ∀ e, e ∈ ((Adpf.openSession 10 0 s.1).mSessions.erase s.1.mNextId).entries ↔
      e = (1, heavySession) := by
    intro e
    rw [OrdMap.mem_erase, Adpf.openSession, OrdMap.mem_insert, h.sessions]
    constructor
    · rintro ⟨rfl | ⟨hfirst, -⟩, hne⟩
      · exact absurd rfl hne
      · exact hfirst
    · rintro rfl
      exact ⟨.inr ⟨rfl, hnumber.symm⟩, hnumber.symm⟩
  refine ⟨_, rfl, ?_⟩
  rw [AdpfOp.exec_eq]
  simp only [AdpfOp.exec, AdpfOp.update] at hupdate ⊢
  simp only [hupdate, recomputeLocked_fst]
  exact ⟨⟨hsessions, h.running, recomputeLevel_onlyFirst hsessions h.running⟩, rfl⟩

private theorem wrapInt_next (n : Nat) :
    wrapInt 32 (wrapInt 32 (2 + n) + 1) = wrapInt 32 (2 + (n + 1 : Nat)) := by
  unfold wrapInt
  rw [Int.bmod_add_bmod]
  congr 1

private theorem wrapInt_ne_one {n : Nat} (hn : n + 1 < 2 ^ 32) : wrapInt 32 (2 + n) ≠ 1 := by
  unfold wrapInt Int.bmod
  norm_num
  split_ifs <;> omega

/-- The first session stays at level 2 while `n` others come and go. -/
private theorem opened_and_closed (n : Nat) (hn : n < 2 ^ 32) :
    ∃ s, Reachable (AdpfStart twoLevels []) (AdpfStep steadyFs twoLevels) s ∧ OnlyFirst s.1 ∧
      s.1.mNextId = wrapInt 32 (2 + n) := by
  induction n with
  | zero =>
      have hentries : (adpfRun [.openSession 10 0, .report 1 [20] 0]).1.mSessions.entries =
          [(1, heavySession)] := by decide
      refine ⟨_, adpfRun_reachable [.openSession 10 0, .report 1 [20] 0], ⟨?_, rfl, by decide⟩,
        by decide⟩
      intro e
      rw [hentries, List.mem_singleton]
  | succ n ih =>
      obtain ⟨s, hreach, hfirst, hnumber⟩ := ih (by omega)
      obtain ⟨t, ht, hleft, hnext⟩ := open_close hfirst (hnumber ▸ wrapInt_ne_one hn)
      have hopen := hreach.next (.op (.openSession 10 0)) rfl
      refine ⟨t, hopen.next (.op (.close s.1.mNextId 0)) ht, hleft, ?_⟩
      rw [hnext, hnumber]
      exact wrapInt_next n

/-- After 2^32 sessions the number of the first one is taken again: the new
session takes its place, and the level of a session that is gone stays applied. -/
theorem adpf_state_law_reused_number :
    ∃ s, Reachable (AdpfStart twoLevels []) (AdpfStep steadyFs twoLevels) s ∧
      ¬ AdpfStateLaw twoLevels s := by
  obtain ⟨s, hreach, hfirst, hnumber⟩ := opened_and_closed (2 ^ 32 - 1) (by norm_num)
  have hone : s.1.mNextId = 1 := by
    rw [hnumber]
    decide
  refine ⟨_, hreach.next (.op (.openSession 10 0)) rfl, fun hlaw => ?_⟩
  have happlied : ((AdpfOp.openSession 10 0).exec twoLevels steadyFs s).1.mApplied = 2 :=
    hfirst.applied
  rcases (hlaw.applied hfirst.running).1 with hzero | ⟨e, hmem, -, hlevel⟩
  · rw [happlied] at hzero
    exact absurd hzero (by decide)
  · rw [happlied] at hlevel
    rcases (OrdMap.mem_insert _ _ _ _).mp hmem with rfl | ⟨hold, hne⟩
    · exact absurd (show (0 : Int) = 2 from hlevel) (by decide)
    · rw [(hfirst.sessions e).mp hold] at hne
      exact hne hone.symm

/-- A session that is opened under a fresh number and reports. -/
theorem adpf_state_law_reporting :
    ∃ s, Reachable (AdpfStart twoLevels []) (FreshStep steadyFs twoLevels) s ∧
      s.1.mApplied = 2 ∧ AdpfStateLaw twoLevels s := by
  have hstart : Reachable (AdpfStart twoLevels []) (FreshStep steadyFs twoLevels) (adpfRun []) :=
    .init ⟨rfl, rfl⟩
  have hopen := hstart.next (.op (.openSession 10 0)) ⟨rfl, rfl⟩
  have hreport := hopen.next (.op (.report 1 [20] 0)) ⟨rfl, trivial⟩
  exact ⟨_, hreport, by decide, adpf_state_law steadyFs twoLevels [] _ hreport⟩

end MeizuM5c.Power
