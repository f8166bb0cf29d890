import MeizuM5c.Power.EngineRun

/-!
ADPF hint sessions (`Adpf.cpp`). An operation first updates the sessions and
then, where the source calls `recomputeLocked(now)`, makes at most one call
of the engine. The two halves are separate functions here, because the engine
has its own lock and other threads may call it in between.
-/

namespace MeizuM5c.Power

open Lib

/-- `AdpfNextLevel`. The products are `int64_t` products. -/
def adpfNextLevel (level maxLevel targetNs : Int) (actualNs : List Int)
    (lowWater : Int → Int → Bool) : Int :=
  if targetNs ≤ 0 ∨ actualNs = [] then level
  else
    let anyOver := actualNs.any (fun a => decide (targetNs < a))
    let severe := actualNs.any (fun a => decide (wrapInt 64 (3 * targetNs) < wrapInt 64 (2 * a)))
    let allLow := actualNs.all (fun a => lowWater a targetNs)
    let level :=
      if severe then level + 2
      else if anyOver then level + 1
      else if allLow then level - 1
      else level
    clamp level 0 maxLevel

structure Session where
  targetNs : Int := 0
  level : Int := 0
  paused : Bool := false
  lastReport : Time
  deriving DecidableEq

structure Adpf where
  mSessions : OrdMap Int Session := OrdMap.empty
  mNextId : Int := 1
  mSuppressed : Bool := false
  mApplied : Int := 0
  mLevelHits : List UInt64

namespace Adpf

/-- The constructor. -/
def create (cfg : AdpfConfig) : Adpf where
  mLevelHits := List.replicate (cfg.levels.length + 1) 0

section Operations

variable (cfg : AdpfConfig)

def openSession (targetNs : Int) (now : Time) (a : Adpf) : Adpf :=
  { a with
    mNextId := wrapInt 32 (a.mNextId + 1)
    mSessions := a.mSessions.insert a.mNextId { targetNs := targetNs, lastReport := now } }

def setTarget (id targetNs : Int) (a : Adpf) : Adpf :=
  match a.mSessions.find? id with
  | none => a
  | some s =>
      if 0 < targetNs then
        { a with mSessions := a.mSessions.insert id { s with targetNs := targetNs } }
      else a

/-- The session after a batch of reports. A session that was quiet longer
than the floor lives starts from zero. -/
def reported (actualNs : List Int) (now : Time) (s : Session) : Session :=
  let quiet := wrapInt 64 (now - s.lastReport)
  let level := if milliseconds cfg.staleMs < quiet then 0 else s.level
  { s with
    lastReport := now
    level := adpfNextLevel level cfg.levels.length s.targetNs actualNs cfg.lowWater }

def report (id : Int) (actualNs : List Int) (now : Time) (a : Adpf) : Adpf × Option Time :=
  match a.mSessions.find? id with
  | none => (a, none)
  | some s => ({ a with mSessions := a.mSessions.insert id (reported cfg actualNs now s) }, some now)

def setPaused (id : Int) (paused : Bool) (now : Time) (a : Adpf) : Adpf × Option Time :=
  match a.mSessions.find? id with
  | none => (a, none)
  | some s =>
      let s : Session := { s with paused := paused, level := if paused then 0 else s.level }
      ({ a with mSessions := a.mSessions.insert id s }, some now)

def close (id : Int) (now : Time) (a : Adpf) : Adpf × Option Time :=
  if a.mSessions.find? id = none then (a, none)
  else ({ a with mSessions := a.mSessions.erase id }, some now)

def setSuppressed (suppressed : Bool) (now : Time) (a : Adpf) : Adpf × Option Time :=
  ({ a with mSuppressed := suppressed }, some now)

/-- The level that `recomputeLocked` computes: the highest of the sessions
that are not paused. -/
def recomputeLevel (a : Adpf) : Int :=
  if a.mSuppressed then 0
  else maxFrom (fun e : Int × Session => if e.2.paused then none else some e.2.level) 0
    a.mSessions.entries

/-- The call that `recomputeLocked` makes of the engine. -/
def engineCall (now : Time) (a : Adpf) : Option EngineOp :=
  let level := recomputeLevel a
  if level = 0 then
    if a.mApplied ≠ 0 then some (.clearRequest "adpf" now) else none
  else
    some (.setRequest "adpf" (cfg.levels.getD (level - 1).toNat OrdMap.empty)
      (Deadline.atTime (wrapInt 64 (now + milliseconds cfg.staleMs))) false now)

/-- What `recomputeLocked` records once the engine has been called. -/
def applied (a : Adpf) : Adpf :=
  let level := recomputeLevel a
  { a with
    mLevelHits := if level ≠ a.mApplied then a.mLevelHits.modify level.toNat (· + 1)
      else a.mLevelHits
    mApplied := level }

def recomputeLocked {σ : Type} (fs : Fs σ) (now : Time) (a : Adpf) (s : Engine × σ) :
    Adpf × (Engine × σ) :=
  match engineCall cfg now a with
  | none => (applied a, s)
  | some op => (applied a, op.exec fs s)

end Operations

end Adpf

inductive AdpfOp where
  | openSession (targetNs : Int) (now : Time)
  | setTarget (id targetNs : Int)
  | report (id : Int) (actualNs : List Int) (now : Time)
  | setPaused (id : Int) (paused : Bool) (now : Time)
  | close (id : Int) (now : Time)
  | setSuppressed (suppressed : Bool) (now : Time)
  deriving DecidableEq, Repr

namespace AdpfOp

variable (cfg : AdpfConfig)

/-- The first half of an operation, with the time of the recomputation that
follows it, if one does. -/
def update : AdpfOp → Adpf → Adpf × Option Time
  | .openSession targetNs now, a => (Adpf.openSession targetNs now a, none)
  | .setTarget id targetNs, a => (Adpf.setTarget id targetNs a, none)
  | .report id actualNs now, a => Adpf.report cfg id actualNs now a
  | .setPaused id paused now, a => Adpf.setPaused id paused now a
  | .close id now, a => Adpf.close id now a
  | .setSuppressed suppressed now, a => Adpf.setSuppressed suppressed now a

def exec {σ : Type} (fs : Fs σ) (op : AdpfOp) (s : Adpf × (Engine × σ)) :
    Adpf × (Engine × σ) :=
  match op.update cfg s.1 with
  | (a, none) => (a, s.2)
  | (a, some now) => Adpf.recomputeLocked cfg fs now a s.2

end AdpfOp

/-- Every session has a level that the configuration knows. -/
def LevelsBounded (cfg : AdpfConfig) (a : Adpf) : Prop :=
  ∀ e ∈ a.mSessions.entries, 0 ≤ e.2.level ∧ e.2.level ≤ cfg.levels.length

theorem adpfNextLevel_bounds (level maxLevel targetNs : Int) (actualNs : List Int)
    (lowWater : Int → Int → Bool) (hlo : 0 ≤ level) (hhi : level ≤ maxLevel) :
    0 ≤ adpfNextLevel level maxLevel targetNs actualNs lowWater ∧
      adpfNextLevel level maxLevel targetNs actualNs lowWater ≤ maxLevel := by
  unfold adpfNextLevel clamp
  split
  · exact ⟨hlo, hhi⟩
  · simp only
    split_ifs <;> omega

private theorem levelsBounded_insert {cfg : AdpfConfig} {a : Adpf} (h : LevelsBounded cfg a)
    (id : Int) (s : Session) (hs : 0 ≤ s.level ∧ s.level ≤ cfg.levels.length) :
    ∀ e ∈ (a.mSessions.insert id s).entries, 0 ≤ e.2.level ∧ e.2.level ≤ cfg.levels.length := by
  intro e he
  rw [OrdMap.mem_insert] at he
  rcases he with rfl | ⟨he, _⟩
  · exact hs
  · exact h e he

/-- Every operation keeps the levels within the configuration. -/
theorem levelsBounded_update (cfg : AdpfConfig) (op : AdpfOp) (a : Adpf)
    (h : LevelsBounded cfg a) : LevelsBounded cfg (op.update cfg a).1 := by
  cases op with
  | openSession targetNs now =>
      exact levelsBounded_insert h _ _ ⟨le_rfl, by simp⟩
  | setTarget id targetNs =>
      simp only [AdpfOp.update, Adpf.setTarget]
      split
      · exact h
      · rename_i s hs
        split
        · exact levelsBounded_insert h _ _ (h _ ((OrdMap.find?_eq_some_iff _ _ _).mp hs))
        · exact h
  | report id actualNs now =>
      simp only [AdpfOp.update, Adpf.report]
      split
      · exact h
      · rename_i s hs
        have hold := h _ ((OrdMap.find?_eq_some_iff _ _ _).mp hs)
        refine levelsBounded_insert h _ _ ?_
        refine adpfNextLevel_bounds _ _ _ _ _ ?_ ?_
        · split_ifs
          · exact le_rfl
          · exact hold.1
        · split_ifs
          · simp
          · exact hold.2
  | setPaused id paused now =>
      simp only [AdpfOp.update, Adpf.setPaused]
      split
      · exact h
      · rename_i s hs
        have hold := h _ ((OrdMap.find?_eq_some_iff _ _ _).mp hs)
        refine levelsBounded_insert h _ _ ?_
        cases paused with
        | true => exact ⟨le_rfl, by simp⟩
        | false => exact hold
  | close id now =>
      simp only [AdpfOp.update, Adpf.close]
      split
      · exact h
      · intro e he
        exact h e ((OrdMap.mem_erase _ _ _).mp he).1
  | setSuppressed suppressed now => exact h

end MeizuM5c.Power
