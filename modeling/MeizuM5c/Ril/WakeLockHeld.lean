import MeizuM5c.Ril.WakeLockRuns

/-!
When the wake lock is held, and what gives it back.
-/

namespace MeizuM5c.Ril.Events

open Lib

section Sample

/-- A timed callback of the vendor, and a message that the framework never acknowledges. The
block of its timeout is freed and given again. -/
def wakeActions : List WakeAction :=
  [.callbacks (.openPipe 3), .callbacks (.addWakeup 3),
    .callbacks (.request 1 (.vendor 7) 5 (some ⟨9, 0⟩) (-1) ⟨1, 0⟩),
    .beginSend (some 0) ⟨1, 0⟩, .callbacks (.loop .copyFds), .callbacks (.loop .loadTimer),
    .callbacks (.loop (.calcTimeout ⟨1, 0⟩)), .callbacks (.loop (.select ∅)),
    .callbacks (.loop (.processTimeouts ⟨2, 0⟩)), .callbacks (.loop .processReadReadies),
    .callbacks (.loop .firePending), .callbacks (.loop .fireNext), .userTimerCallback 0,
    .callbacks (.run 0), .finish 0 0, .callbacks (.release 0), .grab (some 0) ⟨3, 0⟩]

def wakeRun : List WakeAction → WakeLock → WakeLock
  | [], w => w
  | a :: actions, w => wakeRun actions ((w.perform 3 a).getD w)

/-- The state after some of the actions. -/
def wakeSample (k : Nat) : WakeLock :=
  wakeRun (wakeActions.take k)
    { callbacks := { reactor := { events := rilEventInit State.static, clock := ⟨0, 0⟩ } },
      version := 13 }

theorem wakeSample_step {k : Nat} {a : WakeAction}
    (h : Reachable WakeInitial FreshStep (wakeSample k)) (hallowed : (wakeSample k).Allowed a)
    (hrun : (wakeSample k).perform 3 a = some (wakeSample (k + 1)))
    (hfresh : ∀ n, (wakeSample k).allocated a = some n →
      (wakeSample k).sLastWakeTimeoutInfo ≠ some n) :
    Reachable WakeInitial FreshStep (wakeSample (k + 1)) :=
  h.next a ⟨⟨hallowed, 3, hrun⟩, hfresh⟩

/-- A step that allocates nothing. -/
theorem wakeSample_quiet {k : Nat} {a : WakeAction}
    (h : Reachable WakeInitial FreshStep (wakeSample k)) (hallowed : (wakeSample k).Allowed a)
    (hrun : (wakeSample k).perform 3 a = some (wakeSample (k + 1)))
    (hnone : (wakeSample k).allocated a = none) :
    Reachable WakeInitial FreshStep (wakeSample (k + 1)) := by
  apply wakeSample_step h hallowed hrun
  intro n hn
  rw [hnone] at hn
  cases hn

theorem wakeSample_gives : (wakeSample 3).Allowed (.beginSend (some 0) ⟨1, 0⟩) := by
  intro n hn
  cases hn
  exact ⟨rfl, by decide, by decide, by decide⟩

theorem wakeSample_three : Reachable WakeInitial FreshStep (wakeSample 3) := by
  have h₀ : Reachable WakeInitial FreshStep (wakeSample 0) :=
    .init ⟨_, 13, ⟨_, ⟨⟨0, 0⟩, by decide, rfl⟩, rfl⟩, rfl⟩
  have h₁ : Reachable WakeInitial FreshStep (wakeSample 1) :=
    wakeSample_quiet h₀ (a := .callbacks (.openPipe 3)) ⟨rfl, rfl, by decide⟩ rfl rfl
  have h₂ : Reachable WakeInitial FreshStep (wakeSample 2) :=
    wakeSample_quiet h₁ (a := .callbacks (.addWakeup 3)) ⟨rfl, rfl, rfl⟩ rfl rfl
  apply wakeSample_step h₂ (a := .callbacks (.request 1 (.vendor 7) 5 (some ⟨9, 0⟩) (-1) ⟨1, 0⟩))
  · exact ⟨rfl, rfl, by decide, by decide, by decide⟩
  · rfl
  · intro n _
    change (none : Option Nat) ≠ some n
    simp

theorem wakeSample_four : Reachable WakeInitial FreshStep (wakeSample 4) := by
  apply wakeSample_step wakeSample_three (a := .beginSend (some 0) ⟨1, 0⟩) wakeSample_gives rfl
  intro n _
  change (none : Option Nat) ≠ some n
  simp

theorem wakeSample_sixteen : Reachable WakeInitial FreshStep (wakeSample 16) := by
  have h₅ : Reachable WakeInitial FreshStep (wakeSample 5) :=
    wakeSample_quiet wakeSample_four (a := .callbacks (.loop .copyFds)) ⟨rfl, rfl, rfl, rfl, rfl⟩
      rfl rfl
  have h₆ : Reachable WakeInitial FreshStep (wakeSample 6) :=
    wakeSample_quiet h₅ (a := .callbacks (.loop .loadTimer)) ⟨rfl, rfl, rfl, rfl, _, rfl⟩ rfl rfl
  have h₇ : Reachable WakeInitial FreshStep (wakeSample 7) :=
    wakeSample_quiet h₆ (a := .callbacks (.loop (.calcTimeout ⟨1, 0⟩)))
      ⟨rfl, rfl, rfl, rfl, ⟨_, _, rfl⟩, by decide, by decide⟩ rfl rfl
  have h₈ : Reachable WakeInitial FreshStep (wakeSample 8) :=
    wakeSample_quiet h₇ (a := .callbacks (.loop (.select ∅)))
      ⟨rfl, rfl, rfl, rfl, _, _, _, rfl, by decide⟩ rfl rfl
  have h₉ : Reachable WakeInitial FreshStep (wakeSample 9) :=
    wakeSample_quiet h₈ (a := .callbacks (.loop (.processTimeouts ⟨2, 0⟩)))
      ⟨rfl, rfl, rfl, rfl, ⟨_, _, rfl⟩, by decide, by decide⟩ rfl rfl
  have h₁₀ : Reachable WakeInitial FreshStep (wakeSample 10) :=
    wakeSample_quiet h₉ (a := .callbacks (.loop .processReadReadies))
      ⟨rfl, rfl, rfl, rfl, _, _, rfl⟩ rfl rfl
  have h₁₁ : Reachable WakeInitial FreshStep (wakeSample 11) :=
    wakeSample_quiet h₁₀ (a := .callbacks (.loop .firePending)) ⟨rfl, rfl, rfl, rfl, rfl⟩ rfl rfl
  have h₁₂ : Reachable WakeInitial FreshStep (wakeSample 12) :=
    wakeSample_quiet h₁₁ (a := .callbacks (.loop .fireNext)) ⟨rfl, rfl, rfl, rfl, _, rfl⟩ rfl rfl
  have h₁₃ : Reachable WakeInitial FreshStep (wakeSample 13) :=
    wakeSample_quiet h₁₂ (a := .userTimerCallback 0) rfl rfl rfl
  have h₁₄ : Reachable WakeInitial FreshStep (wakeSample 14) :=
    wakeSample_quiet h₁₃ (a := .callbacks (.run 0))
      ⟨rfl, show 0 ∈ (wakeSample 13).callbacks.queue by decide⟩ rfl rfl
  have h₁₅ : Reachable WakeInitial FreshStep (wakeSample 15) :=
    wakeSample_quiet h₁₄ (a := .finish 0 0) (show _ ∈ _ by decide) rfl rfl
  exact wakeSample_quiet h₁₅ (a := .callbacks (.release 0))
    ⟨rfl, show 0 ∈ (wakeSample 15).callbacks.done by decide⟩ rfl rfl

theorem wakeSample_reused : WakeStep (wakeSample 16) (.grab (some 0) ⟨3, 0⟩) (wakeSample 17) := by
  refine ⟨⟨by decide, ?_⟩, 3, rfl⟩
  intro n hn
  cases hn
  exact ⟨rfl, by decide, by decide, by decide⟩

/-- The next message, when its timeout is given another block. -/
def wakeOther : WakeLock :=
  ((wakeSample 16).perform 3 (.grab (some 5) ⟨3, 0⟩)).getD (wakeSample 16)

/-- The block of the last timeout has been freed, and is written to. -/
theorem wakeOther_step : FreshStep (wakeSample 16) (.grab (some 5) ⟨3, 0⟩) wakeOther := by
  refine ⟨⟨⟨by decide, ?_⟩, 3, rfl⟩, ?_⟩
  · intro n hn
    cases hn
    exact ⟨rfl, by decide, by decide, by decide⟩
  · intro n hn
    cases hn
    decide

theorem wakeOther_fresh : Reachable WakeInitial FreshStep wakeOther :=
  wakeSample_sixteen.next _ wakeOther_step

end Sample

section Results

variable {w w' : WakeLock} {a : WakeAction} {n : Nat}

/-- A step that asks for a timeout. -/
theorem renewed_of_step (hstep : WakeStep w a w') (hblock : w.allocated a = some n)
    (hgrab : ∀ b, a ≠ .callbacks b) :
    w'.sLastWakeTimeoutInfo = some n ∧ (w.version ≥ 13 → w'.held = true) ∧
      Renewed w.callbacks w.sLastWakeTimeoutInfo n w'.callbacks := by
  obtain ⟨hallowed, fuel, hrun⟩ := hstep
  cases a with
  | callbacks b => exact absurd rfl (hgrab b)
  | grab pInfo now =>
      obtain ⟨hv, hgives⟩ := hallowed
      change pInfo = some n at hblock
      subst hblock
      obtain ⟨c', rfl, hrenewed⟩ := grab_eq hv hgives hrun
      exact ⟨rfl, fun _ => rfl, hrenewed⟩
  | beginSend pInfo now =>
      unfold WakeLock.perform at hrun
      simp only [Option.bind_eq_bind, Option.bind_eq_some_iff, Option.some.injEq] at hrun
      obtain ⟨w₁, hgrab', rfl⟩ := hrun
      unfold WakeLock.allocated at hblock
      simp only [Option.ite_none_right_eq_some] at hblock
      obtain ⟨hv, rfl⟩ := hblock
      obtain ⟨c', rfl, hrenewed⟩ := grab_eq hv hallowed hgrab'
      exact ⟨rfl, fun _ => rfl, hrenewed⟩
  | endSend pInfo now =>
      unfold WakeLock.perform at hrun
      simp only [Option.bind_eq_bind, Option.bind_eq_some_iff, Option.some.injEq] at hrun
      obtain ⟨w₁, hschedule, rfl⟩ := hrun
      unfold WakeLock.allocated at hblock
      simp only [Option.ite_none_right_eq_some] at hblock
      obtain ⟨hv, rfl⟩ := hblock
      obtain ⟨c', rfl, hrenewed⟩ := schedule_eq hv hallowed.2 hschedule
      exact ⟨rfl, fun hle => absurd hv (not_lt.mpr hle), hrenewed⟩
  | userTimerCallback n => cases hblock
  | finish n param => cases hblock
  | release => cases hblock

/-- No timeout is left that would give the lock back. -/
structure Stuck (w : WakeLock) : Prop where
  held : w.held = true
  awaited : ∀ m info, w.callbacks.infos m = some info → info.pCallback = .wakeTimeout →
    info.userParam = 0 → m ∈ w.callbacks.done
  running : ∀ m info, (m, 0) ∈ w.callbacks.running → w.callbacks.infos m = some info →
    info.pCallback ≠ .wakeTimeout

theorem Stuck.beside (h : Stuck w) (hreach : Reachable CallbackInitial CallbackStep w.callbacks)
    {b : CallbackAction} {fuel : Nat} {c' : Callbacks} (hbeside : b.beside = true)
    (hallowed : Allowed w.callbacks b) (hrun : perform fuel w.callbacks b = some c') :
    Stuck { w with callbacks := c' } := by
  obtain ⟨-, -, hqueue⟩ := callbacks_live hreach
  refine ⟨h.held, ?_, ?_⟩
  · intro m info hinfo hcallback hzero
    rcases beside_blocks hbeside hrun with ⟨hinfos, -, hends⟩ |
      ⟨n, f, p, tv, cid, now, -, hinfos, -, hends⟩ | ⟨n, info', -, -, hinfos, -, hends⟩ |
      ⟨n, -, hinfos, -, hends⟩
    · simp only [hinfos] at hinfo
      simp only [hends]
      exact h.awaited m info hinfo hcallback hzero
    · by_cases hm : m = n
      · simp only [hinfos, hm, Function.update_self, Option.some.injEq] at hinfo
        rw [← hinfo] at hcallback
        cases hcallback
      · simp only [hinfos, Function.update_of_ne hm] at hinfo
        simp only [hends]
        exact h.awaited m info hinfo hcallback hzero
    · simp only [hinfos] at hinfo
      simp only [hends]
      exact h.awaited m info hinfo hcallback hzero
    · by_cases hm : m = n
      · simp only [hinfos, hm, Function.update_self] at hinfo
        cases hinfo
      · simp only [hinfos, Function.update_of_ne hm] at hinfo
        simp only [hends]
        exact (List.mem_erase_of_ne hm).mpr (h.awaited m info hinfo hcallback hzero)
  · intro m info hm hinfo hcallback
    rcases beside_blocks hbeside hrun with ⟨hinfos, hrunning, -⟩ |
      ⟨n, f, p, tv, cid, now, -, hinfos, hrunning, -⟩ |
      ⟨n, info', rfl, hown, hinfos, hrunning, -⟩ | ⟨n, -, hinfos, hrunning, -⟩
    · simp only [hrunning] at hm
      simp only [hinfos] at hinfo
      exact h.running m info hm hinfo hcallback
    · simp only [hrunning] at hm
      by_cases hne : m = n
      · simp only [hinfos, hne, Function.update_self, Option.some.injEq] at hinfo
        rw [← hinfo] at hcallback
        cases hcallback
      · simp only [hinfos, Function.update_of_ne hne] at hinfo
        exact h.running m info hm hinfo hcallback
    · simp only [hrunning] at hm
      simp only [hinfos] at hinfo
      rcases List.mem_append.mp hm with hm | hm
      · exact h.running m info hm hinfo hcallback
      · -- what librilmtk has still to call has been cancelled
        obtain ⟨rfl, hzero⟩ := Prod.mk.inj (List.mem_singleton.mp hm)
        rw [hown] at hinfo
        cases hinfo
        exact hqueue m hallowed (h.awaited m info hown hcallback hzero.symm)
    · simp only [hrunning] at hm
      by_cases hne : m = n
      · simp only [hinfos, hne, Function.update_self] at hinfo
        cases hinfo
      · simp only [hinfos, Function.update_of_ne hne] at hinfo
        exact h.running m info hm hinfo hcallback

/-- Only the framework or another message changes that. -/
theorem Stuck.step (h : Stuck w) (hreach : Reachable CallbackInitial CallbackStep w.callbacks)
    (hstep : SilentStep w a w') : Stuck w' := by
  obtain ⟨⟨hallowed, fuel, hrun⟩, hsilent⟩ := hstep
  cases a with
  | callbacks b =>
      unfold WakeLock.perform at hrun
      simp only [Option.bind_eq_bind, Option.bind_eq_some_iff, Option.some.injEq] at hrun
      obtain ⟨c', hrun, rfl⟩ := hrun
      exact h.beside hreach hallowed.1 hallowed.2 hrun
  | userTimerCallback n =>
      rw [userTimerCallback_eq hrun]
      exact ⟨h.held, h.awaited, h.running⟩
  | finish n param =>
      obtain ⟨info, hinfo, ⟨hcallback, rfl, -⟩ | ⟨-, rfl⟩⟩ := finish_eq hrun
      · exact absurd hcallback (h.running n info hallowed hinfo)
      · refine ⟨h.held, ?_, ?_⟩
        · intro m info hinfo hcallback hzero
          exact List.mem_append_left _ (h.awaited m info hinfo hcallback hzero)
        · intro m info hm hinfo
          exact h.running m info (List.mem_of_mem_erase hm) hinfo
  | grab pInfo now => cases hsilent
  | beginSend pInfo now => cases hsilent
  | endSend pInfo now => cases hsilent
  | release => cases hsilent

theorem Stuck.held_for_ever (h : Stuck w) (hreach : Reachable WakeInitial WakeStep w)
    {w'' : WakeLock} (hrun : Reachable (· = w) SilentStep w'') : w''.held = true := by
  have hboth : Stuck w'' ∧ Reachable WakeInitial WakeStep w'' := by
    apply hrun.invariant (P := fun w => Stuck w ∧ Reachable WakeInitial WakeStep w)
    · rintro s rfl
      exact ⟨h, hreach⟩
    · rintro s b t ⟨hs, hreach⟩ hstep
      exact ⟨hs.step (callbacks_reachable hreach) hstep, hreach.next b hstep.1⟩
  exact hboth.1.held

end Results

end MeizuM5c.Ril.Events
