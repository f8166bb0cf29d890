import Mathlib.Data.List.Forall2
import MeizuM5c.Power.Adpf

/-!
`AdpfNextLevel` against exact arithmetic. The durations come from a client
and are doubled and tripled in 64-bit registers before they are compared.
-/

namespace MeizuM5c.Power

open Lib

section Exact

variable (level targetNs : Int) (actualNs : List Int) (lowWater : Int → Int → Bool)

/-- By how much a batch of reports moves the level, over the integers. -/
def exactStep : Int :=
  if ∃ a ∈ actualNs, 3 * targetNs < 2 * a then 2
  else if ∃ a ∈ actualNs, targetNs < a then 1
  else if ∀ a ∈ actualNs, lowWater a targetNs = true then -1
  else 0

/-- The same with the comparison that the registers make. -/
def registerStep : Int :=
  if ∃ a ∈ actualNs, wrapInt 64 (3 * targetNs) < wrapInt 64 (2 * a) then 2
  else if ∃ a ∈ actualNs, targetNs < a then 1
  else if ∀ a ∈ actualNs, lowWater a targetNs = true then -1
  else 0

/-- What is computed on the way, with the width of its register. -/
def intermediates : List (Nat × Int) :=
  (64, 3 * targetNs) :: (32, level + registerStep targetNs actualNs lowWater) ::
    actualNs.map (fun a => (64, 2 * a))

/-- The result is the exact one, and nothing on the way overflows. -/
structure ExactLaw (maxLevel : Int) : Prop where
  result : adpfNextLevel level maxLevel targetNs actualNs lowWater =
    clamp (level + exactStep targetNs actualNs lowWater) 0 maxLevel
  fits : ∀ x ∈ intermediates level targetNs actualNs lowWater, wrapInt x.1 x.2 = x.2

/-- The durations leave room for the factors, and the level for the step. -/
structure DurationsFit : Prop where
  target : targetNs ≤ 3074457345618258602
  actual : ∀ a ∈ actualNs, -4611686018427387904 ≤ a ∧ a ≤ 4611686018427387903
  severe : (∃ a ∈ actualNs, 3 * targetNs < 2 * a) → level ≤ 2147483645
  late : (∃ a ∈ actualNs, targetNs < a) → level ≤ 2147483646

end Exact

section Steps

variable {level targetNs : Int} {actualNs : List Int} {lowWater : Int → Int → Bool}

theorem adpfNextLevel_eq (maxLevel : Int) (htarget : 0 < targetNs) (hactual : actualNs ≠ []) :
    adpfNextLevel level maxLevel targetNs actualNs lowWater =
      clamp (level + registerStep targetNs actualNs lowWater) 0 maxLevel := by
  unfold adpfNextLevel registerStep
  rw [if_neg (by simp [hactual, htarget])]
  simp only [List.any_eq_true, List.all_eq_true, decide_eq_true_eq]
  split_ifs
  · rfl
  · rfl
  · rfl
  · rw [Int.add_zero]

/-- The sum leaves an `int` exactly when a step up finds no room. -/
theorem wrapInt_exactStep_iff (actualNs : List Int) (lowWater : Int → Int → Bool)
    (hlo : 0 ≤ level) (hhi : level ≤ 2147483647) (htarget : 0 < targetNs) :
    wrapInt 32 (level + exactStep targetNs actualNs lowWater) =
        level + exactStep targetNs actualNs lowWater ↔
      ((∃ a ∈ actualNs, 3 * targetNs < 2 * a) → level ≤ 2147483645) ∧
        ((∃ a ∈ actualNs, targetNs < a) → level ≤ 2147483646) := by
  have hover (hsevere : ∃ a ∈ actualNs, 3 * targetNs < 2 * a) : ∃ a ∈ actualNs, targetNs < a := by
    obtain ⟨a, ha, hlt⟩ := hsevere
    exact ⟨a, ha, by omega⟩
  rw [wrapInt_32_eq_iff]
  unfold exactStep
  split_ifs with hsevere hlate hlow
  · simp only [hsevere, hover hsevere, forall_const]
    omega
  · simp only [hsevere, hlate, forall_const, false_implies, true_and]
    omega
  · simp only [hsevere, hlate, false_implies, and_self, iff_true]
    omega
  · simp only [hsevere, hlate, false_implies, and_self, iff_true]
    omega

theorem registerStep_eq (lowWater : Int → Int → Bool) (htarget : wrapInt 64 (3 * targetNs) = 3 * targetNs)
    (hactual : ∀ a ∈ actualNs, wrapInt 64 (2 * a) = 2 * a) :
    registerStep targetNs actualNs lowWater = exactStep targetNs actualNs lowWater := by
  have hsevere : (∃ a ∈ actualNs, wrapInt 64 (3 * targetNs) < wrapInt 64 (2 * a)) ↔
      ∃ a ∈ actualNs, 3 * targetNs < 2 * a := by
    rw [htarget]
    constructor
    · rintro ⟨a, ha, hlt⟩
      exact ⟨a, ha, by rwa [hactual a ha] at hlt⟩
    · rintro ⟨a, ha, hlt⟩
      exact ⟨a, ha, by rwa [hactual a ha]⟩
  simp only [registerStep, exactStep, hsevere]

/-- The law holds of a batch exactly when its durations fit. -/
theorem exactLaw_iff (maxLevel : Int) (lowWater : Int → Int → Bool) (hlo : 0 ≤ level)
    (hhi : level ≤ 2147483647) (htarget : 0 < targetNs) (hactual : actualNs ≠ []) :
    ExactLaw level targetNs actualNs lowWater maxLevel ↔ DurationsFit level targetNs actualNs := by
  have hroom := wrapInt_exactStep_iff actualNs lowWater hlo hhi htarget
  constructor
  · intro hlaw
    have htriple := hlaw.fits (64, 3 * targetNs) List.mem_cons_self
    have hdouble (a : Int) (ha : a ∈ actualNs) : wrapInt 64 (2 * a) = 2 * a :=
      hlaw.fits (64, 2 * a) (List.mem_cons_of_mem _ (List.mem_cons_of_mem _
        (List.mem_map_of_mem ha)))
    have hsum := hlaw.fits _ (List.mem_cons_of_mem _ List.mem_cons_self)
    simp only [registerStep_eq lowWater htriple hdouble] at hsum
    constructor
    · have hrange := (wrapInt_64_eq_iff _).mp htriple
      omega
    · intro a ha
      have hrange := (wrapInt_64_eq_iff _).mp (hdouble a ha)
      omega
    · exact (hroom.mp hsum).1
    · exact (hroom.mp hsum).2
  · intro hfit
    have htriple : wrapInt 64 (3 * targetNs) = 3 * targetNs := by
      have hlimit := hfit.target
      rw [wrapInt_64_eq_iff]
      omega
    have hdouble : ∀ a ∈ actualNs, wrapInt 64 (2 * a) = 2 * a := by
      intro a ha
      have hlimit := hfit.actual a ha
      rw [wrapInt_64_eq_iff]
      omega
    have hsame := registerStep_eq lowWater htriple hdouble
    constructor
    · rw [adpfNextLevel_eq maxLevel htarget hactual, hsame]
    · rw [intermediates, hsame, List.forall_mem_cons, List.forall_mem_cons]
      refine ⟨htriple, hroom.mpr ⟨hfit.severe, hfit.late⟩, fun x hx => ?_⟩
      obtain ⟨a, ha, rfl⟩ := List.mem_map.mp hx
      exact hdouble a ha

theorem clamp_le_clamp {v w lo hi : Int} (hrange : lo ≤ hi) (hle : v ≤ w) :
    clamp v lo hi ≤ clamp w lo hi := by
  unfold clamp
  split_ifs <;> omega

/-- A later frame is over whatever an earlier one was over. -/
theorem exists_lt_of_raised {raised : List Int} (bound : Int)
    (hraised : List.Forall₂ (· ≤ ·) actualNs raised) (hover : ∃ a ∈ actualNs, bound < a) :
    ∃ b ∈ raised, bound < b := by
  induction hraised with
  | nil => exact hover
  | cons hle _ ih =>
      obtain ⟨x, hx, hlt⟩ := hover
      rcases List.mem_cons.mp hx with rfl | hx
      · exact ⟨_, List.mem_cons_self, lt_of_lt_of_le hlt hle⟩
      · obtain ⟨y, hy, hlt⟩ := ih ⟨x, hx, hlt⟩
        exact ⟨y, List.mem_cons_of_mem _ hy, hlt⟩

theorem forall_low_of_raised {raised : List Int} (hraised : List.Forall₂ (· ≤ ·) actualNs raised)
    (hanti : ∀ a b, a ≤ b → lowWater b targetNs = true → lowWater a targetNs = true)
    (hlow : ∀ b ∈ raised, lowWater b targetNs = true) :
    ∀ a ∈ actualNs, lowWater a targetNs = true := by
  induction hraised with
  | nil => exact hlow
  | cons hle _ ih =>
      rw [List.forall_mem_cons] at hlow ⊢
      exact ⟨hanti _ _ hle hlow.1, ih hlow.2⟩

/-- Raising durations never lowers the step. -/
theorem exactStep_mono {raised : List Int} (hraised : List.Forall₂ (· ≤ ·) actualNs raised)
    (hanti : ∀ a b, a ≤ b → lowWater b targetNs = true → lowWater a targetNs = true) :
    exactStep targetNs actualNs lowWater ≤ exactStep targetNs raised lowWater := by
  have hsevere (h : ∃ a ∈ actualNs, 3 * targetNs < 2 * a) : ∃ b ∈ raised, 3 * targetNs < 2 * b := by
    obtain ⟨a, ha, hlt⟩ := h
    have hbound : ∃ a ∈ actualNs, 3 * targetNs / 2 < a := ⟨a, ha, by omega⟩
    obtain ⟨b, hb, hlt⟩ := exists_lt_of_raised _ hraised hbound
    exact ⟨b, hb, by omega⟩
  have hlate := exists_lt_of_raised targetNs hraised
  have hlow := forall_low_of_raised hraised hanti
  unfold exactStep
  split_ifs <;> first
    | omega
    | exact absurd (hsevere ‹_›) ‹_›
    | exact absurd (hlate ‹_›) ‹_›
    | exact absurd (hlow ‹_›) ‹_›

end Steps

/-- Both batches are judged as over the integers and the later one is not
judged better, exactly when the durations of both fit. -/
theorem adpfNextLevel_exact_iff {level maxLevel targetNs : Int} {actualNs raised : List Int}
    {lowWater : Int → Int → Bool} (hlo : 0 ≤ level) (hhi : level ≤ maxLevel)
    (hmax : maxLevel ≤ 2147483647) (htarget : 0 < targetNs) (hactual : actualNs ≠ [])
    (hraised : List.Forall₂ (· ≤ ·) actualNs raised)
    (hanti : ∀ a b, a ≤ b → lowWater b targetNs = true → lowWater a targetNs = true) :
    (ExactLaw level targetNs actualNs lowWater maxLevel ∧
        ExactLaw level targetNs raised lowWater maxLevel ∧
        adpfNextLevel level maxLevel targetNs actualNs lowWater ≤
          adpfNextLevel level maxLevel targetNs raised lowWater) ↔
      DurationsFit level targetNs actualNs ∧ DurationsFit level targetNs raised := by
  have hlong : raised ≠ [] := by
    intro hnil
    rw [hnil, List.forall₂_nil_right_iff] at hraised
    exact hactual hraised
  have hfirst := exactLaw_iff maxLevel lowWater hlo
    (le_trans hhi hmax) htarget hactual
  have hsecond := exactLaw_iff maxLevel lowWater hlo
    (le_trans hhi hmax) htarget hlong
  constructor
  · rintro ⟨hactualLaw, hraisedLaw, -⟩
    exact ⟨hfirst.mp hactualLaw, hsecond.mp hraisedLaw⟩
  · rintro ⟨hactualFit, hraisedFit⟩
    have hactualLaw := hfirst.mpr hactualFit
    have hraisedLaw := hsecond.mpr hraisedFit
    refine ⟨hactualLaw, hraisedLaw, ?_⟩
    rw [hactualLaw.result, hraisedLaw.result]
    apply clamp_le_clamp (le_trans hlo hhi)
    have hstep := exactStep_mono hraised hanti
    omega

/-- One frame in time and one far over, of three levels. -/
theorem adpfNextLevel_exact_of_short :
    (ExactLaw 1 100 [90, 120] (fun a t => decide (2 * a < t)) 3 ∧
        ExactLaw 1 100 [90, 160] (fun a t => decide (2 * a < t)) 3 ∧
        adpfNextLevel 1 3 100 [90, 120] (fun a t => decide (2 * a < t)) ≤
          adpfNextLevel 1 3 100 [90, 160] (fun a t => decide (2 * a < t))) := by
  have hanti : ∀ a b : Int, a ≤ b → decide (2 * b < 100) = true → decide (2 * a < 100) = true := by
    intro a b hle hlow
    rw [decide_eq_true_eq] at hlow ⊢
    omega
  apply (adpfNextLevel_exact_iff (by decide) (by decide) (by decide) (by decide) (by decide)
    (by simp) hanti).mpr
  constructor
  · constructor <;> simp
  · constructor <;> simp

/-- A frame of a hundred and forty-six years is doubled into a negative
number, and the level goes up by one only. -/
theorem adpfNextLevel_not_exact :
    ¬ ExactLaw 0 10 [4611686018427387904] (fun _ _ => false) 3 := by
  intro hlaw
  have hresult := hlaw.result
  revert hresult
  decide

end MeizuM5c.Power
