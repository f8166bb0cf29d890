import MeizuM5c.Power.ApplyWrites

/-!
The floors against the live ceiling. `Resolves` says without parsing what a
token of a request stands for; a floor is then the greatest of what its tokens
stand for, and never above the ceiling that was read in the same pass.
-/

namespace MeizuM5c.Power

open Lib

/-- The kHz that a token stands for under a ceiling. -/
inductive Resolves : Option Int → String → Int → Prop
  | max (c : Int) : Resolves (some c) "max" c
  | pct (c : Int) {text : String} {percent : Int} : parseInt text = some percent →
      Resolves (some c) ("pct:" ++ text) (c * clamp percent 0 100 / 100)
  | khz (ceiling : Option Int) {token : String} {v : Int} : parseInt token = some v →
      Resolves ceiling token v

/-- A token that is none of the three kinds. -/
def Malformed (token : String) : Prop :=
  token ≠ "max" ∧ (∀ text, token = "pct:" ++ text → parseInt text = none) ∧
    parseInt token = none

/-- The frequencies that the kernel can report. -/
def KernelKhz (khz : Int) : Prop := 0 ≤ khz ∧ khz < 4294967296

namespace Engine

section Law

variable {σ : Type} (fs : Fs σ) (requests : OrdMap String Request) (node : NodeState) (w : σ)

def CpufreqFloorLaw : Prop :=
  ∀ c released, (readKhz fs node.cfg.maxPath w).1 = some c →
    releasedOf fs node (readKhz fs node.cfg.maxPath w).2 = some released →
    ∃ khz floor, IsGreatest ({released} ∪
        {v | ∃ t ∈ tokensFor requests node.cfg.name, Resolves (some c) t v}) khz ∧
      (targetLocked fs requests node w).1.1 = some (toString floor) ∧
      floor = min c khz ∧ floor ≤ c ∧ min released c ≤ floor

def PpmFloorLaw : Prop :=
  let ceiling := (readKhz fs node.cfg.maxPath w).1
  let resolved := {v | ∃ t ∈ tokensFor requests node.cfg.name, Resolves ceiling t v}
  ((targetLocked fs requests node w).1.1 = some (toString node.cfg.cluster ++ " " ++ "-1") ↔
      resolved = ∅) ∧
    (resolved.Nonempty → ∃ khz floor, IsGreatest resolved khz ∧
      (targetLocked fs requests node w).1.1 =
        some (toString node.cfg.cluster ++ " " ++ toString floor) ∧
      (∀ c, ceiling = some c → floor = min khz c ∧ floor ≤ c) ∧
      (ceiling = none → floor = khz))

/-- The floor of a node in one pass. -/
structure FloorLaw : Prop where
  cpufreq : node.cfg.type = .cpufreqFloor → CpufreqFloorLaw fs requests node w
  ppm : node.cfg.type = .ppmFloor → PpmFloorLaw fs requests node w
  pct : ∀ c text percent, (readKhz fs node.cfg.maxPath w).1 = some c →
    parseInt text = some percent →
    resolveKhz ("pct:" ++ text) (some c) = some (c * clamp percent 0 100 / 100) ∧
      inInt64 (c * clamp percent 0 100) = true
  malformed : node.cfg.type = .cpufreqFloor ∨ node.cfg.type = .ppmFloor →
    ∀ others : OrdMap String Request,
      (∀ t, ¬ Malformed t →
        (t ∈ tokensFor others node.cfg.name ↔ t ∈ tokensFor requests node.cfg.name)) →
      (targetLocked fs others node w).1.1 = (targetLocked fs requests node w).1.1

end Law

end Engine

section Tokens

theorem clamp_range {v lo hi : Int} (hrange : lo ≤ hi) :
    lo ≤ clamp v lo hi ∧ clamp v lo hi ≤ hi := by
  unfold clamp
  split_ifs <;> omega

/-- A percentage of a ceiling fits the registers. -/
theorem pct_fits {c : Int} (hc : KernelKhz c) (percent : Int) :
    0 ≤ c * clamp percent 0 100 ∧ c * clamp percent 0 100 ≤ 429496729600 := by
  obtain ⟨hlo, hhi⟩ := clamp_range (v := percent) (show (0 : Int) ≤ 100 by decide)
  constructor
  · exact mul_nonneg hc.1 hlo
  · calc c * clamp percent 0 100 ≤ 4294967296 * 100 :=
          mul_le_mul hc.2.le hhi hlo (by decide)
      _ = 429496729600 := by norm_num

theorem toList_pct (text : String) :
    ("pct:" ++ text).toList = 'p' :: 'c' :: 't' :: ':' :: text.toList := by
  rw [String.toList_append]
  rfl

theorem pct_ne_max (text : String) : "pct:" ++ text ≠ "max" := by
  intro heq
  have hlist := toList_pct text
  rw [heq] at hlist
  simp at hlist

theorem resolveKhz_pct_eq (text : String) (ceiling : Option Int) :
    resolveKhz ("pct:" ++ text) ceiling = (parseInt text).bind (fun pct =>
      ceiling.map (fun c => (wrapInt 64 (c * clamp pct 0 100)).tdiv 100)) := by
  have htake : ("pct:" ++ text).toList.take 4 = "pct:".toList := by
    rw [toList_pct]
    rfl
  unfold resolveKhz
  rw [if_neg (pct_ne_max text), if_pos htake, toList_pct]
  simp only [List.drop_succ_cons, List.drop_zero, String.ofList_toList]
  cases parseInt text with
  | none => rfl
  | some pct => cases ceiling <;> rfl

theorem resolveKhz_max (ceiling : Option Int) : resolveKhz "max" ceiling = ceiling := by
  unfold resolveKhz
  rw [if_pos rfl]

theorem parseInt_max : parseInt "max" = none := by
  decide

theorem resolveKhz_pct {c : Int} (hc : KernelKhz c) {text : String} {percent : Int}
    (h : parseInt text = some percent) :
    resolveKhz ("pct:" ++ text) (some c) = some (c * clamp percent 0 100 / 100) := by
  have hfits := pct_fits hc percent
  have hwrap : wrapInt 64 (c * clamp percent 0 100) = c * clamp percent 0 100 := by
    rw [wrapInt_64_eq_iff]
    omega
  rw [resolveKhz_pct_eq, h, Option.bind_some, Option.map_some, hwrap,
    Int.tdiv_eq_ediv_of_nonneg hfits.1]

theorem trim_cons {s : String} {c : Char} {rest : List Char} (hlist : s.toList = c :: rest)
    (hc : isBlank c = false) : ∃ tail, (trim s).toList = c :: tail := by
  have hdrop : ∃ front, (c :: rest).reverse.dropWhile isBlank = front ++ [c] := by
    rw [List.reverse_cons, List.dropWhile_append]
    split_ifs
    · exact ⟨[], by simp [hc]⟩
    · exact ⟨_, rfl⟩
  obtain ⟨front, hfront⟩ := hdrop
  refine ⟨front.reverse, ?_⟩
  unfold trim
  rw [hlist, List.dropWhile_cons_of_neg (by simp [hc]), hfront, String.toList_ofList]
  simp

/-- Text that starts with a letter is no number. -/
theorem parseInt_pct (text : String) : parseInt ("pct:" ++ text) = none := by
  obtain ⟨rest, hrest⟩ := trim_cons (toList_pct text) rfl
  unfold parseInt
  rw [hrest]
  simp only [List.isEmpty_cons, Bool.false_eq_true, if_false]
  rw [List.takeWhile_cons_of_pos (by decide), List.dropWhile_cons_of_neg (by decide)]
  simp [parseDigits]

theorem eq_pct_append {token : String} (h : token.toList.take 4 = "pct:".toList) :
    token = "pct:" ++ String.ofList (token.toList.drop 4) := by
  apply String.toList_inj.mp
  rw [String.toList_append, ← h, String.toList_ofList, List.take_append_drop]

/-- The code resolves a token to what it stands for, and to nothing else. -/
theorem resolveKhz_eq_some_iff {ceiling : Option Int} (hceiling : ∀ c ∈ ceiling, KernelKhz c)
    (token : String) (v : Int) :
    resolveKhz token ceiling = some v ↔ Resolves ceiling token v := by
  constructor
  · intro h
    by_cases hmax : token = "max"
    · rw [hmax, resolveKhz_max] at h
      rw [hmax, h]
      exact Resolves.max v
    · by_cases hpct : token.toList.take 4 = "pct:".toList
      · rw [eq_pct_append hpct] at h ⊢
        cases hparse : parseInt (String.ofList (token.toList.drop 4)) with
        | none => simp [resolveKhz_pct_eq, hparse] at h
        | some percent =>
            cases hc : ceiling with
            | none => simp [resolveKhz_pct_eq, hparse, hc] at h
            | some c =>
                rw [hc, resolveKhz_pct (hceiling c hc) hparse] at h
                cases h
                exact Resolves.pct c hparse
      · unfold resolveKhz at h
        rw [if_neg hmax, if_neg hpct] at h
        exact Resolves.khz ceiling h
  · intro h
    cases h with
    | max c => exact resolveKhz_max _
    | pct c hparse => exact resolveKhz_pct (hceiling c rfl) hparse
    | khz _ hparse =>
        have hmax : token ≠ "max" := by
          intro heq
          rw [heq, parseInt_max] at hparse
          cases hparse
        have hpct : token.toList.take 4 ≠ "pct:".toList := by
          intro htake
          rw [eq_pct_append htake, parseInt_pct] at hparse
          cases hparse
        unfold resolveKhz
        rw [if_neg hmax, if_neg hpct, hparse]

theorem Malformed.not_resolves {token : String} (h : Malformed token) {ceiling : Option Int}
    {v : Int} : ¬ Resolves ceiling token v := by
  intro hresolves
  cases hresolves with
  | max c => exact h.1 rfl
  | pct c hparse => simp [h.2.1 _ rfl] at hparse
  | khz _ hparse => simp [h.2.2] at hparse

/-- Nothing below zero comes out of tokens that are not below zero. -/
theorem Resolves.nonneg {ceiling : Option Int} (hceiling : ∀ c ∈ ceiling, KernelKhz c)
    {token : String} {v : Int} (h : Resolves ceiling token v)
    (htoken : ∀ v, parseInt token = some v → 0 ≤ v) : 0 ≤ v := by
  cases h with
  | max c => exact (hceiling v rfl).1
  | pct c hparse => exact Int.ediv_nonneg (pct_fits (hceiling c rfl) _).1 (by decide)
  | khz _ hparse => exact htoken v hparse

theorem toString_ne_neg_one {k : Int} (h : 0 ≤ k) : toString k ≠ "-1" := by
  obtain ⟨n, rfl⟩ := Int.eq_ofNat_of_zero_le h
  intro heq
  have hrepr : toString (n : Int) = Nat.repr n := rfl
  have hmem : '-' ∈ (Nat.repr n).toList := by
    rw [← hrepr, heq]
    decide
  have hdigit := Nat.isDigit_of_mem_toDigits (by decide) (by decide)
    (show '-' ∈ Nat.toDigits 10 n by simpa [Nat.repr] using hmem)
  revert hdigit
  decide

end Tokens

namespace Engine

section Floors

variable {σ : Type} (fs : Fs σ) {requests : OrdMap String Request} {node : NodeState} {w : σ}

theorem readings_resolveKhz {ceiling : Option Int} (hceiling : ∀ c ∈ ceiling, KernelKhz c)
    (tokens : List String) :
    readings (fun t => resolveKhz t ceiling) tokens =
      {v | ∃ t ∈ tokens, Resolves ceiling t v} := by
  ext v
  simp only [readings, resolveKhz_eq_some_iff hceiling, Set.mem_ofPred_eq]

theorem cpufreqFloorLaw (htype : node.cfg.type = .cpufreqFloor)
    (hceiling : ∀ c ∈ (readKhz fs node.cfg.maxPath w).1, KernelKhz c) :
    CpufreqFloorLaw fs requests node w := by
  intro c released hc hreleased
  have hgreatest := maxFrom_isGreatest (fun t => resolveKhz t (some c)) released
    (tokensFor requests node.cfg.name)
  have hle : released ≤ maxFrom (fun t => resolveKhz t (some c)) released
      (tokensFor requests node.cfg.name) := hgreatest.2 (Or.inl rfl)
  rw [hc] at hceiling
  rw [readings_resolveKhz hceiling] at hgreatest
  refine ⟨_, _, hgreatest, ?_, rfl, min_le_left _ _, ?_⟩
  · rw [targetLocked_cpufreq fs requests w htype]
    simp only [hc, hreleased, Option.map_some, cpufreqTarget, min_comm]
  · rw [min_comm]
    exact min_le_min_left c hle

theorem ppmFloorLaw (htype : node.cfg.type = .ppmFloor)
    (hceiling : ∀ c ∈ (readKhz fs node.cfg.maxPath w).1, KernelKhz c)
    (htokens : ∀ t ∈ tokensFor requests node.cfg.name, ∀ v, parseInt t = some v → 0 ≤ v) :
    PpmFloorLaw fs requests node w := by
  unfold PpmFloorLaw
  simp only
  rw [targetLocked_ppm fs htype, ← readings_resolveKhz hceiling]
  generalize hcur : (readKhz fs node.cfg.maxPath w).1 = ceiling at hceiling ⊢
  cases hmax : maxOpt (fun t => resolveKhz t ceiling) (tokensFor requests node.cfg.name) with
  | none =>
      have hempty : readings (fun t => resolveKhz t ceiling)
          (tokensFor requests node.cfg.name) = ∅ := by
        ext v
        simp only [readings, Set.mem_ofPred_eq, Set.mem_empty_iff_false, iff_false]
        rintro ⟨t, ht, hv⟩
        rw [(maxOpt_eq_none_iff _ _).mp hmax t ht] at hv
        cases hv
      rw [hempty]
      refine ⟨?_, fun h => absurd h Set.not_nonempty_empty⟩
      simp only [ppmTarget, hmax]
  | some khz =>
      have hgreatest := (maxOpt_eq_some_iff _ _ _).mp hmax
      have hne : (readings (fun t => resolveKhz t ceiling)
          (tokensFor requests node.cfg.name)).Nonempty := ⟨khz, hgreatest.1⟩
      obtain ⟨t, ht, hkhz⟩ := hgreatest.1
      have hnonneg := ((resolveKhz_eq_some_iff hceiling t khz).mp hkhz).nonneg hceiling (htokens t ht)
      have htext : ppmTarget node.cfg.cluster ceiling (tokensFor requests node.cfg.name) =
          toString node.cfg.cluster ++ " " ++ toString (ceiling.elim khz (min khz)) := by
        simp only [ppmTarget, hmax]
        cases ceiling <;> rfl
      have hfloor : 0 ≤ ceiling.elim khz (min khz) := by
        cases ceiling with
        | none => exact hnonneg
        | some c => exact le_min hnonneg (hceiling c rfl).1
      refine ⟨?_, fun _ => ⟨khz, ceiling.elim khz (min khz), hgreatest, by rw [htext], ?_, ?_⟩⟩
      · rw [htext, Option.some.injEq, String.append_right_inj]
        constructor
        · intro h
          exact absurd h (toString_ne_neg_one hfloor)
        · intro h
          exact absurd h hne.ne_empty
      · rintro c rfl
        exact ⟨rfl, min_le_right _ _⟩
      · rintro rfl
        rfl

/-- The floor depends on the well-formed tokens alone. -/
theorem readings_eq_of_malformed {ceiling : Option Int} (hceiling : ∀ c ∈ ceiling, KernelKhz c)
    {tokens others : List String} (h : ∀ t, ¬ Malformed t → (t ∈ others ↔ t ∈ tokens)) :
    readings (fun t => resolveKhz t ceiling) others =
      readings (fun t => resolveKhz t ceiling) tokens := by
  rw [readings_resolveKhz hceiling, readings_resolveKhz hceiling]
  ext v
  constructor
  · rintro ⟨t, ht, hv⟩
    exact ⟨t, (h t (fun hbad => hbad.not_resolves hv)).mp ht, hv⟩
  · rintro ⟨t, ht, hv⟩
    exact ⟨t, (h t (fun hbad => hbad.not_resolves hv)).mpr ht, hv⟩

theorem targetLocked_of_malformed
    (hfloor : node.cfg.type = .cpufreqFloor ∨ node.cfg.type = .ppmFloor)
    (hceiling : ∀ c ∈ (readKhz fs node.cfg.maxPath w).1, KernelKhz c)
    {others : OrdMap String Request} (h : ∀ t, ¬ Malformed t →
      (t ∈ tokensFor others node.cfg.name ↔ t ∈ tokensFor requests node.cfg.name)) :
    (targetLocked fs others node w).1.1 = (targetLocked fs requests node w).1.1 := by
  have hreadings := readings_eq_of_malformed hceiling h
  rcases hfloor with htype | htype
  · rw [targetLocked_cpufreq fs others w htype, targetLocked_cpufreq fs requests w htype]
    cases hc : (readKhz fs node.cfg.maxPath w).1 with
    | none => rfl
    | some c =>
        rw [hc] at hreadings
        cases releasedOf fs node (readKhz fs node.cfg.maxPath w).2 with
        | none => rfl
        | some released =>
            simp only [Option.map_some, cpufreqTarget]
            rw [maxFrom_congr released hreadings]
  · rw [targetLocked_ppm fs htype, targetLocked_ppm fs htype]
    simp only [ppmTarget]
    rw [maxOpt_congr hreadings]

end Floors

end Engine

/-- For every node, every set of requests and every file system whose ceilings
are frequencies, when no token is a number below zero. -/
theorem floor_law {σ : Type} (fs : Fs σ) (requests : OrdMap String Request) (node : NodeState)
    (w : σ) (hceiling : ∀ c ∈ (Engine.readKhz fs node.cfg.maxPath w).1, KernelKhz c)
    (htokens : ∀ t ∈ Engine.tokensFor requests node.cfg.name,
      ∀ v, parseInt t = some v → 0 ≤ v) :
    Engine.FloorLaw fs requests node w where
  cpufreq := fun htype => Engine.cpufreqFloorLaw fs htype hceiling
  ppm := fun htype => Engine.ppmFloorLaw fs htype hceiling htokens
  pct := by
    intro c text percent hc hparse
    have hkernel := hceiling c hc
    refine ⟨resolveKhz_pct hkernel hparse, ?_⟩
    have hfits := pct_fits hkernel percent
    simp only [inInt64, decide_eq_true_eq]
    omega
  malformed := fun hfloor _ h => Engine.targetLocked_of_malformed fs hfloor hceiling h

/-- A file system in which every ceiling is the one of the slow cluster. -/
def slowFs : Fs Unit where
  read := fun _ w => (some "1300000\n", w)
  write := fun _ _ w => (.ok (), w)

def slowFloor : NodeState where
  cfg := { name := "floor", type := .ppmFloor, path := "/proc/ppm", maxPath := "max", cluster := 0 }

/-- A share of the ceiling, and a word that means nothing. -/
def slowRequests : OrdMap String Request :=
  (OrdMap.empty.insert "launch" ⟨OrdMap.empty.insert "floor" "pct:50", Deadline.never⟩).insert
    "adpf" ⟨OrdMap.empty.insert "floor" "fast", Deadline.never⟩

theorem floor_law_slow :
    (Engine.targetLocked slowFs slowRequests slowFloor ()).1.1 = some "0 650000" ∧
      Engine.FloorLaw slowFs slowRequests slowFloor () := by
  have hread : (Engine.readKhz slowFs slowFloor.cfg.maxPath ()).1 = some 1300000 := by decide
  have hnumbers : ∀ t ∈ Engine.tokensFor slowRequests slowFloor.cfg.name,
      parseInt t = none := by decide
  refine ⟨by decide, floor_law slowFs slowRequests slowFloor () ?_ ?_⟩
  · intro c hc
    rw [hread] at hc
    cases hc
    exact ⟨by decide, by decide⟩
  · intro t ht v hv
    rw [hnumbers t ht] at hv
    cases hv

end MeizuM5c.Power
