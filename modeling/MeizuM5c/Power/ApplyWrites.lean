import Mathlib.Data.List.Sort
import MeizuM5c.Power.EngineRun

/-!
The writes of one `applyLocked`, seen from the file system: which there are,
in which order they come, and that a second pass at the same time makes none.
Computing a target changes the node (the released value, the captured value
and the cache), so the second pass does not start where the first one did.
-/

namespace MeizuM5c.Power

open Lib

/-- One call of `Fs::write`. -/
structure Write where
  path : String
  value : String
  ok : Bool
  deriving DecidableEq, Repr

/-- The same file system with a log of its writes. -/
def Fs.traced {σ : Type} (fs : Fs σ) : Fs (σ × List Write) where
  read := fun path w => ((fs.read path w.1).1, (fs.read path w.1).2, w.2)
  write := fun path value w =>
    ((fs.write path value w.1).1, (fs.write path value w.1).2,
      w.2 ++ [⟨path, value, (fs.write path value w.1).1.isOk⟩])

namespace Engine

section Law

variable {σ : Type} (fs : Fs σ)

def writesOf (e : Engine) (now : Time) (w : σ) : List Write :=
  (applyLocked fs.traced e now (w, [])).2.2

/-- The writes of a pass belong to different nodes in the order of the nodes,
and each of them brings a node to its target that does not hold it yet. -/
def OrderedMinimal (e : Engine) (now : Time) (w : σ) : Prop :=
  ∃ picked : List (NodeState × Write),
    writesOf fs e now w = picked.map Prod.snd ∧
    (picked.map Prod.fst).Sublist e.mNodes ∧
    picked.Pairwise (fun a b => nodeBefore a.1.cfg b.1.cfg) ∧
    ∀ p ∈ picked, p.2.path = p.1.cfg.path ∧ p.1.written ≠ some p.2.value ∧
      ∃ u, (p.1, u) ∈ applyVisits fs e now w ∧
        (targetLocked fs (dropExpired e.mRequests now) p.1 u).1.1 = some p.2.value

/-- What the two visits of a node find where both of them read: the same
ceiling, the same released value, and no capture after a failed one. -/
structure SameReads (requests : OrdMap String Request) (node : NodeState) (w w' : σ) :
    Prop where
  ceiling : node.cfg.type = .cpufreqFloor ∨ node.cfg.type = .ppmFloor →
    (readKhz fs node.cfg.maxPath w).1 = (readKhz fs node.cfg.maxPath w').1
  released : node.cfg.type = .cpufreqFloor → node.releasedKhz = none →
    (readKhz fs node.cfg.maxPath w).1 ≠ none →
    (readKhz fs node.cfg.minInfoPath (readKhz fs node.cfg.maxPath w).2).1 = none →
    (readKhz fs node.cfg.minInfoPath (readKhz fs node.cfg.maxPath w').2).1 = none
  capture : node.cfg.type = .value → tokensFor requests node.cfg.name ≠ [] →
    node.cfg.release = .capture → node.captured = none →
    (fs.read node.cfg.path w).1 = none → (fs.read node.cfg.path w').1 = none

/-- A second pass writes nothing and waits for the same deadline. -/
def SettlesAtOnce (e : Engine) (now : Time) (w : σ) : Prop :=
  ∀ w', (∀ x ∈ writesOf fs e now w, x.ok = true) →
    (∀ (i : Nat) (v v' : NodeState × σ), (applyVisits fs e now w)[i]? = some v →
      (applyVisits fs (applyLocked fs e now w).1.2 now w')[i]? = some v' →
      SameReads fs (dropExpired e.mRequests now) v.1 v.2 v'.2) →
    writesOf fs (applyLocked fs e now w).1.2 now w' = [] ∧
      (applyLocked fs (applyLocked fs e now w).1.2 now w').1.1 = (applyLocked fs e now w).1.1

/-- The nodes stand as the constructor put them. -/
def Built (cfgs : List NodeConfig) (e : Engine) : Prop :=
  e.mNodes.map NodeState.cfg = (create cfgs).mNodes.map NodeState.cfg

end Law

section Order

theorem nodeBefore_iff (a b : NodeConfig) :
    nodeBefore a b ↔ a.order < b.order ∨ a.order = b.order ∧ a.name < b.name := by
  unfold nodeBefore
  split_ifs with hne
  · constructor
    · exact Or.inl
    · rintro (hlt | ⟨heq, -⟩)
      · exact hlt
      · exact absurd heq hne
  · rw [not_not] at hne
    simp [hne]

instance nodeBefore_total : Std.Total (fun a b : NodeConfig => ¬ nodeBefore b a) where
  total := by
    intro a b
    simp only [nodeBefore_iff, not_or, not_and]
    rcases lt_trichotomy a.order b.order with hlt | heq | hgt
    · exact Or.inl ⟨hlt.le.not_gt, fun h => absurd h hlt.ne'⟩
    · rcases le_total a.name b.name with hle | hle
      · exact Or.inl ⟨heq.le.not_gt, fun _ => hle.not_gt⟩
      · exact Or.inr ⟨heq.ge.not_gt, fun _ => hle.not_gt⟩
    · exact Or.inr ⟨hgt.le.not_gt, fun h => absurd h hgt.ne'⟩

instance nodeBefore_trans : IsTrans NodeConfig (fun a b => ¬ nodeBefore b a) where
  trans := by
    intro a b c hab hbc hca
    rw [nodeBefore_iff] at hab hbc hca
    simp only [not_or, not_and, not_lt] at hab hbc
    rcases hca with hlt | ⟨heq, hlt⟩
    · exact absurd (hab.1.trans hbc.1) hlt.not_ge
    · have hab' := hab.2 (le_antisymm (hbc.1.trans heq.le) hab.1)
      have hbc' := hbc.2 (le_antisymm (heq.le.trans hab.1) hbc.1)
      exact absurd (hab'.trans hbc') hlt.not_ge

/-- Of two nodes with different names the earlier one is strictly before. -/
theorem nodeBefore_of_not {a b : NodeConfig} (hname : a.name ≠ b.name)
    (h : ¬ nodeBefore b a) : nodeBefore a b := by
  rw [nodeBefore_iff] at h ⊢
  simp only [not_or, not_and, not_lt] at h
  rcases h.1.lt_or_eq with hlt | heq
  · exact Or.inl hlt
  · exact Or.inr ⟨heq, (h.2 heq.symm).lt_of_ne hname⟩

theorem Built.pairwise {cfgs : List NodeConfig} {e : Engine} (hbuilt : Built cfgs e)
    (hnames : (cfgs.map NodeConfig.name).Nodup) :
    e.mNodes.Pairwise (fun a b => nodeBefore a.cfg b.cfg) := by
  have hcfgs : e.mNodes.map NodeState.cfg = cfgs.insertionSort (fun a b => ¬ nodeBefore b a) := by
    rw [hbuilt]
    simp [create, Function.comp_def]
  have hperm := List.perm_insertionSort (fun a b => ¬ nodeBefore b a) cfgs
  have hsorted := List.pairwise_insertionSort (fun a b => ¬ nodeBefore b a) cfgs
  have hdistinct := (hperm.map NodeConfig.name).nodup_iff.mpr hnames
  rw [← hcfgs] at hsorted hdistinct
  rw [List.map_map] at hdistinct
  have hboth := (List.pairwise_map.mp hsorted).and (List.pairwise_map.mp hdistinct)
  exact hboth.imp (fun h => nodeBefore_of_not h.2 h.1)

end Order

section Traced

variable {σ : Type} (fs : Fs σ)

theorem readKhz_traced (path : String) (w : σ) (log : List Write) :
    readKhz fs.traced path (w, log) =
      ((readKhz fs path w).1, (readKhz fs path w).2, log) := by
  unfold readKhz
  split_ifs
  · rfl
  · simp only [Fs.traced]
    cases hread : fs.read path w with
    | mk content w' =>
        cases content with
        | none => simp only
        | some text => simp only

theorem captureLocked_traced (node : NodeState) (w : σ) (log : List Write) :
    captureLocked fs.traced node (w, log) =
      ((captureLocked fs node w).1, (captureLocked fs node w).2, log) := by
  unfold captureLocked
  split_ifs
  · simp only [Fs.traced]
    cases hread : fs.read node.cfg.path w with
    | mk content w' => cases content <;> rfl
  · rfl

/-- Computing a target writes nothing. -/
theorem targetLocked_traced (requests : OrdMap String Request) (node : NodeState) (w : σ)
    (log : List Write) :
    targetLocked fs.traced requests node (w, log) =
      ((targetLocked fs requests node w).1, (targetLocked fs requests node w).2, log) := by
  unfold targetLocked
  simp only [readKhz_traced, captureLocked_traced]
  cases node.cfg.type with
  | cpufreqFloor =>
      cases hceiling : readKhz fs node.cfg.maxPath w with
      | mk ceiling w' =>
          cases ceiling with
          | none => rfl
          | some c =>
              cases hreleased : node.releasedKhz with
              | some r => rfl
              | none =>
                  cases hinfo : readKhz fs node.cfg.minInfoPath w' with
                  | mk info w'' => cases info <;> simp [readKhz_traced, hinfo]
  | ppmFloor => rfl
  | value =>
      simp only
      split_ifs
      · rfl
      · cases hcapture : captureLocked fs node w with
        | mk captured w' => cases captured <;> rfl
  | pulse => rfl

theorem writeLocked_traced (node : NodeState) (value : String) (w : σ) (log : List Write) :
    writeLocked fs.traced node value (w, log) =
      ((writeLocked fs node value w).1, (writeLocked fs node value w).2,
        log ++ [⟨node.cfg.path, value, (writeLocked fs node value w).1.1⟩]) := by
  unfold writeLocked
  simp only [Fs.traced]
  cases hwrite : fs.write node.cfg.path value w with
  | mk result w' =>
      cases result with
      | ok _ => rfl
      | error err =>
          simp only
          split_ifs <;> rfl

/-- The write that the pass makes at a node. -/
def issued (requests : OrdMap String Request) (node : NodeState) (w : σ) : Option Write :=
  if node.cfg.type = .pulse then none
  else
    match targetLocked fs requests node w with
    | ((none, _), _) => none
    | ((some target, mid), w) =>
        if mid.written = some target then none
        else some ⟨mid.cfg.path, target, (writeLocked fs mid target w).1.1⟩

theorem applyNode_traced (requests : OrdMap String Request) (node : NodeState) (w : σ)
    (log : List Write) :
    applyNode fs.traced requests node (w, log) =
      ((applyNode fs requests node w).1, (applyNode fs requests node w).2,
        log ++ (issued fs requests node w).toList) := by
  unfold applyNode issued
  rw [targetLocked_traced]
  split_ifs
  · simp
  · cases htarget : targetLocked fs requests node w with
    | mk result w' =>
        obtain ⟨target, mid⟩ := result
        cases target with
        | none => simp
        | some t =>
            simp only
            split_ifs
            · simp
            · simp [writeLocked_traced]

/-- The log changes nothing else, and holds the writes of the visits. -/
theorem applyLocked_traced (e : Engine) (now : Time) (w : σ) :
    applyLocked fs.traced e now (w, []) =
      ((applyLocked fs e now w).1, (applyLocked fs e now w).2,
        (applyVisits fs e now w).filterMap
          (fun v => issued fs (dropExpired e.mRequests now) v.1 v.2)) := by
  have hloop := threadMap_logged (applyNode_traced fs (dropExpired e.mRequests now)) e.mNodes w []
  simp only [applyLocked, hloop, applyVisits, List.nil_append]

theorem writesOf_eq (e : Engine) (now : Time) (w : σ) :
    writesOf fs e now w = (applyVisits fs e now w).filterMap
      (fun v => issued fs (dropExpired e.mRequests now) v.1 v.2) := by
  rw [writesOf, applyLocked_traced]

/-- A write at a node brings it to its target, which it did not hold. -/
theorem issued_eq_some {requests : OrdMap String Request} {node : NodeState} {w : σ} {x : Write}
    (h : issued fs requests node w = some x) :
    node.cfg.type ≠ .pulse ∧ x.path = node.cfg.path ∧ node.written ≠ some x.value ∧
      (targetLocked fs requests node w).1.1 = some x.value ∧
      x.ok = (writeLocked fs (targetLocked fs requests node w).1.2 x.value
        (targetLocked fs requests node w).2).1.1 := by
  obtain ⟨hcfg, _, _, hwritten⟩ := targetLocked_spec fs requests node w
  unfold issued at h
  split_ifs at h with htype
  cases htarget : targetLocked fs requests node w with
  | mk result w' =>
      obtain ⟨target, mid⟩ := result
      rw [htarget] at h hcfg hwritten
      cases target with
      | none => cases h
      | some t =>
          simp only [Option.ite_none_left_eq_some, Option.some.injEq] at h
          obtain ⟨hheld, rfl⟩ := h
          have hsame : mid.written = node.written := by
            rcases hwritten with hsame | ⟨hnone, -⟩
            · exact hsame
            · cases hnone
          rw [hsame] at hheld
          exact ⟨htype, congrArg NodeConfig.path hcfg, hheld, rfl, rfl⟩

/-- The writes of a pass with the nodes that they are for. -/
def pickedOf (e : Engine) (now : Time) (w : σ) : List (NodeState × Write) :=
  (applyVisits fs e now w).filterMap (fun v =>
    (issued fs (dropExpired e.mRequests now) v.1 v.2).map (fun x => (v.1, x)))

theorem pickedOf_map_snd (e : Engine) (now : Time) (w : σ) :
    (pickedOf fs e now w).map Prod.snd = writesOf fs e now w := by
  rw [writesOf_eq, pickedOf, List.map_filterMap]
  simp [Function.comp_def]

theorem pickedOf_sublist (e : Engine) (now : Time) (w : σ) :
    ((pickedOf fs e now w).map Prod.fst).Sublist e.mNodes := by
  have hvisits : (applyVisits fs e now w).map Prod.fst = e.mNodes := visits_map_fst _ _ _
  rw [← hvisits, pickedOf]
  generalize applyVisits fs e now w = vs
  induction vs with
  | nil => simp
  | cons v vs ih =>
      rw [List.filterMap_cons]
      cases issued fs (dropExpired e.mRequests now) v.1 v.2 with
      | none => exact ih.cons _
      | some x => exact ih.cons_cons _

theorem mem_pickedOf {e : Engine} {now : Time} {w : σ} {p : NodeState × Write}
    (h : p ∈ pickedOf fs e now w) :
    ∃ u, (p.1, u) ∈ applyVisits fs e now w ∧
      issued fs (dropExpired e.mRequests now) p.1 u = some p.2 := by
  obtain ⟨v, hv, hp⟩ := List.mem_filterMap.mp h
  obtain ⟨x, hx, rfl⟩ := Option.map_eq_some_iff.mp hp
  exact ⟨v.2, hv, hx⟩

theorem Built.orderedMinimal {cfgs : List NodeConfig} {e : Engine} (hbuilt : Built cfgs e)
    (hnames : (cfgs.map NodeConfig.name).Nodup) (now : Time) (w : σ) :
    OrderedMinimal fs e now w := by
  have hsublist := pickedOf_sublist fs e now w
  refine ⟨pickedOf fs e now w, (pickedOf_map_snd fs e now w).symm, hsublist, ?_, ?_⟩
  · have hpairs := (hbuilt.pairwise hnames).sublist hsublist
    rw [List.pairwise_map] at hpairs
    exact hpairs
  · intro p hp
    obtain ⟨u, hvisit, hissued⟩ := mem_pickedOf fs hp
    obtain ⟨_, hpath, hheld, htarget, _⟩ := issued_eq_some fs hissued
    exact ⟨hpath, hheld, u, hvisit, htarget⟩

end Traced

section Twice

variable {σ : Type} (fs : Fs σ) {requests : OrdMap String Request} {node : NodeState} {w : σ}

/-- The released value of a cpufreq floor, once its ceiling has been read. -/
def releasedOf (node : NodeState) (w : σ) : Option Int :=
  match node.releasedKhz with
  | some r => some r
  | none => (readKhz fs node.cfg.minInfoPath w).1

theorem targetLocked_cpufreq (requests : OrdMap String Request) (w : σ)
    (htype : node.cfg.type = .cpufreqFloor) :
    (targetLocked fs requests node w).1 =
      match (readKhz fs node.cfg.maxPath w).1 with
      | none => (none, node)
      | some c =>
          let released := releasedOf fs node (readKhz fs node.cfg.maxPath w).2
          (released.map (fun r => cpufreqTarget r c (tokensFor requests node.cfg.name)),
            { node with releasedKhz := released }) := by
  unfold targetLocked releasedOf
  simp only [htype]
  cases hceiling : readKhz fs node.cfg.maxPath w with
  | mk ceiling w' =>
      cases ceiling with
      | none => rfl
      | some c =>
          cases hreleased : node.releasedKhz with
          | some r => rfl
          | none =>
              simp only
              cases hinfo : readKhz fs node.cfg.minInfoPath w' with
              | mk info w'' => cases info <;> rfl

theorem targetLocked_ppm (htype : node.cfg.type = .ppmFloor) :
    (targetLocked fs requests node w).1 =
      (some (ppmTarget node.cfg.cluster (readKhz fs node.cfg.maxPath w).1
        (tokensFor requests node.cfg.name)), node) := by
  unfold targetLocked
  simp only [htype]

theorem targetLocked_released (htype : node.cfg.type = .value)
    (htokens : tokensFor requests node.cfg.name = []) :
    (targetLocked fs requests node w).1 = releasedValue node := by
  unfold targetLocked
  simp [htype, htokens]

theorem targetLocked_asked (htype : node.cfg.type = .value)
    (htokens : tokensFor requests node.cfg.name ≠ []) :
    (targetLocked fs requests node w).1 =
      match (captureLocked fs node w).1 with
      | none => (none, node)
      | some mid => (some (valueTarget node.cfg (tokensFor requests node.cfg.name)), mid) := by
  unfold targetLocked
  simp only [htype, List.isEmpty_iff, if_neg htokens]
  cases hcapture : captureLocked fs node w with
  | mk captured w' =>
      cases captured with
      | none => rfl
      | some mid =>
          obtain ⟨captured, rfl⟩ := captureLocked_some fs hcapture
          rfl

/-- A pass whose write succeeds ends where computing the target did, but for
the cache, which then holds the target. -/
structure Passed (mid after : NodeState) (target : Option String) : Prop where
  cfg : after.cfg = mid.cfg
  captured : after.captured = mid.captured
  releasedKhz : after.releasedKhz = mid.releasedKhz
  written : after.written = match target with
    | some t => some t
    | none => mid.written

theorem applyNode_passed (htype : node.cfg.type ≠ .pulse)
    (hok : ∀ x, issued fs requests node w = some x → x.ok = true) :
    Passed (targetLocked fs requests node w).1.2 (applyNode fs requests node w).1.1
      (targetLocked fs requests node w).1.1 := by
  have hcfg := (targetLocked_spec fs requests node w).1
  unfold issued at hok
  unfold applyNode
  simp only [if_neg htype] at hok ⊢
  cases htarget : targetLocked fs requests node w with
  | mk result w' =>
      obtain ⟨target, mid⟩ := result
      rw [htarget] at hok hcfg
      cases target with
      | none => exact ⟨rfl, rfl, rfl, rfl⟩
      | some t =>
          simp only at hok hcfg ⊢
          split_ifs at hok ⊢ with hheld
          · exact ⟨rfl, rfl, rfl, hheld⟩
          · obtain ⟨hcfg', hcaptured, hreleased, _, hwritten, _⟩ := writeLocked_spec fs mid t w'
            have hdone := hok _ rfl
            simp only at hdone
            refine ⟨hcfg', hcaptured, hreleased, ?_⟩
            rw [hwritten, hdone, hcfg, if_pos rfl, if_neg htype]

/-- A floor is computed from the same readings. -/
theorem cpufreq_again {after : NodeState} {w' : σ} (htype : node.cfg.type = .cpufreqFloor)
    (hreads : SameReads fs requests node w w')
    (hpassed : Passed (targetLocked fs requests node w).1.2 after
      (targetLocked fs requests node w).1.1) {t : String}
    (ht : (targetLocked fs requests after w').1.1 = some t) : after.written = some t := by
  have hceiling := hreads.ceiling (Or.inl htype)
  have hcfg : after.cfg = node.cfg := hpassed.cfg.trans (targetLocked_spec fs requests node w).1
  have hfirst := targetLocked_cpufreq fs requests w htype
  have hreleased := hpassed.releasedKhz
  have hwritten := hpassed.written
  rw [targetLocked_cpufreq fs requests w' (by rw [hcfg, htype]), hcfg, ← hceiling] at ht
  cases hc : (readKhz fs node.cfg.maxPath w).1 with
  | none => simp [hc] at ht
  | some c =>
      rw [hfirst] at hreleased hwritten
      simp only [hc, Option.map_eq_some_iff] at ht hreleased hwritten
      obtain ⟨r, hr, rfl⟩ := ht
      have hsame : releasedOf fs node (readKhz fs node.cfg.maxPath w).2 = some r := by
        unfold releasedOf at hr hreleased ⊢
        rw [hreleased, hcfg] at hr
        cases hkept : node.releasedKhz with
        | some r' => simpa [hkept] using hr
        | none =>
            have hinfo := hreads.released htype hkept (by simp [hc])
            simp only [hkept] at hr ⊢
            cases hread : (readKhz fs node.cfg.minInfoPath
                (readKhz fs node.cfg.maxPath w).2).1 with
            | none => simp [hread, hinfo hread] at hr
            | some r' => simpa [hread] using hr
      rw [hsame] at hwritten
      exact hwritten

theorem ppm_again {after : NodeState} {w' : σ} (htype : node.cfg.type = .ppmFloor)
    (hreads : SameReads fs requests node w w')
    (hpassed : Passed (targetLocked fs requests node w).1.2 after
      (targetLocked fs requests node w).1.1) {t : String}
    (ht : (targetLocked fs requests after w').1.1 = some t) : after.written = some t := by
  have hceiling := hreads.ceiling (Or.inr htype)
  have hcfg : after.cfg = node.cfg := hpassed.cfg.trans (targetLocked_spec fs requests node w).1
  have hwritten := hpassed.written
  rw [targetLocked_ppm fs htype] at hwritten
  rw [targetLocked_ppm fs (by rw [hcfg, htype]), hcfg, ← hceiling] at ht
  rw [hwritten]
  exact ht

/-- A value node without a request: the default stands, nothing is put back,
or what was put back is now given up. -/
theorem released_again {after : NodeState} {w' : σ} (htype : node.cfg.type = .value)
    (htokens : tokensFor requests node.cfg.name = [])
    (hpassed : Passed (targetLocked fs requests node w).1.2 after
      (targetLocked fs requests node w).1.1) {t : String}
    (ht : (targetLocked fs requests after w').1.1 = some t) : after.written = some t := by
  have hcfg : after.cfg = node.cfg := hpassed.cfg.trans (targetLocked_spec fs requests node w).1
  have hcaptured := hpassed.captured
  have hwritten := hpassed.written
  rw [targetLocked_released fs htype htokens] at hcaptured hwritten
  rw [targetLocked_released fs (by rw [hcfg, htype]) (by rw [hcfg, htokens])] at ht
  unfold releasedValue at ht hcaptured hwritten
  rw [hcfg] at ht
  cases hrelease : node.cfg.release with
  | default =>
      simp only [hrelease] at ht hwritten
      rw [hwritten, ht]
  | none => simp [hrelease] at ht
  | capture =>
      simp only [hrelease] at ht hcaptured hwritten
      cases hold : node.captured with
      | none =>
          simp only [hold] at hcaptured
          simp [hcaptured] at ht
      | some c =>
          simp only [hold] at hcaptured hwritten
          split_ifs at hcaptured hwritten with hback
          · simp [hcaptured] at ht
          · simp only [hold] at hcaptured
            simp only [hcaptured, hwritten, if_true] at ht
            cases ht

theorem asked_again {after : NodeState} {w' : σ} (htype : node.cfg.type = .value)
    (htokens : tokensFor requests node.cfg.name ≠ []) (hreads : SameReads fs requests node w w')
    (hpassed : Passed (targetLocked fs requests node w).1.2 after
      (targetLocked fs requests node w).1.1) {t : String}
    (ht : (targetLocked fs requests after w').1.1 = some t) : after.written = some t := by
  have hcfg : after.cfg = node.cfg := hpassed.cfg.trans (targetLocked_spec fs requests node w).1
  have hcaptured := hpassed.captured
  have hwritten := hpassed.written
  rw [targetLocked_asked fs htype htokens] at hcaptured hwritten
  rw [targetLocked_asked fs (by rw [hcfg, htype]) (by rw [hcfg]; exact htokens)] at ht
  cases hfirst : (captureLocked fs node w).1 with
  | some mid =>
      simp only [hfirst] at hwritten
      cases hsecond : (captureLocked fs after w').1 with
      | none => simp [hsecond] at ht
      | some mid' =>
          simp only [hsecond, hcfg] at ht
          rw [hwritten, ht]
  | none =>
      -- the capture failed, so it is tried again and fails again
      simp only [hfirst] at hcaptured
      have hfailed : (captureLocked fs after w').1 = none := by
        unfold captureLocked at hfirst ⊢
        rw [hcfg, hcaptured]
        split_ifs at hfirst ⊢ with hneeded
        cases hread : fs.read node.cfg.path w with
        | mk content u =>
            cases content with
            | some current => simp [hread] at hfirst
            | none =>
                have hagain := hreads.capture htype htokens hneeded.1 hneeded.2 (by rw [hread])
                cases hread' : fs.read node.cfg.path w' with
                | mk content' u' =>
                    rw [hread'] at hagain
                    cases hagain
                    rfl
      simp [hfailed] at ht

/-- After a pass whose write succeeded the node holds what a second pass
would write. -/
theorem issued_again {w' : σ} (hreads : SameReads fs requests node w w')
    (hok : ∀ x, issued fs requests node w = some x → x.ok = true) :
    issued fs requests (applyNode fs requests node w).1.1 w' = none := by
  rw [Option.eq_none_iff_forall_ne_some]
  intro x hx
  obtain ⟨htype, -, hheld, htarget, -⟩ := issued_eq_some fs hx
  rw [applyNode_cfg] at htype
  have hpassed := applyNode_passed fs htype hok
  apply hheld
  cases hkind : node.cfg.type with
  | cpufreqFloor => exact cpufreq_again fs hkind hreads hpassed htarget
  | ppmFloor => exact ppm_again fs hkind hreads hpassed htarget
  | value =>
      by_cases htokens : tokensFor requests node.cfg.name = []
      · exact released_again fs hkind htokens hpassed htarget
      · exact asked_again fs hkind htokens hreads hpassed htarget
  | pulse => exact absurd hkind htype

@[simp] theorem dropExpired_dropExpired (requests : OrdMap String Request) (now : Time) :
    dropExpired (dropExpired requests now) now = dropExpired requests now := by
  apply OrdMap.ext_entries
  simp only [dropExpired, OrdMap.filter, List.filter_filter, Bool.and_self]

/-- A pass whose writes all succeed has nothing pending. -/
theorem applyNode_not_pending
    (hok : ∀ x, issued fs requests node w = some x → x.ok = true) :
    (applyNode fs requests node w).1.2 = false := by
  unfold issued at hok
  unfold applyNode
  split_ifs at hok ⊢ with htype
  · rfl
  · cases htarget : targetLocked fs requests node w with
    | mk result w' =>
        obtain ⟨target, mid⟩ := result
        rw [htarget] at hok
        cases target with
        | none => rfl
        | some t =>
            simp only at hok ⊢
            split_ifs at hok ⊢ with hheld
            · rfl
            · have hdone := hok _ rfl
              simp only at hdone
              simp [hdone]

theorem applyLocked_deadline (e : Engine) (now : Time) (w : σ)
    (hok : ∀ x ∈ writesOf fs e now w, x.ok = true) :
    (applyLocked fs e now w).1.1 = nextDeadline (dropExpired e.mRequests now) := by
  have hnone : (threadMap (applyNode fs (dropExpired e.mRequests now)) e.mNodes w).1.any
      Prod.snd = false := by
    rw [threadMap_fst, List.any_map, List.any_eq_false]
    intro v hv
    rw [Bool.not_eq_true]
    apply applyNode_not_pending
    intro x hx
    apply hok
    rw [writesOf_eq]
    exact List.mem_filterMap.mpr ⟨v, hv, hx⟩
  simp [applyLocked, hnone]

theorem settlesAtOnce (e : Engine) (now : Time) (w : σ) : SettlesAtOnce fs e now w := by
  intro w' hok hreads
  have hquiet : writesOf fs (applyLocked fs e now w).1.2 now w' = [] := by
    rw [writesOf_eq, List.filterMap_eq_nil_iff, applyLocked_mRequests, dropExpired_dropExpired]
    intro v' hv'
    obtain ⟨i, hi⟩ := List.mem_iff_getElem?.mp hv'
    have hnodes : (applyVisits fs (applyLocked fs e now w).1.2 now w').map Prod.fst =
        (applyLocked fs e now w).1.2.mNodes := visits_map_fst _ _ _
    have hnode : (applyLocked fs e now w).1.2.mNodes[i]? = some v'.1 := by
      rw [← hnodes, List.getElem?_map, hi]
      rfl
    rw [applyLocked_mNodes, List.getElem?_map, Option.map_eq_some_iff] at hnode
    obtain ⟨v, hv, hafter⟩ := hnode
    rw [← hafter]
    apply issued_again fs (hreads i v v' hv hi)
    intro x hx
    apply hok
    rw [writesOf_eq]
    exact List.mem_filterMap.mpr ⟨v, List.mem_of_getElem? hv, hx⟩
  refine ⟨hquiet, ?_⟩
  rw [applyLocked_deadline fs e now w hok, applyLocked_deadline fs _ now w' (by simp [hquiet]),
    applyLocked_mRequests, dropExpired_dropExpired]

end Twice

section Reached

variable {σ : Type} (fs : Fs σ)

theorem pulseFirst_cfgs (name : String) (durationMs : Int) (nodes : List NodeState) (w : σ) :
    (pulseFirst fs name durationMs nodes w).1.map NodeState.cfg = nodes.map NodeState.cfg := by
  induction nodes generalizing w with
  | nil => rfl
  | cons node rest ih =>
      unfold pulseFirst
      split_ifs
      · simp only [pulseNode, List.map_cons, List.cons.injEq, and_true]
        rw [(writeLocked_spec fs _ "1" _).1, (pulseDuration_spec fs node _ w).1]
      · rfl
      · simp [ih]

theorem applyLocked_cfgs (e : Engine) (now : Time) (w : σ) :
    (applyLocked fs e now w).1.2.mNodes.map NodeState.cfg = e.mNodes.map NodeState.cfg := by
  have hvisits : (applyVisits fs e now w).map Prod.fst = e.mNodes := visits_map_fst _ _ _
  rw [applyLocked_mNodes, ← hvisits]
  simp [applyNode_cfg]

/-- No operation adds, drops or moves a node. -/
theorem exec_cfgs (op : EngineOp) (e : Engine) (w : σ) :
    (op.exec fs (e, w)).1.mNodes.map NodeState.cfg = e.mNodes.map NodeState.cfg := by
  cases hcalls : op.calls e with
  | none =>
      rcases EngineOp.exec_of_not_calls fs w hcalls with h | ⟨name, durationMs, h⟩
      · rw [h]
      · rw [h]
        exact pulseFirst_cfgs fs name durationMs e.mNodes w
  | some call =>
      obtain ⟨e', now⟩ := call
      rw [EngineOp.exec_of_calls fs w hcalls]
      refine (applyLocked_cfgs fs e' now w).trans ?_
      rcases EngineOp.calls_mNodes hcalls with h | h
      · rw [h]
      · simp [h]

/-- Every state of a run has its nodes as the constructor put them. -/
theorem built_of_reachable {cfgs : List NodeConfig} {s : Engine × σ}
    (hreach : Reachable (EngineStart cfgs) (EngineStep fs) s) : Built cfgs s.1 := by
  refine hreach.invariant (P := fun s => Built cfgs s.1) ?_ ?_
  · intro s hs
    rw [hs]
    rfl
  · intro s label t hbuilt hstep
    cases label with
    | op op =>
        rw [hstep]
        exact (exec_cfgs fs op s.1 s.2).trans hbuilt
    | env =>
        rw [hstep]
        exact hbuilt

end Reached

end Engine

/-- For every engine whose nodes have different names, whatever its nodes and
requests hold, every `now` and every outcome of every read and write. -/
theorem applyLocked_ordered_minimal_idempotent {σ : Type} (fs : Fs σ) (cfgs : List NodeConfig)
    (hnames : (cfgs.map NodeConfig.name).Nodup) (e : Engine) (hbuilt : Engine.Built cfgs e)
    (now : Time) (w : σ) :
    Engine.OrderedMinimal fs e now w ∧ Engine.SettlesAtOnce fs e now w :=
  ⟨hbuilt.orderedMinimal fs hnames now w, Engine.settlesAtOnce fs e now w⟩

/-- A switch that is put back after the hold, listed before the governor boost
and ordered after it. -/
def coreSwitch : NodeConfig where
  name := "hps"
  path := "/proc/hps/enabled"
  defaultValue := "0"
  release := .capture
  order := 1

/-- What a launch asks for. -/
def launchRequests : OrdMap String Request :=
  OrdMap.empty.insert "launch"
    ⟨(OrdMap.empty.insert "hps" "1").insert "ia_boost" "1", Deadline.never⟩

/-- Both are written in a launch, the boost first, and a second pass writes nothing. -/
theorem applyLocked_ordered_minimal_idempotent_launch :
    ∃ s, Reachable (EngineStart [coreSwitch, iaBoost]) (EngineStep steadyFs) s ∧
      (Engine.writesOf steadyFs { s.1 with mRequests := launchRequests } 0 s.2).map Write.path =
        [iaBoost.path, coreSwitch.path] ∧
      Engine.OrderedMinimal steadyFs { s.1 with mRequests := launchRequests } 0 s.2 ∧
      Engine.SettlesAtOnce steadyFs { s.1 with mRequests := launchRequests } 0 s.2 := by
  have hcreate : Reachable (EngineStart [coreSwitch, iaBoost]) (EngineStep steadyFs)
      (Engine.create [coreSwitch, iaBoost], ()) := Reachable.init rfl
  have hreset := Reachable.step hcreate
    (show EngineStep steadyFs _ (.op (.reset 0)) _ from rfl)
  have hbuilt : Engine.Built [coreSwitch, iaBoost]
      { (Engine.reset steadyFs 0 (Engine.create [coreSwitch, iaBoost]) ()).1 with
        mRequests := launchRequests } := Engine.built_of_reachable steadyFs hreset
  refine ⟨_, hreset, by decide, ?_⟩
  exact applyLocked_ordered_minimal_idempotent steadyFs [coreSwitch, iaBoost] (by decide) _
    hbuilt 0 ()

end MeizuM5c.Power
