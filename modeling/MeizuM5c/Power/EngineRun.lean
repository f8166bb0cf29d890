import Mathlib.Data.Set.Lattice
import MeizuM5c.Power.Engine

/-!
What every run of the engine's public operations keeps. `Reference` states
the aggregate of a node over the set of its live tokens, without folding over
them; `targetLocked` is shown to compute it, and one pass of `applyLocked` to
write it. The write history of a node then explains its `written` cache in
every reachable state.
-/

namespace MeizuM5c.Power

open Lib

namespace Engine

section OneNode

variable {σ : Type} (fs : Fs σ)

/-- Everything a write attempt does to a node. A successful write is cached,
except on a pulse node; a failed one clears the cache. -/
theorem writeLocked_spec (node : NodeState) (value : String) (w : σ) :
    let ok := (writeLocked fs node value w).1.1
    let after := (writeLocked fs node value w).1.2
    after.cfg = node.cfg ∧ after.captured = node.captured ∧
      after.releasedKhz = node.releasedKhz ∧
      after.attempts = ⟨value, ok⟩ :: node.attempts ∧
      after.written = (if ok then
        (if node.cfg.type = .pulse then node.written else some value) else none) ∧
      after.writes = (if ok then node.writes + 1 else node.writes) := by
  unfold writeLocked
  split
  · simp
  · simp only
    split <;> simp

/-- Putting a value node back keeps its history, and gives up the cache only
where nothing is written. -/
theorem releasedValue_spec (node : NodeState) :
    let target := (releasedValue node).1
    let after := (releasedValue node).2
    after.cfg = node.cfg ∧ after.attempts = node.attempts ∧ after.writes = node.writes ∧
      (after.written = node.written ∨ (target = none ∧ after.written = none)) := by
  unfold releasedValue
  split
  · simp
  · simp
  · split
    · simp
    · split <;> simp

/-- A capture fills in the captured value and nothing else. -/
theorem captureLocked_some {node node' : NodeState} {w w' : σ}
    (h : captureLocked fs node w = (some node', w')) :
    ∃ captured, node' = { node with captured } := by
  unfold captureLocked at h
  split at h
  · split at h
    · cases h
    · cases h
      exact ⟨_, rfl⟩
  · cases h
    exact ⟨node.captured, rfl⟩

/-- Computing a target touches neither the configuration nor the write
history, and the cache only to clear it when there is no target. -/
theorem targetLocked_spec (requests : OrdMap String Request) (node : NodeState) (w : σ) :
    let target := (targetLocked fs requests node w).1.1
    let after := (targetLocked fs requests node w).1.2
    after.cfg = node.cfg ∧ after.attempts = node.attempts ∧ after.writes = node.writes ∧
      (after.written = node.written ∨ (target = none ∧ after.written = none)) := by
  unfold targetLocked
  simp only
  split
  · split
    · simp
    · split <;> simp
  · simp
  · split
    · exact releasedValue_spec node
    · split
      · simp
      · rename_i node' w' hcapture
        obtain ⟨captured, rfl⟩ := captureLocked_some fs hcapture
        simp
  · simp

end OneNode

section Reference

/-- The tokens that the requests still live at `now` give for a node. -/
def liveTokens (requests : OrdMap String Request) (now : Time) (name : String) : Set String :=
  {token | ∃ source request, (source, request) ∈ requests.entries ∧
    Deadline.atTime now < request.untilTime ∧ request.values.find? name = some token}

/-- What a cpufreq floor should hold: the greatest of the released value and
the resolved tokens, capped by the ceiling. -/
def CpufreqReference (released ceiling : Int) (tokens : Set String) (t : String) : Prop :=
  ∃ khz, IsGreatest ({released} ∪
      {v | ∃ token ∈ tokens, resolveKhz token (some ceiling) = some v}) khz ∧
    t = toString (min khz ceiling)

/-- What a PPM floor should hold: the cluster with the greatest resolved
token, capped by the ceiling if there is one, or with -1. -/
def PpmReference (cluster : Int) (ceiling : Option Int) (tokens : Set String)
    (t : String) : Prop :=
  (∃ khz, IsGreatest {v | ∃ token ∈ tokens, resolveKhz token ceiling = some v} khz ∧
    t = toString cluster ++ " " ++
      toString (match ceiling with
        | some c => min khz c
        | none => khz)) ∨
  ((∀ token ∈ tokens, resolveKhz token ceiling = none) ∧
    t = toString cluster ++ " " ++ "-1")

/-- What a value node should hold while some token asks for it. Under
`maxFields` each column is maximised on its own. -/
def ValueReference (cfg : NodeConfig) (tokens : Set String) (t : String) : Prop :=
  match cfg.aggregate with
  | .maxInt =>
      (∃ best, IsGreatest {v | ∃ token ∈ tokens, parseInt token = some v} best ∧
        t = toString best) ∨
      ((∀ token ∈ tokens, parseInt token = none) ∧ t = cfg.defaultValue)
  | .maxFields =>
      (∃ best : List Int, best ≠ [] ∧
        (∀ (i : Nat) (m : Int), best[i]? = some m ↔
          IsGreatest {v | ∃ token ∈ tokens, (parseFields token)[i]? = some v} m) ∧
        t = " ".intercalate (best.map toString)) ∨
      ((∀ token ∈ tokens, parseFields token = []) ∧ t = cfg.defaultValue)

/-- The reference aggregate of a node over the set of its live tokens, or its
released value when there are none. -/
def Reference (cfg : NodeConfig) (released ceiling : Option Int) (captured : Option String)
    (tokens : Set String) (t : String) : Prop :=
  match cfg.type with
  | .cpufreqFloor => ∃ r c, released = some r ∧ ceiling = some c ∧
      CpufreqReference r c tokens t
  | .ppmFloor => PpmReference cfg.cluster ceiling tokens t
  | .value =>
      (tokens.Nonempty ∧ ValueReference cfg tokens t) ∨
      (tokens = ∅ ∧ match cfg.release with
        | .default => t = cfg.defaultValue
        | .none => False
        | .capture => captured = some t)
  | .pulse => False

theorem mem_dropExpired (requests : OrdMap String Request) (now : Time)
    (e : String × Request) :
    e ∈ (dropExpired requests now).entries ↔
      e ∈ requests.entries ∧ Deadline.atTime now < e.2.untilTime := by
  simp [dropExpired, OrdMap.mem_filter]

/-- The loop over the remaining requests collects exactly the live tokens. -/
theorem mem_tokensFor_dropExpired (requests : OrdMap String Request) (now : Time)
    (name token : String) :
    token ∈ tokensFor (dropExpired requests now) name ↔
      token ∈ liveTokens requests now name := by
  simp only [tokensFor, List.mem_filterMap, mem_dropExpired, liveTokens, Set.mem_ofPred_eq]
  constructor
  · rintro ⟨e, ⟨hmem, hlive⟩, hvalue⟩
    exact ⟨e.1, e.2, hmem, hlive, hvalue⟩
  · rintro ⟨source, request, hmem, hlive, hvalue⟩
    exact ⟨(source, request), ⟨hmem, hlive⟩, hvalue⟩

private theorem readings_eq {α : Type} (read : String → Option α) (tokens : List String)
    (live : Set String) (h : ∀ token, token ∈ tokens ↔ token ∈ live) :
    readings read tokens = {v | ∃ token ∈ live, read token = some v} := by
  ext v
  simp [readings, h]

theorem cpufreqTarget_reference (released ceiling : Int) (tokens : List String)
    (live : Set String) (h : ∀ token, token ∈ tokens ↔ token ∈ live) :
    CpufreqReference released ceiling live (cpufreqTarget released ceiling tokens) := by
  refine ⟨_, ?_, rfl⟩
  rw [← readings_eq (fun t => resolveKhz t (some ceiling)) tokens live h]
  exact maxFrom_isGreatest _ released tokens

theorem ppmTarget_reference (cluster : Int) (ceiling : Option Int) (tokens : List String)
    (live : Set String) (h : ∀ token, token ∈ tokens ↔ token ∈ live) :
    PpmReference cluster ceiling live (ppmTarget cluster ceiling tokens) := by
  have hset := readings_eq (fun t => resolveKhz t ceiling) tokens live h
  unfold ppmTarget
  cases hmax : maxOpt (fun t => resolveKhz t ceiling) tokens with
  | none =>
      right
      have hnone := (maxOpt_eq_none_iff _ _).mp hmax
      exact ⟨fun token htoken => hnone token ((h token).mpr htoken), by cases ceiling <;> rfl⟩
  | some khz =>
      left
      refine ⟨khz, ?_, by cases ceiling <;> rfl⟩
      rw [← hset]
      exact (maxOpt_eq_some_iff _ _ _).mp hmax

theorem valueTarget_reference (cfg : NodeConfig) (tokens : List String)
    (live : Set String) (h : ∀ token, token ∈ tokens ↔ token ∈ live) :
    ValueReference cfg live (valueTarget cfg tokens) := by
  unfold ValueReference valueTarget
  cases cfg.aggregate with
  | maxInt =>
      simp only
      cases hmax : maxOpt parseInt tokens with
      | none =>
          right
          have hnone := (maxOpt_eq_none_iff _ _).mp hmax
          exact ⟨fun token htoken => hnone token ((h token).mpr htoken), rfl⟩
      | some best =>
          left
          refine ⟨best, ?_, rfl⟩
          rw [← readings_eq parseInt tokens live h]
          exact (maxOpt_eq_some_iff _ _ _).mp hmax
  | maxFields =>
      simp only
      have hbot : ∀ t ∈ tokens, ∀ x ∈ parseFields t, int64Min ≤ x := by
        intro t _ x hx
        have hrange := parseFields_range hx
        simp only [inInt64, decide_eq_true_eq] at hrange
        exact hrange.1
      have hcolumn := foldl_fieldMax_getElem? int64Min parseFields tokens hbot
      generalize tokens.foldl (fun best t => fieldMax int64Min best (parseFields t)) [] =
        best at hcolumn ⊢
      cases best with
      | nil =>
          right
          refine ⟨?_, rfl⟩
          intro token htoken
          have hnone := (maxOpt_eq_none_iff _ _).mp (hcolumn 0).symm token ((h token).mpr htoken)
          simpa using hnone
      | cons b best =>
          left
          refine ⟨b :: best, by simp, ?_, by simp⟩
          intro i m
          rw [hcolumn i, maxOpt_eq_some_iff, readings_eq _ tokens live h]

theorem releasedValue_reference {node : NodeState} {t : String}
    (h : (releasedValue node).1 = some t) :
    match node.cfg.release with
    | .default => t = node.cfg.defaultValue
    | .none => False
    | .capture => node.captured = some t := by
  unfold releasedValue at h
  cases hrelease : node.cfg.release with
  | default =>
      simp only [hrelease, Option.some.injEq] at h ⊢
      exact h.symm
  | none => simp [hrelease] at h
  | capture =>
      simp only [hrelease] at h ⊢
      split at h
      · cases h
      · rename_i captured hcaptured
        split at h
        · cases h
        · rw [hcaptured]
          exact h

/-- A computed target is the reference aggregate of the live tokens. -/
theorem targetLocked_reference {σ : Type} (fs : Fs σ) (requests : OrdMap String Request)
    (now : Time) (node : NodeState) (w : σ) (t : String)
    (htarget : (targetLocked fs (dropExpired requests now) node w).1.1 = some t) :
    Reference node.cfg
      (targetLocked fs (dropExpired requests now) node w).1.2.releasedKhz
      (readKhz fs node.cfg.maxPath w).1 node.captured
      (liveTokens requests now node.cfg.name) t := by
  have hmem := mem_tokensFor_dropExpired requests now node.cfg.name
  unfold targetLocked at htarget ⊢
  simp only at htarget ⊢
  unfold Reference
  generalize tokensFor (dropExpired requests now) node.cfg.name = tokens at hmem htarget ⊢
  cases htype : node.cfg.type with
  | cpufreqFloor =>
      simp only [htype] at htarget ⊢
      cases hceiling : readKhz fs node.cfg.maxPath w with
      | mk ceiling w' =>
          cases ceiling with
          | none => simp [hceiling] at htarget
          | some c =>
              simp only [hceiling] at htarget ⊢
              split at htarget
              · simp at htarget
              · rename_i r hr
                simp only [Option.some.injEq] at htarget
                refine ⟨r, c, ?_, rfl, ?_⟩
                · simp [hr]
                · rw [← htarget]
                  exact cpufreqTarget_reference r c tokens _ hmem
  | ppmFloor =>
      simp only [htype, Option.some.injEq] at htarget ⊢
      rw [← htarget]
      exact ppmTarget_reference _ _ tokens _ hmem
  | value =>
      simp only [htype] at htarget ⊢
      split at htarget
      · rename_i hempty
        have hnil : tokens = [] := by simpa using hempty
        right
        refine ⟨?_, releasedValue_reference htarget⟩
        ext token
        simp [← hmem token, hnil]
      · rename_i hnonempty
        left
        obtain ⟨token, htoken⟩ := List.exists_mem_of_ne_nil tokens (by simpa using hnonempty)
        refine ⟨⟨token, (hmem token).mp htoken⟩, ?_⟩
        split at htarget
        · cases htarget
        · rename_i node' w' hcapture
          obtain ⟨captured, rfl⟩ := captureLocked_some fs hcapture
          simp only [Option.some.injEq] at htarget
          rw [← htarget]
          exact valueTarget_reference _ tokens _ hmem
  | pulse => simp [htype] at htarget

end Reference

section Pass

variable {σ : Type} (fs : Fs σ)

/-- Without a target the pass leaves the node as computing it did. -/
theorem applyNode_of_target_none (requests : OrdMap String Request) (node : NodeState)
    (w : σ) (htype : node.cfg.type ≠ .pulse)
    (h : (targetLocked fs requests node w).1.1 = none) :
    (applyNode fs requests node w).1 = ((targetLocked fs requests node w).1.2, false) := by
  unfold applyNode
  rw [if_neg htype]
  cases htarget : targetLocked fs requests node w with
  | mk result w' =>
      obtain ⟨target, node'⟩ := result
      rw [htarget] at h
      cases h
      rfl

/-- With a target the pass skips a node that holds it already, and otherwise
makes one write attempt of it. -/
theorem applyNode_of_target_some (requests : OrdMap String Request) (node : NodeState)
    (w : σ) (htype : node.cfg.type ≠ .pulse) {t : String}
    (h : (targetLocked fs requests node w).1.1 = some t) :
    let mid := (targetLocked fs requests node w).1.2
    (applyNode fs requests node w).1 =
      if mid.written = some t then (mid, false)
      else
        let wrote := (writeLocked fs mid t (targetLocked fs requests node w).2).1
        (wrote.2, !wrote.1 && wrote.2.writes == 0) := by
  unfold applyNode
  rw [if_neg htype]
  cases htarget : targetLocked fs requests node w with
  | mk result w' =>
      obtain ⟨target, node'⟩ := result
      rw [htarget] at h
      cases h
      simp only
      split <;> rfl

theorem applyNode_cfg (requests : OrdMap String Request) (node : NodeState) (w : σ) :
    (applyNode fs requests node w).1.1.cfg = node.cfg := by
  by_cases htype : node.cfg.type = .pulse
  · simp [applyNode, htype]
  · have hcfg := (targetLocked_spec fs requests node w).1
    cases htarget : (targetLocked fs requests node w).1.1 with
    | none =>
        rw [applyNode_of_target_none fs requests node w htype htarget]
        exact hcfg
    | some t =>
        rw [applyNode_of_target_some fs requests node w htype htarget]
        split
        · exact hcfg
        · exact (writeLocked_spec fs _ t _).1.trans hcfg

/-- The loop of `applyLocked` with the file-system state in which it reaches
each node. -/
def applyVisits (e : Engine) (now : Time) (w : σ) : List (NodeState × σ) :=
  visits (applyNode fs (dropExpired e.mRequests now)) e.mNodes w

theorem applyLocked_mNodes (e : Engine) (now : Time) (w : σ) :
    (applyLocked fs e now w).1.2.mNodes = (applyVisits fs e now w).map
      (fun v => (applyNode fs (dropExpired e.mRequests now) v.1 v.2).1.1) := by
  simp only [applyLocked, applyVisits, threadMap_fst, List.map_map, Function.comp_def]

@[simp] theorem applyLocked_mRequests (e : Engine) (now : Time) (w : σ) :
    (applyLocked fs e now w).1.2.mRequests = dropExpired e.mRequests now := rfl

/-- A property of single nodes that every way of touching a node keeps. -/
structure KeptByNodes (P : NodeState → Prop) : Prop where
  write : ∀ node value w, P node → P (writeLocked fs node value w).1.2
  target : ∀ requests node w, P node → P (targetLocked fs requests node w).1.2
  duration : ∀ node us w, P node → P (pulseDuration fs node us w).1
  reset : ∀ node : NodeState, P node → P { node with written := none }

variable {fs}

theorem KeptByNodes.applyNode {P : NodeState → Prop} (hkept : KeptByNodes fs P)
    (requests : OrdMap String Request) (node : NodeState) (w : σ) (h : P node) :
    P (applyNode fs requests node w).1.1 := by
  by_cases htype : node.cfg.type = .pulse
  · unfold Engine.applyNode
    rw [if_pos htype]
    exact h
  · have hmid := hkept.target requests node w h
    cases htarget : (targetLocked fs requests node w).1.1 with
    | none =>
        rw [applyNode_of_target_none fs requests node w htype htarget]
        exact hmid
    | some t =>
        rw [applyNode_of_target_some fs requests node w htype htarget]
        split
        · exact hmid
        · exact hkept.write _ t _ hmid

theorem KeptByNodes.applyLocked {P : NodeState → Prop} (hkept : KeptByNodes fs P)
    (e : Engine) (now : Time) (w : σ) (h : ∀ node ∈ e.mNodes, P node) :
    ∀ node ∈ (applyLocked fs e now w).1.2.mNodes, P node := by
  simp only [Engine.applyLocked, List.mem_map, forall_exists_index, and_imp]
  rintro node result hresult rfl
  exact forall_mem_threadMap (P := fun result => P result.1)
    (fun x hx w => hkept.applyNode _ x w (h x hx)) w result hresult

theorem KeptByNodes.pulseFirst {P : NodeState → Prop} (hkept : KeptByNodes fs P)
    (name : String) (durationMs : Int) (nodes : List NodeState) (w : σ)
    (h : ∀ node ∈ nodes, P node) :
    ∀ node ∈ (pulseFirst fs name durationMs nodes w).1, P node := by
  induction nodes generalizing w with
  | nil => simp [Engine.pulseFirst]
  | cons first rest ih =>
      obtain ⟨hfirst, hrest⟩ := List.forall_mem_cons.mp h
      unfold Engine.pulseFirst
      split_ifs with hname htype
      · refine List.forall_mem_cons.mpr ⟨?_, hrest⟩
        exact hkept.write _ "1" _ (hkept.duration first (durationMs * 1000) w hfirst)
      · exact h
      · exact List.forall_mem_cons.mpr ⟨hfirst, ih w hrest⟩

variable (fs)

/-- The write history explains the cache; a pulse node caches nothing. -/
def NodeExplained (node : NodeState) : Prop :=
  (∀ v, node.written = some v → node.attempts.head? = some ⟨v, true⟩) ∧
    (node.cfg.type = .pulse → node.written = none)

theorem NodeExplained.of_written_none {node : NodeState} (h : node.written = none) :
    NodeExplained node := by
  refine ⟨?_, fun _ => h⟩
  intro v hv
  rw [h] at hv
  cases hv

theorem pulseDuration_spec (node : NodeState) (us : Int) (w : σ) :
    let after := (pulseDuration fs node us w).1
    after.cfg = node.cfg ∧ after.written = node.written ∧ after.captured = node.captured ∧
      after.attempts = node.attempts ∧ after.writes = node.writes := by
  unfold pulseDuration
  split
  · split <;> simp
  · simp

theorem nodeExplained_kept : KeptByNodes fs NodeExplained where
  write := by
    intro node value w h
    obtain ⟨hcfg, _, _, hattempts, hwritten, _⟩ := writeLocked_spec fs node value w
    refine ⟨?_, ?_⟩
    · intro v hv
      rw [hwritten] at hv
      split at hv
      · rename_i hok
        split at hv
        · rename_i htype
          rw [h.2 htype] at hv
          cases hv
        · rw [hattempts, hok, List.head?_cons, Option.some.inj hv]
      · cases hv
    · intro htype
      rw [hcfg] at htype
      rw [hwritten, if_pos htype, h.2 htype]
      split <;> rfl
  target := by
    intro requests node w h
    obtain ⟨hcfg, hattempts, _, hwritten⟩ := targetLocked_spec fs requests node w
    rcases hwritten with hsame | ⟨_, hnone⟩
    · unfold NodeExplained
      rw [hcfg, hattempts, hsame]
      exact h
    · exact NodeExplained.of_written_none hnone
  duration := by
    intro node us w h
    obtain ⟨hcfg, hwritten, _, hattempts, _⟩ := pulseDuration_spec fs node us w
    unfold NodeExplained
    rw [hcfg, hattempts, hwritten]
    exact h
  reset := fun _ _ => NodeExplained.of_written_none rfl

end Pass

end Engine

/-- The public operations of the engine with their arguments. -/
inductive EngineOp where
  | reset (now : Time)
  | setRequest (source : String) (values : ValueMap) (untilTime : Deadline) (extend : Bool)
      (now : Time)
  | clearRequest (source : String) (now : Time)
  | clearAll (now : Time)
  | pulse (name : String) (durationMs : Int)
  | apply (now : Time)

namespace EngineOp

open Engine

def exec {σ : Type} (fs : Fs σ) : EngineOp → Engine × σ → Engine × σ
  | .reset now, (e, w) => Engine.reset fs now e w
  | .setRequest source values untilTime extend now, (e, w) =>
      Engine.setRequest fs source values untilTime extend now e w
  | .clearRequest source now, (e, w) => Engine.clearRequest fs source now e w
  | .clearAll now, (e, w) => Engine.clearAll fs now e w
  | .pulse name durationMs, (e, w) => Engine.pulse fs name durationMs e w
  | .apply now, (e, w) => Engine.apply fs now e w

/-- The state in which the operation calls `applyLocked`, with its `now`;
`none` for an operation that does not call it. -/
def calls : EngineOp → Engine → Option (Engine × Time)
  | .reset now, e => some ({ e with
      mRequests := OrdMap.empty
      mNodes := e.mNodes.map (fun node => { node with written := none })
      mRetryUntil := now + kRetryWindow }, now)
  | .setRequest source values untilTime extend now, e =>
      let request := Request.mk values (extendedUntil e.mRequests source untilTime extend now)
      some ({ e with mRequests := e.mRequests.insert source request }, now)
  | .clearRequest source now, e =>
      if e.mRequests.find? source = none then none
      else some ({ e with mRequests := e.mRequests.erase source }, now)
  | .clearAll now, e =>
      if e.mRequests.isEmpty then none
      else some ({ e with mRequests := OrdMap.empty }, now)
  | .pulse _ _, _ => none
  | .apply now, e => some (e, now)

/-- The worker is told of the call unless it is `reset` or `apply`. -/
def raisesDirty : EngineOp → Bool
  | .setRequest .. => true
  | .clearRequest .. => true
  | .clearAll .. => true
  | _ => false

variable {σ : Type} (fs : Fs σ)

/-- Apart from the dirty flag, an operation that calls `applyLocked` ends in
the state `applyLocked` leaves. -/
theorem exec_of_calls {op : EngineOp} {e e' : Engine} {now : Time} (w : σ)
    (h : op.calls e = some (e', now)) :
    op.exec fs (e, w) = ({ (applyLocked fs e' now w).1.2 with
      mDirty := op.raisesDirty || e.mDirty }, (applyLocked fs e' now w).2) := by
  cases op with
  | reset now =>
      cases h
      rfl
  | setRequest source values untilTime extend now =>
      cases h
      rfl
  | clearRequest source now =>
      simp only [calls] at h
      split at h
      · cases h
      · rename_i hfound
        cases h
        simp only [exec, Engine.clearRequest, if_neg hfound]
        rfl
  | clearAll now =>
      simp only [calls] at h
      split at h
      · cases h
      · rename_i hempty
        cases h
        simp only [exec, Engine.clearAll, if_neg hempty]
        rfl
  | pulse name durationMs => cases h
  | apply now =>
      cases h
      rfl

/-- An operation that does not call `applyLocked` is a pulse or does nothing. -/
theorem exec_of_not_calls {op : EngineOp} {e : Engine} (w : σ) (h : op.calls e = none) :
    op.exec fs (e, w) = (e, w) ∨
      ∃ name durationMs, op.exec fs (e, w) = Engine.pulse fs name durationMs e w := by
  cases op with
  | reset now => cases h
  | setRequest source values untilTime extend now => cases h
  | clearRequest source now =>
      left
      simp only [calls] at h
      split at h
      · rename_i hfound
        simp only [exec, Engine.clearRequest, if_pos hfound]
      · cases h
  | clearAll now =>
      left
      simp only [calls] at h
      split at h
      · rename_i hempty
        simp only [exec, Engine.clearAll, if_pos hempty]
      · cases h
  | pulse name durationMs => exact Or.inr ⟨name, durationMs, rfl⟩
  | apply now => cases h

variable {fs}

/-- On the way to `applyLocked` only `reset` touches the nodes. -/
theorem calls_mNodes {op : EngineOp} {e e' : Engine} {now : Time}
    (h : op.calls e = some (e', now)) :
    e'.mNodes = e.mNodes ∨
      e'.mNodes = e.mNodes.map (fun node => { node with written := none }) := by
  cases op with
  | reset now =>
      cases h
      exact Or.inr rfl
  | setRequest source values untilTime extend now =>
      cases h
      exact Or.inl rfl
  | clearRequest source now =>
      simp only [calls] at h
      split at h
      · cases h
      · cases h
        exact Or.inl rfl
  | clearAll now =>
      simp only [calls] at h
      split at h
      · cases h
      · cases h
        exact Or.inl rfl
  | pulse name durationMs => cases h
  | apply now =>
      cases h
      exact Or.inl rfl

theorem calls_kept {P : NodeState → Prop} (hkept : KeptByNodes fs P) {op : EngineOp}
    {e e' : Engine} {now : Time} (h : op.calls e = some (e', now))
    (he : ∀ node ∈ e.mNodes, P node) : ∀ node ∈ e'.mNodes, P node := by
  rcases calls_mNodes h with hsame | hreset
  · rw [hsame]
    exact he
  · rw [hreset]
    simp only [List.mem_map, forall_exists_index, and_imp]
    rintro node old hold rfl
    exact hkept.reset old (he old hold)

/-- Every operation keeps what every touch of a node keeps. -/
theorem exec_kept {P : NodeState → Prop} (hkept : KeptByNodes fs P) (op : EngineOp)
    (e : Engine) (w : σ) (he : ∀ node ∈ e.mNodes, P node) :
    ∀ node ∈ (op.exec fs (e, w)).1.mNodes, P node := by
  cases hcalls : op.calls e with
  | none =>
      rcases exec_of_not_calls fs w hcalls with h | ⟨name, durationMs, h⟩
      · rw [h]
        exact he
      · rw [h]
        exact hkept.pulseFirst name durationMs e.mNodes w he
  | some call =>
      obtain ⟨e', now⟩ := call
      rw [exec_of_calls fs w hcalls]
      exact hkept.applyLocked e' now w (calls_kept hkept hcalls he)

end EngineOp

/-- A step of a run: an operation, or anything else that happens to the file
system between two operations. -/
inductive EngineLabel where
  | op (op : EngineOp)
  | env

def EngineStep {σ : Type} (fs : Fs σ) (s : Engine × σ) : EngineLabel → Engine × σ → Prop
  | .op op, t => t = op.exec fs s
  | .env, t => t.1 = s.1

def EngineStart {σ : Type} (cfgs : List NodeConfig) (s : Engine × σ) : Prop :=
  s.1 = Engine.create cfgs

/-- The cached value of a node is the value of its last write attempt, and
that attempt succeeded. -/
def CacheExplained (e : Engine) : Prop :=
  ∀ node ∈ e.mNodes, ∀ v, node.written = some v → node.attempts.head? = some ⟨v, true⟩

/-- What an operation that runs `applyLocked` leaves behind: no expired
request, and every node with a computable target either holds it or had its
write refused; the target is the reference aggregate of the live tokens. -/
def AppliedLaw {σ : Type} (fs : Fs σ) (op : EngineOp) (s : Engine × σ) : Prop :=
  ∀ e now, op.calls s.1 = some (e, now) →
    (∀ entry ∈ (op.exec fs s).1.mRequests.entries, Deadline.atTime now < entry.2.untilTime) ∧
    ∀ (i : Nat) (node after : NodeState) (w : σ) (t : String),
      (Engine.applyVisits fs e now s.2)[i]? = some (node, w) →
      (op.exec fs s).1.mNodes[i]? = some after →
      node.cfg.type ≠ .pulse →
      (Engine.targetLocked fs (op.exec fs s).1.mRequests node w).1.1 = some t →
      (after.written = some t ∨
        (after.attempts = ⟨t, false⟩ :: node.attempts ∧ after.written = none)) ∧
      Engine.Reference node.cfg after.releasedKhz
        (Engine.readKhz fs node.cfg.maxPath w).1 node.captured
        (Engine.liveTokens e.mRequests now node.cfg.name) t

theorem appliedLaw {σ : Type} (fs : Fs σ) (op : EngineOp) (s : Engine × σ) :
    AppliedLaw fs op s := by
  obtain ⟨e₀, w₀⟩ := s
  intro e now hcalls
  rw [EngineOp.exec_of_calls fs w₀ hcalls]
  refine ⟨?_, ?_⟩
  · intro entry hentry
    exact ((Engine.mem_dropExpired e.mRequests now entry).mp hentry).2
  · intro i node after w t hvisit hafter htype htarget
    simp only [Engine.applyLocked_mRequests] at htarget
    simp only [Engine.applyLocked_mNodes, List.getElem?_map, hvisit, Option.map_some,
      Option.some.injEq] at hafter
    have hreference := Engine.targetLocked_reference fs e.mRequests now node w t htarget
    have hpass := Engine.applyNode_of_target_some fs _ node w htype htarget
    obtain ⟨hcfg, hattempts, _, _⟩ :=
      Engine.targetLocked_spec fs (Engine.dropExpired e.mRequests now) node w
    simp only at hpass
    generalize Engine.targetLocked fs (Engine.dropExpired e.mRequests now) node w = mid
      at hpass hreference hcfg hattempts
    split at hpass
    · rename_i hheld
      rw [hpass] at hafter
      subst hafter
      exact ⟨Or.inl hheld, hreference⟩
    · obtain ⟨_, _, hreleased, hattempts', hwritten, _⟩ :=
        Engine.writeLocked_spec fs mid.1.2 t mid.2
      rw [hpass] at hafter
      subst hafter
      refine ⟨?_, by rw [hreleased]; exact hreference⟩
      cases hok : (Engine.writeLocked fs mid.1.2 t mid.2).1.1 with
      | true =>
          left
          rw [hwritten, hok, hcfg]
          simp [htype]
      | false =>
          right
          rw [hwritten, hattempts', hok, hattempts]
          simp

/-- For every list of node configurations, every run of the operations, every
`now` and every outcome of every read and write. -/
theorem cacheExplained_of_reachable {σ : Type} {fs : Fs σ} {cfgs : List NodeConfig}
    {s : Engine × σ} (hreach : Reachable (EngineStart cfgs) (EngineStep fs) s) :
    CacheExplained s.1 := by
  have hinv : ∀ node ∈ s.1.mNodes, Engine.NodeExplained node := by
    refine hreach.invariant (P := fun s => ∀ node ∈ s.1.mNodes, Engine.NodeExplained node) ?_ ?_
    · intro s hs node hnode
      rw [hs] at hnode
      simp only [Engine.create, List.mem_map] at hnode
      obtain ⟨cfg, _, rfl⟩ := hnode
      exact Engine.NodeExplained.of_written_none rfl
    · intro s label t hs hstep
      cases label with
      | op op =>
          rw [hstep]
          exact EngineOp.exec_kept (Engine.nodeExplained_kept fs) op s.1 s.2 hs
      | env =>
          rw [hstep]
          exact hs
  exact fun node hnode => (hinv node hnode).1

/-- A file system in which every node reads as a number and takes any value. -/
def steadyFs : Fs Unit where
  read := fun _ w => (some "0\n", w)
  write := fun _ _ w => (.ok (), w)

/-- The governor boost of the shipped configuration. -/
def iaBoost : NodeConfig where
  name := "ia_boost"
  path := "/sys/devices/system/cpu/cpufreq/interactive/boost"
  defaultValue := "0"

end MeizuM5c.Power
