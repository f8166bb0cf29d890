import MeizuM5c.Lib.Greatest
import MeizuM5c.Lib.Transition
import MeizuM5c.Power.Config

/-!
The node engine of the Power HAL (`Engine.cpp`). The file system is a
parameter: `Fs σ` reads and writes nodes and may answer differently on every
call, because each call also steps the unknown state `σ`. Every public
operation runs under the engine's mutex, so it is one function here.
-/

namespace MeizuM5c.Power

open Lib

/-- `Engine::Fs`. A failed write carries its `errno`. -/
structure Fs (σ : Type) where
  read : String → σ → Option String × σ
  write : String → String → σ → Except Int Unit × σ

def EACCES : Int := 13

def ENOENT : Int := 2

/-- One call of `Fs::write` on the path of a node. -/
structure Attempt where
  value : String
  ok : Bool
  deriving DecidableEq, Repr

/-- `Engine::NodeState`. The last field is not in the source: it records the
write attempts on `cfg.path`, the newest first. -/
structure NodeState where
  cfg : NodeConfig
  written : Option String := none
  releasedKhz : Option Int := none
  pulseUs : Option Int := none
  captured : Option String := none
  writes : UInt64 := 0
  failures : UInt64 := 0
  deferred : UInt64 := 0
  lastError : Int := 0
  attempts : List Attempt := []

structure Request where
  values : ValueMap
  untilTime : Deadline

structure Engine where
  mNodes : List NodeState
  mRequests : OrdMap String Request := OrdMap.empty
  mDirty : Bool := false
  mStop : Bool := false
  mRetryUntil : Time := 0

namespace Engine

def kRetryPeriod : Int := milliseconds 500

def kRetryWindow : Int := milliseconds 60000

/-- The constructor's order: by `order`, then by name. -/
def nodeBefore (a b : NodeConfig) : Prop :=
  if a.order ≠ b.order then a.order < b.order else a.name < b.name

instance (a b : NodeConfig) : Decidable (nodeBefore a b) := by
  unfold nodeBefore
  infer_instance

/-- The constructor: a stable sort by `nodeBefore`, then one fresh state for
every configured node. -/
def create (nodes : List NodeConfig) : Engine where
  mNodes := (nodes.insertionSort (fun a b => ¬ nodeBefore b a)).map (fun cfg => { cfg := cfg })

section

variable {σ : Type} (fs : Fs σ)

def readKhz (path : String) (w : σ) : Option Int × σ :=
  if path = "" then (none, w)
  else
    match fs.read path w with
    | (none, w) => (none, w)
    | (some s, w) => (parseInt s, w)

def writeLocked (node : NodeState) (value : String) (w : σ) : (Bool × NodeState) × σ :=
  match fs.write node.cfg.path value w with
  | (.ok _, w) =>
      ((true, { node with
        writes := node.writes + 1
        written := if node.cfg.type = .pulse then node.written else some value
        attempts := ⟨value, true⟩ :: node.attempts }), w)
  | (.error err, w) =>
      let node : NodeState := { node with
        lastError := err
        written := none
        attempts := ⟨value, false⟩ :: node.attempts }
      -- not ours yet: no failure until the node has been written once
      if node.writes == 0 && (err == EACCES || err == ENOENT) then
        ((false, { node with deferred := node.deferred + 1 }), w)
      else
        ((false, { node with failures := node.failures + 1 }), w)

/-- The tokens that the requests give for a node, in the order of the sources. -/
def tokensFor (requests : OrdMap String Request) (name : String) : List String :=
  requests.entries.filterMap (fun e => e.2.values.find? name)

def cpufreqTarget (released ceiling : Int) (tokens : List String) : String :=
  let khz := maxFrom (fun t => resolveKhz t (some ceiling)) released tokens
  toString (min khz ceiling)

def ppmTarget (cluster : Int) (ceiling : Option Int) (tokens : List String) : String :=
  let khz := maxOpt (fun t => resolveKhz t ceiling) tokens
  let khz := match khz, ceiling with
    | some k, some c => some (min k c)
    | k, _ => k
  toString cluster ++ " " ++ (match khz with
    | some k => toString k
    | none => "-1")

def int64Min : Int := -9223372036854775808

/-- The aggregate of a value node that some request asks for. -/
def valueTarget (cfg : NodeConfig) (tokens : List String) : String :=
  match cfg.aggregate with
  | .maxInt =>
      match maxOpt parseInt tokens with
      | some best => toString best
      | none => cfg.defaultValue
  | .maxFields =>
      let best := tokens.foldl (fun best t => fieldMax int64Min best (parseFields t)) []
      if best.isEmpty then cfg.defaultValue
      else " ".intercalate (best.map toString)

/-- A value node that no request asks for. -/
def releasedValue (node : NodeState) : Option String × NodeState :=
  match node.cfg.release with
  | .default => (some node.cfg.defaultValue, node)
  | .none => (none, { node with written := none })
  | .capture =>
      match node.captured with
      | none => (none, node)
      | some captured =>
          -- put back already
          if node.written = some captured then (none, { node with captured := none })
          else (some captured, node)

/-- The capture at the start of a hold; `none` when the node cannot be read. -/
def captureLocked (node : NodeState) (w : σ) : Option NodeState × σ :=
  if node.cfg.release = .capture ∧ node.captured = none then
    match fs.read node.cfg.path w with
    | (none, w) => (none, w)
    | (some current, w) => (some { node with captured := some (trim current) }, w)
  else (some node, w)

/-- The string the node should hold now, with what computing it changed. -/
def targetLocked (requests : OrdMap String Request) (node : NodeState) (w : σ) :
    (Option String × NodeState) × σ :=
  let tokens := tokensFor requests node.cfg.name
  match node.cfg.type with
  | .cpufreqFloor =>
      match readKhz fs node.cfg.maxPath w with
      | (none, w) => ((none, node), w)
      | (some ceiling, w) =>
          let (released, w) := match node.releasedKhz with
            | some r => (some r, w)
            | none => readKhz fs node.cfg.minInfoPath w
          let node : NodeState := { node with releasedKhz := released }
          match released with
          | none => ((none, node), w)
          | some r => ((some (cpufreqTarget r ceiling tokens), node), w)
  | .ppmFloor =>
      let (ceiling, w) := readKhz fs node.cfg.maxPath w
      ((some (ppmTarget node.cfg.cluster ceiling tokens), node), w)
  | .value =>
      if tokens.isEmpty then (releasedValue node, w)
      else
        match captureLocked fs node w with
        | (none, w) => ((none, node), w)
        | (some node, w) => ((some (valueTarget node.cfg tokens), node), w)
  | .pulse => ((none, node), w)

/-- One pass of the loop of `applyLocked`: the node afterwards, and whether it
counts as pending. -/
def applyNode (requests : OrdMap String Request) (node : NodeState) (w : σ) :
    (NodeState × Bool) × σ :=
  if node.cfg.type = .pulse then ((node, false), w)
  else
    match targetLocked fs requests node w with
    | ((none, node), w) => ((node, false), w)
    | ((some target, node), w) =>
        if node.written = some target then ((node, false), w)
        else
          match writeLocked fs node target w with
          | ((ok, node), w) => ((node, !ok && node.writes == 0), w)

/-- The requests that are left after those with `until <= now` are erased. -/
def dropExpired (requests : OrdMap String Request) (now : Time) : OrdMap String Request :=
  requests.filter (fun _ r => !decide (r.untilTime ≤ Deadline.atTime now))

def nextDeadline (requests : OrdMap String Request) : Deadline :=
  requests.entries.foldl (fun next e => min next e.2.untilTime) Deadline.never

def applyLocked (e : Engine) (now : Time) (w : σ) : (Deadline × Engine) × σ :=
  let live := dropExpired e.mRequests now
  let next := nextDeadline live
  let (results, w) := threadMap (applyNode fs live) e.mNodes w
  let pending := results.any Prod.snd
  let next := if pending ∧ now < e.mRetryUntil
    then min next (Deadline.atTime (now + kRetryPeriod)) else next
  ((next, { e with mRequests := live, mNodes := results.map Prod.fst }), w)

def reset (now : Time) (e : Engine) (w : σ) : Engine × σ :=
  let e : Engine := { e with
    mRequests := OrdMap.empty
    mNodes := e.mNodes.map (fun node => { node with written := none })
    mRetryUntil := now + kRetryWindow }
  let ((_, e), w) := applyLocked fs e now w
  (e, w)

/-- The deadline that `setRequest` stores: with `extend`, a live request of
the same source keeps the later one. -/
def extendedUntil (requests : OrdMap String Request) (source : String)
    (untilTime : Deadline) (extend : Bool) (now : Time) : Deadline :=
  match requests.find? source with
  | some old =>
      if extend ∧ Deadline.atTime now < old.untilTime then max untilTime old.untilTime
      else untilTime
  | none => untilTime

def setRequest (source : String) (values : ValueMap) (untilTime : Deadline) (extend : Bool)
    (now : Time) (e : Engine) (w : σ) : Engine × σ :=
  let untilTime := extendedUntil e.mRequests source untilTime extend now
  let e : Engine := { e with mRequests := e.mRequests.insert source ⟨values, untilTime⟩ }
  let ((_, e), w) := applyLocked fs e now w
  ({ e with mDirty := true }, w)

def clearRequest (source : String) (now : Time) (e : Engine) (w : σ) : Engine × σ :=
  if e.mRequests.find? source = none then (e, w)
  else
    let e : Engine := { e with mRequests := e.mRequests.erase source }
    let ((_, e), w) := applyLocked fs e now w
    ({ e with mDirty := true }, w)

def clearAll (now : Time) (e : Engine) (w : σ) : Engine × σ :=
  if e.mRequests.isEmpty then (e, w)
  else
    let e : Engine := { e with mRequests := OrdMap.empty }
    let ((_, e), w) := applyLocked fs e now w
    ({ e with mDirty := true }, w)

/-- The duration write of a pulse. -/
def pulseDuration (node : NodeState) (us : Int) (w : σ) : NodeState × σ :=
  if node.cfg.durationPath ≠ "" ∧ node.pulseUs ≠ some us then
    match fs.write node.cfg.durationPath (toString us) w with
    | (.ok _, w) => ({ node with pulseUs := some us }, w)
    | (.error err, w) =>
        ({ node with failures := node.failures + 1, lastError := err }, w)
  else (node, w)

def pulseNode (node : NodeState) (durationMs : Int) (w : σ) : NodeState × σ :=
  let (node, w) := pulseDuration fs node (durationMs * 1000) w
  let ((_, node), w) := writeLocked fs node "1" w
  (node, w)

/-- `findLocked` picks the first node of that name; a node of another type is
left alone. -/
def pulseFirst (name : String) (durationMs : Int) : List NodeState → σ → List NodeState × σ
  | [], w => ([], w)
  | node :: rest, w =>
      if node.cfg.name = name then
        if node.cfg.type = .pulse then
          let (node, w) := pulseNode fs node durationMs w
          (node :: rest, w)
        else (node :: rest, w)
      else
        let (rest, w) := pulseFirst name durationMs rest w
        (node :: rest, w)

def pulse (name : String) (durationMs : Int) (e : Engine) (w : σ) : Engine × σ :=
  let (nodes, w) := pulseFirst fs name durationMs e.mNodes w
  ({ e with mNodes := nodes }, w)

def apply (now : Time) (e : Engine) (w : σ) : Engine × σ :=
  let ((_, e), w) := applyLocked fs e now w
  (e, w)

end

end Engine

end MeizuM5c.Power
