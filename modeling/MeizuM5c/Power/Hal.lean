import MeizuM5c.Power.Adpf

/-!
The binder calls of the Power HAL (`Power.cpp`). A call that gets past its
first checks takes the HAL's lock for its whole duration; what it then does
to the engine and to ADPF, which have locks of their own, is a list of
actions that other threads may come between.
-/

namespace MeizuM5c.Power

open Lib

/-- The modes that `setMode` tells apart; it ignores all others. -/
inductive Mode where
  | launch
  | interactive
  | displayInactive
  | lowPower
  | other (name : String)
  deriving DecidableEq, Repr

def Mode.toString : Mode → String
  | .launch => "LAUNCH"
  | .interactive => "INTERACTIVE"
  | .displayInactive => "DISPLAY_INACTIVE"
  | .lowPower => "LOW_POWER"
  | .other name => name

inductive Boost where
  | interaction
  | other (name : String)
  deriving DecidableEq, Repr

def Boost.toString : Boost → String
  | .interaction => "INTERACTION"
  | .other name => name

/-- The members of `Power` that its lock protects. -/
structure PowerState where
  mScreenOff : Bool := false
  mLowPower : Bool := false
  deriving DecidableEq, Repr

inductive PowerAction where
  | engine (op : EngineOp)
  | suppress (suppressed : Bool) (now : Time)

/-- `OffList` over the values of its two properties. -/
def offList (debugProp vendorProp : String) : List String :=
  let v := if debugProp = "" then vendorProp else debugProp
  if v = "none" then []
  else
    let parts := (v.toList.splitOnP (· == ',')).map (fun part =>
      ((part.dropWhile isSpace).reverse.dropWhile isSpace).reverse)
    (parts.filter (fun part => !part.isEmpty)).map String.ofList

def without (set : ValueMap) (off : List String) : ValueMap :=
  set.filter (fun node _ => !off.contains node)

def pulses (off : List String) (durationMs : Int) (names : List String) : List PowerAction :=
  (names.filter (fun name => !off.contains name)).map (fun name =>
    .engine (.pulse name durationMs))

def updateAdpfSuppression (p : PowerState) (now : Time) : PowerAction :=
  .suppress (p.mScreenOff || p.mLowPower) now

def setModeLaunch (cfg : Config) (off : List String) (clock : Nat → Time) (enabled : Bool)
    (p : PowerState) : List PowerAction :=
  match cfg.requests.find? "launch" with
  | none => []
  | some rc =>
      if !enabled || p.mScreenOff || off.contains "launch" then
        [.engine (.clearRequest "launch" (clock 0))]
      else
        pulses off (min rc.pulseMs rc.pulseMaxMs) rc.pulse ++
          [.engine (.setRequest "launch" (without rc.set off)
            (Deadline.atTime (clock 0 + milliseconds rc.maxMs)) false (clock 0))]

def setModeScreen (clock : Nat → Time) (screenOff : Bool) (p : PowerState) :
    PowerState × List PowerAction :=
  let p := { p with mScreenOff := screenOff }
  (p, (if p.mScreenOff then [.engine (.clearAll (clock 0))] else []) ++
    [updateAdpfSuppression p (clock 1)])

def setModeLowPower (clock : Nat → Time) (enabled : Bool) (p : PowerState) :
    PowerState × List PowerAction :=
  let p := { p with mLowPower := enabled }
  (p, (if p.mLowPower then
      [.engine (.clearRequest "interaction" (clock 0)),
        .engine (.clearRequest "fling" (clock 1))]
    else []) ++ [updateAdpfSuppression p (clock 2)])

/-- `setMode` once it holds the lock: the members it updates, and what it
then does. `clock i` is the time that its `i`-th call reads. -/
def setMode (cfg : Config) (off : List String) (clock : Nat → Time) (type : Mode)
    (enabled : Bool) (p : PowerState) : PowerState × List PowerAction :=
  match type with
  | .launch => (p, setModeLaunch cfg off clock enabled p)
  | .interactive => setModeScreen clock (!enabled) p
  | .displayInactive => setModeScreen clock enabled p
  | .lowPower => setModeLowPower clock enabled p
  | .other _ => (p, [])

/-- The part of `setBoost` after a request has been found for it. -/
def boostActions (off : List String) (clock : Nat → Time) (fling : Bool) (source : String)
    (durationMs : Int) (rc : RequestConfig) : List PowerAction :=
  let pulseMs := clamp (if 0 < durationMs then durationMs else rc.pulseMs) 1 rc.pulseMaxMs
  let set := without rc.set off
  let holdMs := if fling then max durationMs rc.flingMinMs else max rc.holdMs durationMs
  pulses off pulseMs rc.pulse ++
    (if set.isEmpty then []
      else [.engine (.setRequest source set
        (Deadline.atTime (clock 0 + milliseconds holdMs)) true (clock 0))])

/-- `setBoost` once it holds the lock. -/
def setBoost (cfg : Config) (off : List String) (clock : Nat → Time) (durationMs : Int)
    (p : PowerState) : List PowerAction :=
  if p.mScreenOff || p.mLowPower then []
  else
    -- a fling uses its own request when the device has one
    let fling := decide (0 < durationMs) && (cfg.requests.find? "fling").isSome
    let source := if fling then "fling" else "interaction"
    match cfg.requests.find? source with
    | none => []
    | some rc =>
        if off.contains source then []
        else if durationMs ≤ 0 ∧ rc.ignoreZeroDuration then []
        else boostActions off clock fling source durationMs rc

end MeizuM5c.Power
