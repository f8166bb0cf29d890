import Mathlib.Data.String.Basic
import Mathlib.Order.WithBot
import MeizuM5c.Lib.MachineInt
import MeizuM5c.Lib.OrdMap

/-!
The configuration records of the Power HAL (`Config.h`) and the reading of
value tokens (`Trim`, `ParseInt`, `ParseFields`, `ResolveKhz` of `Engine.cpp`).
Strings are read character by character through `toList`; times are
nanoseconds of the steady clock.
-/

namespace MeizuM5c.Power

open Lib

/-- A reading of the steady clock, in nanoseconds. -/
abbrev Time := Int

/-- A `Clock::time_point` used as a deadline. -/
def Deadline : Type := WithTop Int

instance : LinearOrder Deadline := @WithTop.linearOrder Int Int.instLinearOrder

def Deadline.atTime (t : Time) : Deadline := (t : WithTop Int)

/-- `time_point::max()`. -/
def Deadline.never : Deadline := (⊤ : WithTop Int)

@[simp] theorem Deadline.atTime_le_atTime (a b : Time) :
    Deadline.atTime a ≤ Deadline.atTime b ↔ a ≤ b := WithTop.coe_le_coe

@[simp] theorem Deadline.atTime_lt_atTime (a b : Time) :
    Deadline.atTime a < Deadline.atTime b ↔ a < b := WithTop.coe_lt_coe

@[simp] theorem Deadline.atTime_lt_never (t : Time) :
    Deadline.atTime t < Deadline.never := WithTop.coe_lt_top t

/-- `std::chrono::milliseconds` converted to the clock's duration: `int64_t` nanoseconds. -/
def milliseconds (ms : Int) : Int := wrapInt 64 (ms * 1000000)

theorem milliseconds_of_range {ms : Int} (hlo : -9223372036854 ≤ ms) (hhi : ms ≤ 9223372036854) :
    milliseconds ms = ms * 1000000 := by
  unfold milliseconds
  rw [wrapInt_64_eq_iff]
  omega

/-- Node name to value token. -/
abbrev ValueMap := OrdMap String String

inductive NodeType where
  | cpufreqFloor
  | ppmFloor
  | value
  | pulse
  deriving DecidableEq, Repr

inductive Aggregate where
  | maxInt
  | maxFields
  deriving DecidableEq, Repr

/-- What a value node holds when no request asks for it. -/
inductive Release where
  | default
  | none
  | capture
  deriving DecidableEq, Repr

structure NodeConfig where
  name : String
  type : NodeType := .value
  path : String
  maxPath : String := ""
  minInfoPath : String := ""
  durationPath : String := ""
  cluster : Int := -1
  defaultValue : String := ""
  aggregate : Aggregate := .maxInt
  release : Release := .default
  order : Int := 0
  deriving DecidableEq, Repr

structure RequestConfig where
  holdMs : Int := 0
  pulseMs : Int := 0
  pulseMaxMs : Int := 1000
  flingMinMs : Int := 0
  maxMs : Int := 0
  ignoreZeroDuration : Bool := false
  pulse : List String := []
  set : ValueMap := OrdMap.empty

/-- `lowWater actualNs targetNs` is the outcome of the floating-point test
`actualNs < lowWater * targetNs`; the factor itself is not modelled. -/
structure AdpfConfig where
  enabled : Bool := false
  reportRateMs : Int := 100
  staleMs : Int := 150
  lowWater : Int → Int → Bool
  levels : List ValueMap := []

structure Config where
  nodes : List NodeConfig := []
  requests : OrdMap String RequestConfig := OrdMap.empty
  adpf : AdpfConfig
  boosts : List String := []
  modes : List String := []

/-- The characters that `Trim` strips. -/
def isBlank (c : Char) : Bool := c == ' ' || c == '\t' || c == '\n'

/-- `isspace` in the C locale. -/
def isSpace (c : Char) : Bool :=
  isBlank c || c == '\r' || c == '\x0b' || c == '\x0c'

def trim (s : String) : String :=
  String.ofList ((s.toList.dropWhile isBlank).reverse.dropWhile isBlank).reverse

def decimal (digits : List Char) : Int :=
  digits.foldl (fun acc c => acc * 10 + (c.toNat - 48 : Nat)) 0

def inInt64 (v : Int) : Bool := decide (-9223372036854775808 ≤ v ∧ v ≤ 9223372036854775807)

/-- A non-empty run of digits that ends the string and fits an `int64_t`;
anything else makes `strtoll` stop early or set `errno`. -/
def parseDigits (negative : Bool) (digits : List Char) : Option Int :=
  if digits.isEmpty || !digits.all Char.isDigit then none
  else
    let v := if negative then -decimal digits else decimal digits
    if inInt64 v then some v else none

/-- `ParseInt`: `strtoll` in base 10 over the C string of the trimmed text,
which ends at the first NUL. -/
def parseInt (s : String) : Option Int :=
  let t := (trim s).toList
  if t.isEmpty then none
  else
    match (t.takeWhile (· != '\x00')).dropWhile isSpace with
    | '-' :: digits => parseDigits true digits
    | '+' :: digits => parseDigits false digits
    | digits => parseDigits false digits

/-- The fields that `std::istringstream >> std::string` yields. -/
def splitFields (s : String) : List String :=
  ((s.toList.splitOnP isSpace).filter (fun f => !f.isEmpty)).map String.ofList

/-- `ParseFields`: no field at all when one of them is not a number. -/
def parseFields (s : String) : List Int :=
  let fields := splitFields s
  if fields.all (fun f => (parseInt f).isSome) then fields.filterMap parseInt else []

def clamp (v lo hi : Int) : Int := if v < lo then lo else if hi < v then hi else v

/-- `ResolveKhz`: the product is an `int64_t` product and the quotient
truncates towards zero. -/
def resolveKhz (token : String) (ceiling : Option Int) : Option Int :=
  if token = "max" then ceiling
  else if token.toList.take 4 = "pct:".toList then
    match parseInt (String.ofList (token.toList.drop 4)), ceiling with
    | some pct, some c => some ((wrapInt 64 (c * clamp pct 0 100)).tdiv 100)
    | _, _ => none
  else parseInt token

theorem parseDigits_range {negative : Bool} {digits : List Char} {v : Int}
    (h : parseDigits negative digits = some v) : inInt64 v = true := by
  unfold parseDigits at h
  split at h
  · cases h
  · simp only [Option.ite_none_right_eq_some, Option.some.injEq] at h
    obtain ⟨hrange, rfl⟩ := h
    exact hrange

/-- Every number that is read fits an `int64_t`. -/
theorem parseInt_range {s : String} {v : Int} (h : parseInt s = some v) :
    inInt64 v = true := by
  unfold parseInt at h
  simp only at h
  split at h
  · cases h
  · split at h <;> exact parseDigits_range h

theorem parseFields_range {s : String} {v : Int} (h : v ∈ parseFields s) :
    inInt64 v = true := by
  unfold parseFields at h
  simp only at h
  split_ifs at h
  · obtain ⟨field, _, hfield⟩ := List.mem_filterMap.mp h
    exact parseInt_range hfield
  · cases h

example : parseInt " -42\n" = some (-42) ∧ parseInt "4x" = none := by decide

example : resolveKhz "pct:50" (some 1300000) = some 650000 := by decide

end MeizuM5c.Power
