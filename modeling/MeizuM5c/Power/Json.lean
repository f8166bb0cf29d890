import Mathlib.Data.Rat.Defs
import Mathlib.Data.String.Basic
import MeizuM5c.Lib.Checked
import MeizuM5c.Lib.OrdMap

/-!
JSON documents as `Json::Value` holds them. The container accessors are
defined here; the conversions belong to jsoncpp and are a parameter, with
their documented partiality as a law. A call that fails takes the service
down, so it is an error apart from a config that is merely refused.
-/

namespace MeizuM5c.Power

open Lib

/-- The members of an object are in the order of the text. -/
inductive Json where
  | null
  | bool (b : Bool)
  | int (n : Int)
  | real (x : Rat)
  | string (s : String)
  | array (elements : List Json)
  | object (members : List (String × Json))

/-- How a parse ends that gives no config: in a failing accessor call, or with
an error text. -/
inductive ParseStop where
  | abort
  | reject (error : String)
  deriving DecidableEq

abbrev Parse := Except ParseStop

namespace Json

def isObject : Json → Bool
  | .object _ => true
  | _ => false

def isArray : Json → Bool
  | .array _ => true
  | _ => false

/-- The values that member access is defined for. -/
def hasMembers : Json → Bool
  | .null => true
  | .object _ => true
  | _ => false

/-- The members by name; of two with one name the later one counts. -/
def members : Json → OrdMap String Json
  | .object members => members.foldl (fun m e => m.insert e.1 e.2) OrdMap.empty
  | _ => OrdMap.empty

/-- What a loop over the value visits. -/
def elements : Json → List Json
  | .array elements => elements
  | v => v.members.entries.map Prod.snd

/-- The member, or null. -/
def member (v : Json) (key : String) : Json := (v.members.find? key).getD .null

/-- The member, or a default if there is none. -/
def memberOr (v : Json) (key : String) (default : Json) : Json :=
  (v.members.find? key).getD default

def memberNames (v : Json) : List String := v.members.entries.map Prod.fst

/-- `operator[]`. -/
def index (v : Json) (key : String) : Parse Json :=
  if v.hasMembers then .ok (v.member key) else .error .abort

def get (v : Json) (key : String) (default : Json) : Parse Json :=
  if v.hasMembers then .ok (v.memberOr key default) else .error .abort

def getMemberNames (v : Json) : Parse (List String) :=
  if v.hasMembers then .ok v.memberNames else .error .abort

/-- Neither an array nor an object. -/
def Scalar : Json → Prop
  | .array _ => False
  | .object _ => False
  | _ => True

/-- Neither of them, nor a string. -/
def Numeric : Json → Prop
  | .string _ => False
  | v => v.Scalar

/-- Numeric, and not a number outside the range. -/
def Within (lo hi : Int) : Json → Prop
  | .int n => lo ≤ n ∧ n ≤ hi
  | .real x => (lo : Rat) ≤ x ∧ x ≤ hi
  | v => v.Numeric

end Json

/-- The conversions of `Json::Value`; `none` is a failing call. -/
structure JsonAccess where
  asString : Json → Option String
  asInt : Json → Option Int
  asInt64 : Json → Option Int
  asBool : Json → Option Bool
  asDouble : Json → Option Rat
  isInt : Json → Bool

/-- What the documentation says of the calls that fail. -/
structure JsonAccess.Documented (acc : JsonAccess) : Prop where
  asString_isSome : ∀ v, (acc.asString v).isSome ↔ v.Scalar
  asInt_isSome : ∀ v, (acc.asInt v).isSome ↔ v.Within (-2147483648) 2147483647
  asInt64_isSome : ∀ v, (acc.asInt64 v).isSome ↔
    v.Within (-9223372036854775808) 9223372036854775807
  asBool_isSome : ∀ v, (acc.asBool v).isSome ↔ v.Numeric
  asDouble_isSome : ∀ v, (acc.asDouble v).isSome ↔ v.Numeric
  isInt_within : ∀ v, acc.isInt v = true → v.Within (-2147483648) 2147483647

/-- A conversion in the course of a parse. -/
def convert {α : Type} (result : Option α) : Parse α :=
  match result with
  | some a => .ok a
  | none => .error .abort

section Calls

@[simp] theorem avoids_convert_iff {α : Type} (result : Option α) :
    Avoids ParseStop.abort (convert result) ↔ result.isSome := by
  cases result <;> simp [convert]

@[simp] theorem convert_eq_ok_iff {α : Type} {result : Option α} {a : α} :
    convert result = .ok a ↔ result = some a := by
  cases result <;> simp [convert]

theorem Json.avoids_index_iff (v : Json) (key : String) :
    Avoids ParseStop.abort (v.index key) ↔ v.hasMembers = true := by
  unfold Json.index
  split_ifs with h <;> simp [h]

theorem Json.avoids_get_iff (v : Json) (key : String) (default : Json) :
    Avoids ParseStop.abort (v.get key default) ↔ v.hasMembers = true := by
  unfold Json.get
  split_ifs with h <;> simp [h]

theorem Json.avoids_getMemberNames_iff (v : Json) :
    Avoids ParseStop.abort v.getMemberNames ↔ v.hasMembers = true := by
  unfold Json.getMemberNames
  split_ifs with h <;> simp [h]

theorem Json.index_eq_ok_iff {v : Json} {key : String} {a : Json} :
    v.index key = .ok a ↔ v.hasMembers = true ∧ a = v.member key := by
  unfold Json.index
  split_ifs with h <;> simp [h, eq_comm]

theorem Json.get_eq_ok_iff {v : Json} {key : String} {default a : Json} :
    v.get key default = .ok a ↔ v.hasMembers = true ∧ a = v.memberOr key default := by
  unfold Json.get
  split_ifs with h <;> simp [h, eq_comm]

theorem Json.getMemberNames_eq_ok_iff {v : Json} {names : List String} :
    v.getMemberNames = .ok names ↔ v.hasMembers = true ∧ names = v.memberNames := by
  unfold Json.getMemberNames
  split_ifs with h <;> simp [h, eq_comm]

/-- The names of the members are all different. -/
theorem Json.memberNames_nodup (v : Json) : v.memberNames.Nodup := by
  unfold Json.memberNames
  rw [List.Nodup, List.pairwise_map]
  exact v.members.sorted.imp (fun h => h.ne)

end Calls

end MeizuM5c.Power
