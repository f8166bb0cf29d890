import MeizuM5c.Lib.Block
import MeizuM5c.Lib.MachineInt
import MeizuM5c.Ril.Mal

/-!
Arrays of strings from the vendor's library. An entry is a pointer to a C
string, or null, and is read with a check. Strings become numbers the way
`strtol` and `atoi` of the C library do it: blanks, a sign, and as many digits
as there are.
-/

namespace MeizuM5c.Ril

open Lib

/-- A C string without its terminator. -/
structure CString where
  bytes : Bytes
  noNul : 0 ∉ bytes

/-- An array of pointers to C strings. -/
abbrev Strings := List (Option Bytes)

abbrev SIZEOF_POINTER : Nat := 8

section Numbers

def isspace (c : UInt8) : Bool := c = 32 || (9 ≤ c && c ≤ 13)

def digitValue (c : UInt8) : Option Nat :=
  if 48 ≤ c ∧ c ≤ 57 then some (c.toNat - 48)
  else if 97 ≤ c ∧ c ≤ 122 then some (c.toNat - 97 + 10)
  else if 65 ≤ c ∧ c ≤ 90 then some (c.toNat - 65 + 10)
  else none

/-- The number that the leading digits stand for. -/
def digits (base acc : Nat) : Bytes → Nat
  | [] => acc
  | c :: text =>
      match digitValue c with
      | some d => if d < base then digits base (acc * base + d) text else acc
      | none => acc

/-- `strtol` of a 64-bit `long`, for base 10 and base 16. -/
def strtol (base : Nat) (text : Bytes) : Int :=
  let text := text.dropWhile isspace
  let negative := text.head? = some 45
  let text := if text.head? = some 45 ∨ text.head? = some 43 then text.drop 1 else text
  let text :=
    if base = 16 ∧ (text.take 2 = [48, 120] ∨ text.take 2 = [48, 88]) then text.drop 2 else text
  let n : Int := digits base 0 text
  if negative then max (-n) (-9223372036854775808) else min n 9223372036854775807

def atoi (text : Bytes) : Int := wrapInt 32 (strtol 10 text)

example : atoi [32, 45, 49, 50, 120] = -12 ∧ strtol 16 [48, 120, 70, 102, 103] = 255 := by decide

end Numbers

/-- `ATOI_NULL_HANDLED_DEF` on an entry that has been read. -/
def atoiNullHandledDef (entry : Option Bytes) (defaultVal : Int) : Int :=
  (entry.map atoi).getD defaultVal

def atoiNullHandled (entry : Option Bytes) : Int := atoiNullHandledDef entry (-1)

end MeizuM5c.Ril
