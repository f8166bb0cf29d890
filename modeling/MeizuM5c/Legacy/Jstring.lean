import Mathlib.Data.Nat.Bitwise
import Mathlib.Tactic.IntervalCases

/-!
The jstring helpers of `legacy.cpp`. An array of UTF-16 units becomes a
NUL-terminated string in modified UTF-8, where the unit 0 takes two bytes, and
back. The encoder and the decoder each come with a function that counts what
they will write; `w` is the width of `size_t`.

A string is the list of its bytes with the terminator. Reading behind the end
of the list has no result, and neither has an `int` that leaves its range.
-/

namespace MeizuM5c.Legacy

section Encoder

variable (w : Nat)

def SIZE_MAX : Nat := 2 ^ w - 1

/-- The bytes that one unit takes. -/
def unitSize (uic : Nat) : Nat :=
  if uic > 0x07ff then 3 else if uic > 0x7f ∨ uic = 0 then 2 else 1

def strnlen16to8From : Nat → List UInt16 → Nat
  | utf8Len, [] => if utf8Len = SIZE_MAX w then SIZE_MAX w - 1 else utf8Len
  | utf8Len, u :: rest =>
      let next := (utf8Len + unitSize u.toNat) % 2 ^ w
      -- overflow
      if next < utf8Len then SIZE_MAX w - 1 else strnlen16to8From next rest

def strnlen16to8 (utf16Str : List UInt16) : Nat := strnlen16to8From w 0 utf16Str

/-- The bytes that `strncpy16to8` writes, with the terminator. -/
def strncpy16to8 : List UInt16 → List UInt8
  | [] => [0]
  | u :: rest =>
      let uic := u.toNat
      if uic > 0x07ff then
        UInt8.ofNat ((uic >>> 12) ||| 0xe0) :: UInt8.ofNat (((uic >>> 6) &&& 0x3f) ||| 0x80) ::
          UInt8.ofNat ((uic &&& 0x3f) ||| 0x80) :: strncpy16to8 rest
      else if uic > 0x7f ∨ uic = 0 then
        UInt8.ofNat ((uic >>> 6) ||| 0xc0) :: UInt8.ofNat ((uic &&& 0x3f) ||| 0x80) ::
          strncpy16to8 rest
      else UInt8.ofNat uic :: (if uic = 0 then [0] else strncpy16to8 rest)

/-- `malloc` says of a size whether the allocation succeeds. -/
def strndup16to8 (malloc : Nat → Bool) (s : Option (List UInt16)) : Option (List UInt8) :=
  match s with
  | none => none
  | some s =>
      let len := strnlen16to8 w s
      if len ≥ SIZE_MAX w - 1 then none
      else if malloc (len + 1) then some (strncpy16to8 s) else none

end Encoder

section Decoder

variable (w : Nat)

def M5C_UTF16_REPLACEMENT_CHAR : Nat := 0xfffd

def M5C_UNICODE_UPPER_LIMIT : Nat := 0x10fffd

/-- The length of the sequence that a byte leads, from its upper half. -/
def M5C_UTF8_SEQ_LENGTH (ch : Nat) : Nat := ((0xe5000000 >>> ((ch >>> 3) &&& 0x1e)) &&& 3) + 1

def INT_MIN : Int := -2147483648

def strlen8to16From : Nat → Int → List UInt8 → Option Nat
  | _, _, [] => none
  | len, expected, c :: rest =>
      let ic := c.toNat
      if ic = 0 then some len
      else if ic &&& 0xc0 = 0x80 then
        if expected = INT_MIN then none
        else
          let len := if expected - 1 < 0 then (len + 1) % 2 ^ w else len
          strlen8to16From len (expected - 1) rest
      else
        let len := (len + 1) % 2 ^ w
        let expected := (M5C_UTF8_SEQ_LENGTH ic : Int) - 1
        -- surrogate pair
        let len := if expected = 3 then (len + 1) % 2 ^ w else len
        strlen8to16From len expected rest

def strlen8to16 (utf8Str : List UInt8) : Option Nat := strlen8to16From w 0 0 utf8Str

/-- `leaderMask`, indexed from the sequence length. -/
def leaderMask (seqLen : Nat) : Nat := [0xff, 0x1f, 0x0f, 0x07].getD (seqLen - 1) 0

/-- The loop over the bytes after the leader, `more` of them. -/
def getUtf32Rest : Nat → Nat → List UInt8 → Option (Nat × List UInt8)
  | 0, ret, s => some (ret, s)
  | _ + 1, _, [] => none
  | more + 1, ret, c :: rest =>
      if c.toNat = 0 then some (M5C_UTF16_REPLACEMENT_CHAR, c :: rest)
      else if c.toNat &&& 0xc0 ≠ 0x80 then some (M5C_UTF16_REPLACEMENT_CHAR, c :: rest)
      else getUtf32Rest more (((ret <<< 6) ||| (0x3f &&& c.toNat)) % 2 ^ 32) rest

/-- The code point at the pointer, and the pointer behind it. -/
def getUtf32FromUtf8 : List UInt8 → Option (Nat × List UInt8)
  | [] => none
  | c :: rest =>
      if c.toNat &&& 0xc0 = 0x80 then some (M5C_UTF16_REPLACEMENT_CHAR, rest)
      else
        let seqLen := M5C_UTF8_SEQ_LENGTH c.toNat
        let ret := c.toNat &&& leaderMask seqLen
        if c.toNat = 0 then some (ret, c :: rest) else getUtf32Rest (seqLen - 1) ret rest

/-- The units that one code point becomes. -/
def utf16Units (c : Nat) : List UInt16 :=
  if c ≤ 0xffff then [UInt16.ofNat c]
  else if c ≤ M5C_UNICODE_UPPER_LIMIT then
    [UInt16.ofNat (0xd800 ||| ((c - 0x10000) >>> 10)),
      UInt16.ofNat (0xdc00 ||| ((c - 0x10000) &&& 0x3ff))]
  else [UInt16.ofNat M5C_UTF16_REPLACEMENT_CHAR]

/-- The loop of `strdup8to16` up to the terminator: the units it writes. Every
pass moves the pointer, so the length of the string bounds the passes. -/
def decodeUnits : Nat → List UInt8 → Option (List UInt16)
  | _, [] => none
  | 0, _ => none
  | fuel + 1, c :: rest =>
      if c.toNat = 0 then some []
      else do
        let (code, s) ← getUtf32FromUtf8 (c :: rest)
        let units ← decodeUnits fuel s
        return utf16Units code ++ units

/-- The allocated units, with the extra one, and `*out_len`. -/
structure Decoded where
  buffer : List UInt16
  outLen : Nat
deriving DecidableEq

/-- Writing more units than were allocated has no result. -/
def strdup8to16 (malloc : Nat → Bool) (s : Option (List UInt8)) : Option Decoded := do
  let s ← s
  let len ← strlen8to16 w s
  if len ≥ SIZE_MAX w / 2 then none
  else if malloc (2 * (len + 1)) then
    let units ← decodeUnits s.length s
    if units.length ≤ len then some ⟨units ++ [0], units.length⟩ else none
  else none

end Decoder

end MeizuM5c.Legacy
