import Mathlib.Tactic

/-!
Records of a tag, a length and a value, with one byte each for the tag and the
length, one record behind the other. `records` reads them back up to the first one
that does not fit.
-/

namespace MeizuM5c.Lib

structure Tlv where
  tag : UInt8
  value : List UInt8
  short : value.length < 256
deriving DecidableEq

def Tlv.bytes (t : Tlv) : List UInt8 := t.tag :: UInt8.ofNat t.value.length :: t.value

theorem length_take_lt (rest : List UInt8) (len : UInt8) :
    (rest.take len.toNat).length < 256 := by
  have hlen := len.toNat_lt
  rw [List.length_take]
  omega

/-- The records in front of the first one that is longer than what is left. -/
def records : List UInt8 → List Tlv
  | tag :: len :: rest =>
      if len.toNat ≤ rest.length then
        ⟨tag, rest.take len.toNat, length_take_lt rest len⟩ :: records (rest.drop len.toNat)
      else []
  | _ => []
termination_by bytes => bytes.length

/-- What was written is read back. -/
theorem records_flatMap (ts : List Tlv) : records (ts.flatMap Tlv.bytes) = ts := by
  induction ts with
  | nil => simp [records]
  | cons t ts ih =>
      have hlen : (UInt8.ofNat t.value.length).toNat = t.value.length := by
        rw [UInt8.toNat_ofNat']
        exact Nat.mod_eq_of_lt t.short
      simp only [List.flatMap_cons, Tlv.bytes, List.cons_append, records, hlen, List.length_append,
        Nat.le_add_right, if_true, List.take_left, List.drop_left, ih]

end MeizuM5c.Lib
