import Mathlib.Tactic

/-!
Hexadecimal text, two digits for each byte, with digits of either case. Text is
a list of character codes. `HexOf` says which texts stand for which bytes, and
`decodeHex` finds the bytes of a text.
-/

namespace MeizuM5c.Lib

section Digits

def upperDigit (n : UInt8) : UInt8 := if n < 10 then n + 48 else n + 55

def lowerDigit (n : UInt8) : UInt8 := if n < 10 then n + 48 else n + 87

/-- A character that stands for a number below 16. -/
def IsDigit (c n : UInt8) : Prop := c = upperDigit n ∨ c = lowerDigit n

def hexDigit? (c : UInt8) : Option UInt8 :=
  if 48 ≤ c ∧ c ≤ 57 then some (c - 48)
  else if 65 ≤ c ∧ c ≤ 70 then some (c - 65 + 10)
  else if 97 ≤ c ∧ c ≤ 102 then some (c - 97 + 10)
  else none

theorem hexDigit?_eq_some_iff {c n : UInt8} : hexDigit? c = some n ↔ n < 16 ∧ IsDigit c n := by
  unfold hexDigit? IsDigit upperDigit lowerDigit
  grind

theorem hexDigit?_lt {c n : UInt8} (h : hexDigit? c = some n) : n < 16 :=
  (hexDigit?_eq_some_iff.mp h).1

/-- The byte of two digits. -/
def joinNibbles (hi lo : UInt8) : UInt8 := (hi <<< 4) ||| lo

theorem toNat_joinNibbles {hi lo : UInt8} (hhi : hi < 16) (hlo : lo < 16) :
    (joinNibbles hi lo).toNat = 16 * hi.toNat + lo.toNat := by
  have hhi' : hi.toNat < 16 := hhi
  have hlo' : lo.toNat < 2 ^ 4 := hlo
  have hshift : hi.toNat <<< 4 % 256 = hi.toNat <<< 4 := by
    rw [Nat.shiftLeft_eq]
    exact Nat.mod_eq_of_lt (by omega)
  have hjoin : (joinNibbles hi lo).toNat = hi.toNat <<< 4 ||| lo.toNat := by
    simpa [joinNibbles] using congrArg (· ||| lo.toNat) hshift
  rw [hjoin, ← Nat.shiftLeft_add_eq_or_of_lt hlo', Nat.shiftLeft_eq]
  ring

def highNibble (b : UInt8) : UInt8 := b >>> 4

def lowNibble (b : UInt8) : UInt8 := b &&& 15

theorem toNat_highNibble (b : UInt8) : (highNibble b).toNat = b.toNat / 16 := by
  simp [highNibble, Nat.shiftRight_eq_div_pow]

theorem toNat_lowNibble (b : UInt8) : (lowNibble b).toNat = b.toNat % 16 := by
  simpa [lowNibble] using Nat.and_two_pow_sub_one_eq_mod b.toNat 4

theorem highNibble_lt (b : UInt8) : highNibble b < 16 := by
  have hb := b.toNat_lt
  rw [UInt8.lt_iff_toNat_lt, toNat_highNibble]
  exact Nat.div_lt_of_lt_mul (by simpa using hb)

theorem lowNibble_lt (b : UInt8) : lowNibble b < 16 := by
  rw [UInt8.lt_iff_toNat_lt, toNat_lowNibble]
  exact Nat.mod_lt _ (by decide)

/-- A byte is joined from its halves, and from no other two numbers. -/
theorem joinNibbles_eq_iff {hi lo b : UInt8} (hhi : hi < 16) (hlo : lo < 16) :
    joinNibbles hi lo = b ↔ hi = highNibble b ∧ lo = lowNibble b := by
  have hhi' : hi.toNat < 16 := hhi
  have hlo' : lo.toNat < 16 := hlo
  rw [← UInt8.toNat_inj, ← UInt8.toNat_inj, ← UInt8.toNat_inj, toNat_joinNibbles hhi hlo,
    toNat_highNibble, toNat_lowNibble]
  omega

end Digits

/-- The text is the bytes in hexadecimal. -/
inductive HexOf : List UInt8 → List UInt8 → Prop
  | nil : HexOf [] []
  | cons {hi lo b : UInt8} {text bytes : List UInt8} :
      IsDigit hi (highNibble b) → IsDigit lo (lowNibble b) → HexOf text bytes →
        HexOf (hi :: lo :: text) (b :: bytes)

def decodeHex : List UInt8 → Option (List UInt8)
  | [] => some []
  | [_] => none
  | hi :: lo :: text =>
      match hexDigit? hi, hexDigit? lo with
      | some hi, some lo => (decodeHex text).map (joinNibbles hi lo :: ·)
      | _, _ => none

/-- The bytes in hexadecimal, in upper case. -/
def encodeHex (bytes : List UInt8) : List UInt8 :=
  bytes.flatMap fun b => [upperDigit (highNibble b), upperDigit (lowNibble b)]

section Text

variable {text bytes : List UInt8}

theorem decodeHex_of_hexOf (h : HexOf text bytes) : decodeHex text = some bytes := by
  induction h with
  | nil => rfl
  | @cons hi lo b text bytes hhi hlo _ ih =>
      have hhigh := hexDigit?_eq_some_iff.mpr ⟨highNibble_lt b, hhi⟩
      have hlow := hexDigit?_eq_some_iff.mpr ⟨lowNibble_lt b, hlo⟩
      have hjoin : joinNibbles (highNibble b) (lowNibble b) = b :=
        (joinNibbles_eq_iff (highNibble_lt b) (lowNibble_lt b)).mpr ⟨rfl, rfl⟩
      simp only [decodeHex, hhigh, hlow, ih, Option.map_some, hjoin]

theorem hexOf_of_decodeHex (h : decodeHex text = some bytes) : HexOf text bytes := by
  induction text using decodeHex.induct generalizing bytes with
  | case1 =>
      rw [← Option.some.inj h]
      exact .nil
  | case2 c => cases h
  | case3 hi lo text high low hlo hhi ih =>
      simp only [decodeHex, hhi, hlo, Option.map_eq_some_iff] at h
      obtain ⟨rest, hrest, rfl⟩ := h
      obtain ⟨hhigh, hhid⟩ := hexDigit?_eq_some_iff.mp hhi
      obtain ⟨hlow, hlod⟩ := hexDigit?_eq_some_iff.mp hlo
      obtain ⟨hhalf, hrem⟩ := (joinNibbles_eq_iff hhigh hlow).mp rfl
      rw [hhalf] at hhid
      rw [hrem] at hlod
      exact .cons hhid hlod (ih hrest)
  | case4 hi lo text hnone =>
      simp only [decodeHex] at h
      cases h

/-- The decoder accepts exactly the texts that stand for bytes. -/
theorem decodeHex_eq_some_iff : decodeHex text = some bytes ↔ HexOf text bytes :=
  ⟨hexOf_of_decodeHex, decodeHex_of_hexOf⟩

theorem HexOf.length (h : HexOf text bytes) : text.length = 2 * bytes.length := by
  induction h with
  | nil => rfl
  | cons _ _ _ ih =>
      simp only [List.length_cons, ih]
      ring

/-- A text is rejected for its odd length or for a character. -/
theorem decodeHex_eq_none_iff :
    decodeHex text = none ↔ text.length % 2 = 1 ∨ ∃ c ∈ text, hexDigit? c = none := by
  induction text using decodeHex.induct with
  | case1 => simp [decodeHex]
  | case2 c => simp [decodeHex]
  | case3 hi lo text high low hlo hhi ih =>
      simp only [decodeHex, hhi, hlo, Option.map_eq_none_iff, ih, List.length_cons,
        List.exists_mem_cons_iff, reduceCtorEq, false_or]
      have hparity : (text.length + 1 + 1) % 2 = text.length % 2 := by omega
      rw [hparity]
  | case4 hi lo text hnone =>
      have hbad : hexDigit? hi = none ∨ hexDigit? lo = none := by
        rcases hhi : hexDigit? hi with _ | high
        · exact .inl rfl
        · rcases hlo : hexDigit? lo with _ | low
          · exact .inr rfl
          · exact absurd hlo (hnone high low hhi)
      apply iff_of_true
      · simp only [decodeHex]
      · right
        rcases hbad with hbad | hbad
        · exact ⟨hi, List.mem_cons_self, hbad⟩
        · exact ⟨lo, List.mem_cons_of_mem _ List.mem_cons_self, hbad⟩

theorem mem_encodeHex {c : UInt8} (h : c ∈ encodeHex bytes) : ∃ n, n < 16 ∧ c = upperDigit n := by
  obtain ⟨b, -, hc⟩ := List.mem_flatMap.mp h
  rcases List.mem_cons.mp hc with rfl | hc
  · exact ⟨highNibble b, highNibble_lt b, rfl⟩
  · exact ⟨lowNibble b, lowNibble_lt b, List.mem_singleton.mp hc⟩

theorem hexOf_encodeHex (bytes : List UInt8) : HexOf (encodeHex bytes) bytes := by
  induction bytes with
  | nil => exact .nil
  | cons b bytes ih => exact .cons (.inl rfl) (.inl rfl) ih

end Text

end MeizuM5c.Lib
