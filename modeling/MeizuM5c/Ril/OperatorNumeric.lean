import MeizuM5c.Lib.Block
import MeizuM5c.Ril.Mal

/-!
The operator of the initial attach APN. `setInitialAttachApn` reads the
property that holds the numeric operators of both slots, separated by a comma,
into a buffer of its own and copies the part of its slot into a block of eight
bytes for the vendor.
-/

namespace MeizuM5c.Ril

open Lib

abbrev PROPERTY_VALUE_MAX : Nat := 92

/-- What a property can hold: a C string that fits with its terminator. -/
structure PropertyValue where
  bytes : Bytes
  noNul : 0 ∉ bytes
  fits : bytes.length < PROPERTY_VALUE_MAX

section LibC

/-- The length and the buffer after the value was written to its front. An
empty value gives way to the default, which is empty here. -/
def propertyGet (value : PropertyValue) (buffer : Bytes) : Except Fault (Nat × Bytes) := do
  let buffer ← overwrite buffer (value.bytes ++ [0])
  pure (value.bytes.length, buffer)

/-- Where a C string has a character first. -/
def strchr (text : Bytes) (c : UInt8) : Option Nat := (strnlen text).idxOf? c

/-- `strncpy` pads with zeros, and adds no terminator to a longer string. -/
def strncpy (dst src : Option Bytes) (n : Nat) : Except Fault Bytes := do
  let dst ← deref dst
  let src ← deref src
  let copied := (strnlen src).take n
  overwrite dst (copied ++ List.replicate (n - copied.length) 0)

def calloc (alloc : Bool) (size : Nat) : Option Bytes :=
  if alloc then some (List.replicate size 0) else none

end LibC

abbrev comma : UInt8 := 44

/-- The block that becomes `iaa.operatorNumeric`. The buffer `prop` of 32 bytes
is not initialised, and a pointer into it is an offset. -/
def operatorNumeric (mSlotId : Fin 2) (value : PropertyValue) (prop : Vector UInt8 32)
    (alloc : Bool) : Except Fault Bytes := do
  let (len, prop) ← propertyGet value prop.toList
  let (prop, p) ←
    if len ≠ 0 then do
      let (prop, p) ←
        match strchr prop comma with
        | some i => do
            let prop ← store prop i 0
            pure (prop, some (i + 1))
        | none => pure (prop, none)
      pure (prop, if mSlotId = 0 then some 0 else p)
    else pure (prop, some 0)
  strncpy (calloc alloc 8) (p.map fun i => prop.drop i) 8

/-- The part of a value that belongs to a slot. -/
def slotField (mSlotId : Fin 2) (value : PropertyValue) : Bytes :=
  (value.bytes.splitOn comma).getD mSlotId []

/-- A block that holds a C string. -/
def HoldsString (block text : Bytes) : Prop := 0 ∈ block ∧ strnlen block = text

/-- The vendor gets the field of the slot, unless the field is too long for the
block, and no access goes wrong. -/
def OperatorLaw (mSlotId : Fin 2) (value : PropertyValue) (prop : Vector UInt8 32)
    (alloc : Bool) : Prop :=
  ∃ block, operatorNumeric mSlotId value prop alloc = .ok block ∧
    ((slotField mSlotId value).length ≤ 7 → HoldsString block (slotField mSlotId value))

/-- The value fits the buffer, and for the second slot there is a comma, and no
other one behind it. -/
structure OperatorReadable (mSlotId : Fin 2) (value : PropertyValue) (alloc : Bool) : Prop where
  allocated : alloc = true
  short : value.bytes.length ≤ 31
  second : mSlotId = 1 → value.bytes = [] ∨
    (comma ∈ value.bytes ∧
      ((slotField mSlotId value).length ≤ 7 → value.bytes.count comma = 1))

section Strings

theorem strnlen_append {text : Bytes} (h : 0 ∉ text) (rest : Bytes) :
    strnlen (text ++ 0 :: rest) = text := by
  unfold strnlen
  rw [List.takeWhile_append_of_pos]
  · simp
  · intro c hc
    have hne : c ≠ 0 := fun heq => h (heq ▸ hc)
    simpa using hne

theorem not_mem_take {text : Bytes} (h : 0 ∉ text) (n : Nat) : 0 ∉ text.take n :=
  fun hmem => h (List.mem_of_mem_take hmem)

/-- What `strncpy` leaves of a string in a block of its own size. -/
theorem strncpy_string {text : Bytes} (h : 0 ∉ text) (rest : Bytes) (n : Nat) :
    strncpy (calloc true n) (some (text ++ 0 :: rest)) n =
      .ok (text.take n ++ List.replicate (n - text.length) 0) := by
  have hcopied : (text.take n).length = min n text.length := List.length_take
  have hlength : (text.take n ++ List.replicate (n - (text.take n).length) (0 : UInt8)).length =
      n := by
    rw [List.length_append, List.length_replicate, hcopied]
    omega
  have hpad : n - (text.take n).length = n - text.length := by omega
  simp only [strncpy, calloc, if_true, deref_some, ok_bind, strnlen_append h]
  rw [overwrite_of_le (by rw [hlength, List.length_replicate]), hlength, hpad,
    List.drop_eq_nil_of_le (by rw [List.length_replicate]), List.append_nil]

/-- A short string arrives with a terminator, and is all that does. -/
theorem holdsString_copied {text : Bytes} (h : 0 ∉ text) {n : Nat} (hshort : text.length < n) :
    HoldsString (text.take n ++ List.replicate (n - text.length) 0) text := by
  obtain ⟨k, hk⟩ : ∃ k, n - text.length = k + 1 := ⟨n - text.length - 1, by omega⟩
  rw [hk, List.replicate_succ, List.take_of_length_le hshort.le]
  exact ⟨by simp, strnlen_append h _⟩

end Strings

section Block

variable {value : PropertyValue}

section Run

variable (mSlotId : Fin 2) (prop : Vector UInt8 32) (alloc : Bool)

theorem propertyGet_of_le (h : value.bytes.length ≤ 31) :
    ∃ junk, propertyGet value prop.toList =
      .ok (value.bytes.length, value.bytes ++ 0 :: junk) := by
  have hroom : (value.bytes ++ [0]).length ≤ prop.toList.length := by
    simp only [List.length_append, List.length_singleton, Vector.length_toList]
    omega
  refine ⟨prop.toList.drop (value.bytes ++ [0]).length, ?_⟩
  rw [propertyGet, overwrite_of_le hroom, ok_bind, List.append_assoc]
  rfl

/-- A value of 32 bytes or more is written past the end of the buffer. -/
theorem operatorNumeric_of_long (h : 31 < value.bytes.length) :
    operatorNumeric mSlotId value prop alloc = .error .outOfBounds := by
  have hroom : prop.toList.length < (value.bytes ++ [0]).length := by
    simp only [List.length_append, List.length_singleton, Vector.length_toList]
    omega
  rw [operatorNumeric, propertyGet, overwrite_of_lt hroom]
  rfl

theorem operatorNumeric_of_empty (h : value.bytes = []) :
    ∃ junk, operatorNumeric mSlotId value prop alloc =
      strncpy (calloc alloc 8) (some ([] ++ 0 :: junk)) 8 := by
  have hshort : value.bytes.length ≤ 31 := by simp [h]
  obtain ⟨junk, hget⟩ := propertyGet_of_le prop hshort
  refine ⟨junk, ?_⟩
  rw [operatorNumeric, hget, h]
  rfl

/-- Without a comma there is a string for the first slot only. -/
theorem operatorNumeric_of_single (hshort : value.bytes.length ≤ 31) (hne : value.bytes ≠ [])
    (hcomma : comma ∉ value.bytes) :
    ∃ junk, operatorNumeric mSlotId value prop alloc =
      strncpy (calloc alloc 8)
        (if mSlotId = 0 then some (value.bytes ++ 0 :: junk) else none) 8 := by
  obtain ⟨junk, hget⟩ := propertyGet_of_le prop hshort
  have hlength : value.bytes.length ≠ 0 := fun h => hne (List.length_eq_zero_iff.mp h)
  have hchr : strchr (value.bytes ++ 0 :: junk) comma = none := by
    rw [strchr, strnlen_append value.noNul]
    exact List.idxOf?_eq_none_iff.mpr hcomma
  refine ⟨junk, ?_⟩
  rw [operatorNumeric, hget]
  simp only [ok_bind, if_pos hlength, hchr]
  split_ifs
  · rfl
  · rfl

theorem idxOf?_append_cons {before after : Bytes} {c : UInt8} (h : c ∉ before) :
    (before ++ c :: after).idxOf? c = some before.length := by
  rw [List.idxOf?_eq_some_iff]
  refine ⟨by simp, by simp, fun j hj heq => h ?_⟩
  rw [← heq, List.getElem_append_left hj]
  exact List.getElem_mem hj

/-- The first comma becomes the terminator of the first field. -/
theorem operatorNumeric_of_comma (hshort : value.bytes.length ≤ 31) {before after : Bytes}
    (hvalue : value.bytes = before ++ comma :: after) (hbefore : comma ∉ before) :
    ∃ junk, operatorNumeric mSlotId value prop alloc =
      strncpy (calloc alloc 8)
        (some ((if mSlotId = 0 then before else after) ++ 0 :: junk)) 8 := by
  obtain ⟨junk, hget⟩ := propertyGet_of_le prop hshort
  have hlength : value.bytes.length ≠ 0 := by simp [hvalue]
  have hchr : strchr (value.bytes ++ 0 :: junk) comma = some before.length := by
    rw [strchr, strnlen_append value.noNul, hvalue]
    exact idxOf?_append_cons hbefore
  have hplace : before.length < (value.bytes ++ 0 :: junk).length := by
    simp only [hvalue, List.length_append, List.length_cons]
    omega
  have hset : (value.bytes ++ 0 :: junk).set before.length 0 =
      before ++ 0 :: (after ++ 0 :: junk) := by
    rw [hvalue, List.append_assoc, List.set_append_right _ _ (le_refl _), Nat.sub_self]
    rfl
  rcases eq_or_ne mSlotId 0 with hslot | hslot
  · refine ⟨after ++ 0 :: junk, ?_⟩
    rw [operatorNumeric, hget]
    simp only [ok_bind, if_pos hlength, hchr, store_of_lt hplace, hset, if_pos hslot]
    rfl
  · refine ⟨junk, ?_⟩
    have hdrop : (before ++ 0 :: (after ++ 0 :: junk)).drop (before.length + 1) =
        after ++ 0 :: junk := by
      rw [← List.drop_drop, List.drop_left]
      rfl
    rw [operatorNumeric, hget]
    simp only [ok_bind, if_pos hlength, hchr, store_of_lt hplace, hset, if_neg hslot]
    exact congrArg (fun text => strncpy (calloc alloc 8) (some text) 8) hdrop

end Run

section Field

variable (mSlotId : Fin 2)

theorem slotField_of_single (h : comma ∉ value.bytes) :
    slotField mSlotId value = if mSlotId = 0 then value.bytes else [] := by
  rw [slotField, List.splitOn_eq_singleton h]
  fin_cases mSlotId
  · rfl
  · rfl

theorem slotField_of_comma {before after : Bytes}
    (hvalue : value.bytes = before ++ comma :: after) (hbefore : comma ∉ before) :
    slotField mSlotId value =
      if mSlotId = 0 then before else (after.splitOn comma).getD 0 [] := by
  rw [slotField, hvalue, List.splitOn_append_cons_self_of_not_mem hbefore]
  fin_cases mSlotId
  · rfl
  · rfl

end Field

/-- A short field is all of a text exactly when no comma cuts it off. -/
theorem first_field_holds_iff {text : Bytes} (hnul : 0 ∉ text) :
    ((((text.splitOn comma).getD 0 []).length ≤ 7 →
      HoldsString (text.take 8 ++ List.replicate (8 - text.length) 0)
        ((text.splitOn comma).getD 0 []))) ↔
      (((text.splitOn comma).getD 0 []).length ≤ 7 → text.count comma = 0) := by
  by_cases hcomma : comma ∈ text
  · obtain ⟨field, rest, htext, hfield⟩ := List.eq_append_cons_of_mem hcomma
    have hfirst : (text.splitOn comma).getD 0 [] = field := by
      rw [htext, List.splitOn_append_cons_self_of_not_mem hfield]
      rfl
    have hcount : text.count comma ≠ 0 := by
      rw [Ne, List.count_eq_zero]
      exact fun h => h hcomma
    rw [hfirst]
    apply imp_congr_right
    intro hshort
    apply iff_of_false _ hcount
    rintro ⟨-, hstring⟩
    -- The comma behind the field is among the eight bytes that are copied.
    have hcopied : comma ∈ strnlen (text.take 8 ++ List.replicate (8 - text.length) 0) := by
      have htake : text.take 8 = field ++ comma :: rest.take (7 - field.length) := by
        rw [htext, List.take_append, List.take_of_length_le (by omega)]
        have hleft : 8 - field.length = (7 - field.length) + 1 := by omega
        rw [hleft, List.take_succ_cons]
      have hkept : ∀ c ∈ text.take 8, (c != 0) = true := by
        intro c hc
        have hne : c ≠ 0 := fun heq => not_mem_take hnul 8 (heq ▸ hc)
        simpa using hne
      rw [strnlen, List.takeWhile_append_of_pos hkept, htake]
      simp
    rw [hstring] at hcopied
    exact hfield hcopied
  · have hfirst : (text.splitOn comma).getD 0 [] = text := by
      rw [List.splitOn_eq_singleton hcomma]
      rfl
    have hcount : text.count comma = 0 := List.count_eq_zero.mpr hcomma
    rw [hfirst]
    apply imp_congr_right
    intro hshort
    exact iff_of_true (holdsString_copied hnul (by omega)) hcount

variable {mSlotId : Fin 2} {prop : Vector UInt8 32} {alloc : Bool}

/-- What is left to show when a text is copied. -/
theorem operatorLaw_of_text {text junk : Bytes} (hnul : 0 ∉ text)
    (hrun : operatorNumeric mSlotId value prop alloc =
      strncpy (calloc alloc 8) (some (text ++ 0 :: junk)) 8) :
    OperatorLaw mSlotId value prop alloc ↔
      alloc = true ∧ ((slotField mSlotId value).length ≤ 7 →
        HoldsString (text.take 8 ++ List.replicate (8 - text.length) 0)
          (slotField mSlotId value)) := by
  unfold OperatorLaw
  rw [hrun]
  cases alloc with
  | false =>
      have hnull : strncpy (calloc false 8) (some (text ++ 0 :: junk)) 8 = .error .nullPointer := rfl
      simp [hnull]
  | true => simp [strncpy_string hnul]

theorem not_operatorLaw_of_null
    (hrun : operatorNumeric mSlotId value prop alloc = strncpy (calloc alloc 8) none 8) :
    ¬ OperatorLaw mSlotId value prop alloc := by
  rintro ⟨block, hblock, -⟩
  have hnull : strncpy (calloc alloc 8) none 8 = .error .nullPointer := by
    cases alloc with
    | false => rfl
    | true => rfl
  rw [hrun, hnull] at hblock
  cases hblock

theorem operatorLaw_iff_of_empty (h : value.bytes = []) :
    OperatorLaw mSlotId value prop alloc ↔ alloc = true := by
  obtain ⟨junk, hrun⟩ := operatorNumeric_of_empty mSlotId prop alloc h
  have hfield : slotField mSlotId value = [] := by
    rw [slotField_of_single mSlotId (by simp [h]), h, ite_self]
  rw [operatorLaw_of_text List.not_mem_nil hrun, hfield]
  exact and_iff_left (fun _ => holdsString_copied List.not_mem_nil (by simp))

theorem operatorLaw_iff_of_single (hshort : value.bytes.length ≤ 31) (hne : value.bytes ≠ [])
    (hcomma : comma ∉ value.bytes) :
    OperatorLaw mSlotId value prop alloc ↔ mSlotId = 0 ∧ alloc = true := by
  obtain ⟨junk, hrun⟩ := operatorNumeric_of_single mSlotId prop alloc hshort hne hcomma
  have hfield := slotField_of_single mSlotId hcomma
  rcases eq_or_ne mSlotId 0 with hslot | hslot
  · rw [if_pos hslot] at hrun hfield
    rw [operatorLaw_of_text value.noNul hrun, hfield, and_iff_right hslot]
    exact and_iff_left (fun hfits => holdsString_copied value.noNul (by omega))
  · rw [if_neg hslot] at hrun
    exact iff_of_false (not_operatorLaw_of_null hrun) (fun h => hslot h.1)

theorem operatorLaw_iff_of_comma (hshort : value.bytes.length ≤ 31) {before after : Bytes}
    (hvalue : value.bytes = before ++ comma :: after) (hbefore : comma ∉ before) :
    OperatorLaw mSlotId value prop alloc ↔
      alloc = true ∧ (mSlotId = 1 → (slotField mSlotId value).length ≤ 7 →
        value.bytes.count comma = 1) := by
  obtain ⟨junk, hrun⟩ := operatorNumeric_of_comma mSlotId prop alloc hshort hvalue hbefore
  have hfield := slotField_of_comma mSlotId hvalue hbefore
  have hnul := value.noNul
  rw [hvalue, List.mem_append, List.mem_cons, not_or, not_or] at hnul
  have hcount : value.bytes.count comma = after.count comma + 1 := by
    rw [hvalue, List.count_append, List.count_eq_zero.mpr hbefore, List.count_cons_self, zero_add]
  rcases eq_or_ne mSlotId 0 with hslot | hslot
  · have hother : mSlotId ≠ 1 := by
      rw [hslot]
      decide
    rw [if_pos hslot] at hrun hfield
    rw [operatorLaw_of_text hnul.1 hrun, hfield]
    apply and_congr_right
    intro _
    exact iff_of_true (fun hfits => holdsString_copied hnul.1 (by omega))
      (fun h => absurd h hother)
  · have hsecond : mSlotId = 1 := by omega
    rw [if_neg hslot] at hrun hfield
    rw [operatorLaw_of_text hnul.2.2 hrun, hfield, first_field_holds_iff hnul.2.2, hcount]
    simp only [hsecond, true_implies, Nat.add_eq_right]

end Block

/-- The block is right exactly when it was allocated, the value fits the buffer
and, for the second slot, one comma leads to its field. -/
theorem operatorLaw_iff (mSlotId : Fin 2) (value : PropertyValue) (prop : Vector UInt8 32)
    (alloc : Bool) :
    OperatorLaw mSlotId value prop alloc ↔ OperatorReadable mSlotId value alloc := by
  rcases lt_or_ge 31 value.bytes.length with hlong | hshort
  · apply iff_of_false
    · rintro ⟨block, hblock, -⟩
      rw [operatorNumeric_of_long mSlotId prop alloc hlong] at hblock
      cases hblock
    · intro h
      exact absurd h.short (by omega)
  · have hreadable : OperatorReadable mSlotId value alloc ↔ alloc = true ∧
        (mSlotId = 1 → value.bytes = [] ∨ (comma ∈ value.bytes ∧
          ((slotField mSlotId value).length ≤ 7 → value.bytes.count comma = 1))) :=
      ⟨fun h => ⟨h.allocated, h.second⟩, fun h => ⟨h.1, hshort, h.2⟩⟩
    rw [hreadable]
    by_cases hcomma : comma ∈ value.bytes
    · obtain ⟨before, after, hvalue, hbefore⟩ := List.eq_append_cons_of_mem hcomma
      have hne : value.bytes ≠ [] := List.ne_nil_of_mem hcomma
      rw [operatorLaw_iff_of_comma hshort hvalue hbefore]
      simp only [hne, hcomma, false_or, true_and]
    · rcases eq_or_ne value.bytes [] with hempty | hne
      · rw [operatorLaw_iff_of_empty hempty]
        simp only [hempty, true_or, implies_true, and_true]
      · rw [operatorLaw_iff_of_single hshort hne hcomma]
        have hslot : mSlotId = 0 ↔ ¬ mSlotId = 1 := by omega
        simp only [hne, hcomma, false_and, or_self, hslot]
        exact and_comm

/-- The property of a device with one SIM inserted. -/
def oneOperator : PropertyValue := ⟨[50, 54, 50, 48, 49], by decide, by decide⟩

/-- One operator and no comma: for the second slot, `strncpy` reads from a null
pointer. -/
theorem operatorLaw_null :
    operatorNumeric 1 oneOperator (Vector.replicate 32 0) true = .error .nullPointer ∧
      ¬ OperatorLaw 1 oneOperator (Vector.replicate 32 0) true := by
  obtain ⟨junk, hrun⟩ := operatorNumeric_of_single 1 (Vector.replicate 32 0) true
    (by decide : oneOperator.bytes.length ≤ 31) (by decide) (by decide)
  exact ⟨hrun, not_operatorLaw_of_null hrun⟩

end MeizuM5c.Ril
