import MeizuM5c.Lib.Hex
import MeizuM5c.Lib.LastSome
import MeizuM5c.Lib.Tlv
import MeizuM5c.Ril.OperatorNumeric
import MeizuM5c.Ril.VendorStrings

/-!
The translation of a file control template into the response layout that the
framework parses. The text of the template is decoded into a buffer, a loop goes
over the records in it, and what the last record of each kind said is written in
fifteen bytes. Reads of the buffer are checked against the bytes that were decoded.
-/

namespace MeizuM5c.Ril

open Lib

section Source

def forgeHexNibble (c : UInt8) : Int :=
  if 48 ≤ c ∧ c ≤ 57 then (c - 48).toNat
  else if 65 ≤ c ∧ c ≤ 70 then (c - 65 + 10).toNat
  else if 97 ≤ c ∧ c ≤ 102 then (c - 97 + 10).toNat
  else -1

/-- The decoding loop, with the number of rounds that are left. The buffer has 256
bytes, of which the first ones are set so far. -/
def decodeLoop (hex : Bytes) : Nat → Bytes → Except Fault (Option Bytes)
  | 0, buf => pure (some buf)
  | rounds + 1, buf => do
      let hi := forgeHexNibble (← load hex (2 * buf.length))
      let lo := forgeHexNibble (← load hex (2 * buf.length + 1))
      if hi < 0 ∨ lo < 0 then pure none
      else if buf.length < 256 then
        decodeLoop hex rounds (buf ++ [UInt8.ofNat (hi.toNat <<< 4 ||| lo.toNat)])
      else .error .outOfBounds

/-- The variables of the loop over the records. -/
structure Fcp where
  haveSize : Bool := false
  haveId : Bool := false
  haveDesc : Bool := false
  fileSize : Nat := 0
  fileId : Nat := 0
  recLen : Nat := 0
  struct : UInt8 := 0
deriving DecidableEq

/-- Two bytes of the buffer as a number. -/
def loadPair (buf : Bytes) (offset : Nat) : Except Fault Nat := do
  let hi ← load buf offset
  let lo ← load buf (offset + 1)
  pure (hi.toNat <<< 8 ||| lo.toNat)

/-- The structure of a file, from its descriptor: 0 transparent, 1 linear, 3
cyclic. -/
def structOf (descriptor : UInt8) : UInt8 :=
  if descriptor &&& 7 = 1 then 0
  else if descriptor &&& 7 = 2 then 1
  else if descriptor &&& 7 = 6 then 3
  else 0

/-- What one record changes; its value begins at an offset of the buffer. -/
def fcpRecord (buf : Bytes) (tag : UInt8) (len val : Nat) (s : Fcp) : Except Fault Fcp :=
  if tag = 0x80 then
    if 2 ≤ len then do
      let fileSize ← loadPair buf (val + (len - 2))
      pure { s with fileSize, haveSize := true }
    else pure s
  else if tag = 0x83 then
    if len = 2 then do
      let fileId ← loadPair buf val
      pure { s with fileId, haveId := true }
    else pure s
  else if tag = 0x82 then
    if 1 ≤ len then do
      let descriptor ← load buf val
      let s : Fcp := { s with struct := structOf descriptor, haveDesc := true }
      if 5 ≤ len then do
        let recLen ← loadPair buf (val + 2)
        pure { s with recLen }
      else pure s
    else pure s
  else pure s

/-- The loop over the records; every round moves the offset towards the end. -/
def fcpLoop (buf : Bytes) (finish off : Nat) (s : Fcp) : Except Fault Fcp :=
  if off + 2 ≤ finish then do
    let tag ← load buf off
    let len ← load buf (off + 1)
    if off + 2 + len.toNat > finish then pure s
    else do
      let s ← fcpRecord buf tag len.toNat (off + 2) s
      fcpLoop buf finish (off + 2 + len.toNat) s
  else pure s
termination_by finish - off

/-- The fifteen bytes of the response. -/
def Fcp.out (s : Fcp) : Bytes :=
  [0, 0, UInt8.ofNat (s.fileSize >>> 8 &&& 0xff), UInt8.ofNat (s.fileSize &&& 0xff),
    UInt8.ofNat (s.fileId >>> 8 &&& 0xff), UInt8.ofNat (s.fileId &&& 0xff), 4, 0, 0, 0, 0, 1, 2,
    s.struct, UInt8.ofNat (s.recLen &&& 0xff)]

/-- The switch `persist.m681.ril.fcp`. -/
def forgeGate (prop : PropertyValue) : Bool := 0 < prop.bytes.length && atoi prop.bytes ≠ 0

/-- From the decoded bytes to the response. -/
def forgeTemplate (alloc : Bool) (buf : Bytes) : Except Fault (Option Bytes) := do
  let first ← load buf 0
  if first ≠ 0x62 then pure none
  else do
    let len ← load buf 1
    if len &&& 0x80 ≠ 0 then pure none
    else do
      let s ← fcpLoop buf (min (2 + len.toNat) buf.length) 2 {}
      if !s.haveSize || !s.haveId || !s.haveDesc then pure none
      else if !alloc then pure none
      else pure (some (encodeHex s.out))

/-- `none` is the null pointer, with which the caller passes the answer of the SIM
through. `alloc` says whether the result could be allocated. -/
def forgeFcpToLegacy (prop : PropertyValue) (alloc : Bool) (hex : Option CString) :
    Except Fault (Option Bytes) :=
  if !forgeGate prop then pure none
  else
    match hex with
    | none => pure none
    | some hex =>
        let hlen := hex.bytes.length
        if hlen < 4 ∨ hlen % 2 ≠ 0 ∨ hlen > 512 then pure none
        else do
          match ← decodeLoop (hex.bytes ++ [0]) (hlen / 2) [] with
          | none => pure none
          | some buf => forgeTemplate alloc buf

end Source

section Fields

/-- The last two bytes of a file size. -/
def sizeField (t : Tlv) : Option (UInt8 × UInt8) :=
  if t.tag = 0x80 ∧ 2 ≤ t.value.length then
    some (t.value.getD (t.value.length - 2) 0, t.value.getD (t.value.length - 1) 0)
  else none

def idField (t : Tlv) : Option (UInt8 × UInt8) :=
  if t.tag = 0x83 ∧ t.value.length = 2 then some (t.value.getD 0 0, t.value.getD 1 0) else none

def structField (t : Tlv) : Option UInt8 :=
  if t.tag = 0x82 ∧ 1 ≤ t.value.length then some (structOf (t.value.getD 0 0)) else none

def recordField (t : Tlv) : Option (UInt8 × UInt8) :=
  if t.tag = 0x82 ∧ 5 ≤ t.value.length then some (t.value.getD 2 0, t.value.getD 3 0) else none

/-- The response layout for a file. -/
def legacy (size id : UInt8 × UInt8) (struct recLen : UInt8) : Bytes :=
  [0, 0, size.1, size.2, id.1, id.2, 4, 0, 0, 0, 0, 1, 2, struct, recLen]

end Fields

section Decode

theorem forgeHexNibble_eq (c : UInt8) :
    forgeHexNibble c = ((hexDigit? c).map fun n => (n.toNat : Int)).getD (-1) := by
  unfold forgeHexNibble hexDigit?
  split_ifs <;> rfl

theorem forgeHexNibble_neg_iff {c : UInt8} : forgeHexNibble c < 0 ↔ hexDigit? c = none := by
  rw [forgeHexNibble_eq]
  cases hexDigit? c with
  | none => simp
  | some n => simp

theorem ofNat_nibbles {hi lo : UInt8} (hhi : hi < 16) (hlo : lo < 16) :
    UInt8.ofNat (hi.toNat <<< 4 ||| lo.toNat) = joinNibbles hi lo := by
  have hhi' : hi.toNat < 16 := hhi
  have hlo' : lo.toNat < 2 ^ 4 := hlo
  rw [← UInt8.toNat_inj, toNat_joinNibbles hhi hlo, ← Nat.shiftLeft_add_eq_or_of_lt hlo',
    Nat.shiftLeft_eq, UInt8.toNat_ofNat']
  omega

/-- The loop decodes the text, with room for every byte. -/
theorem decodeLoop_eq (before after : Bytes) (rounds : Nat) (text buf : Bytes)
    (hbefore : before.length = 2 * buf.length) (htext : text.length = 2 * rounds)
    (hroom : buf.length + rounds ≤ 256) :
    decodeLoop (before ++ (text ++ after)) rounds buf =
      .ok ((decodeHex text).map fun rest => buf ++ rest) := by
  induction rounds generalizing before text buf with
  | zero =>
      have hnil : text = [] := List.length_eq_zero_iff.mp (by simpa using htext)
      rw [hnil]
      simp [decodeLoop, decodeHex, pure, Except.pure]
  | succ rounds ih =>
      obtain ⟨hi, rest, rfl⟩ := List.exists_cons_of_length_pos (by omega : 0 < text.length)
      simp only [List.length_cons] at htext
      obtain ⟨lo, text, rfl⟩ := List.exists_cons_of_length_pos (by omega : 0 < rest.length)
      simp only [List.length_cons] at htext
      have hfirst : load (before ++ (hi :: lo :: text ++ after)) (2 * buf.length) = .ok hi :=
        load_append hbefore.symm
      have hsplit : before ++ (hi :: lo :: text ++ after) =
          (before ++ [hi]) ++ lo :: (text ++ after) := by simp
      have hsecond : load (before ++ (hi :: lo :: text ++ after)) (2 * buf.length + 1) =
          .ok lo := by
        rw [hsplit]
        exact load_append (by simp [hbefore])
      simp only [decodeLoop, hfirst, hsecond, ok_bind, forgeHexNibble_neg_iff]
      rcases hhi : hexDigit? hi with _ | high
      · simp [decodeHex, hhi, pure, Except.pure]
      · rcases hlo : hexDigit? lo with _ | low
        · simp [decodeHex, hhi, hlo, pure, Except.pure]
        · have hbyte : UInt8.ofNat
              ((forgeHexNibble hi).toNat <<< 4 ||| (forgeHexNibble lo).toNat) =
                joinNibbles high low := by
            rw [forgeHexNibble_eq, forgeHexNibble_eq, hhi, hlo]
            exact ofNat_nibbles (hexDigit?_lt hhi) (hexDigit?_lt hlo)
          have hpast : before ++ (hi :: lo :: text ++ after) =
              (before ++ [hi, lo]) ++ (text ++ after) := by simp
          have hnext := ih (before ++ [hi, lo]) text (buf ++ [joinNibbles high low])
            (by simp only [List.length_append, List.length_cons, List.length_nil]; omega)
            (by omega) (by simp only [List.length_append, List.length_singleton]; omega)
          have hfree : buf.length < 256 := by omega
          simp only [reduceCtorEq, or_self, if_false, hbyte, if_pos hfree, hpast, hnext, decodeHex,
            hhi, hlo, Option.map_map]
          simp [Function.comp_def]

end Decode

section Records

/-- The number of two bytes. -/
def pairNat (p : UInt8 × UInt8) : Nat := p.1.toNat <<< 8 ||| p.2.toNat

/-- What a record changes, from its fields. -/
def Fcp.record (s : Fcp) (t : Tlv) : Fcp where
  haveSize := s.haveSize || (sizeField t).isSome
  haveId := s.haveId || (idField t).isSome
  haveDesc := s.haveDesc || (structField t).isSome
  fileSize := ((sizeField t).map pairNat).getD s.fileSize
  fileId := ((idField t).map pairNat).getD s.fileId
  recLen := ((recordField t).map pairNat).getD s.recLen
  struct := (structField t).getD s.struct

section Value

variable {before after : Bytes} {t : Tlv} {len : UInt8}

theorem load_value {i k : Nat} (hi : i = before.length + 2 + k) (hk : k < t.value.length) :
    load (before ++ t.tag :: len :: (t.value ++ after)) i = .ok (t.value.getD k 0) := by
  have hsplit : before ++ t.tag :: len :: (t.value ++ after) =
      (before ++ [t.tag, len]) ++ (t.value ++ after) := by simp
  have hplace : before.length + 2 + k = (before ++ [t.tag, len]).length + k := by simp
  rw [load_eq_ok_iff, hsplit, hi, hplace, List.getElem?_append_right (by omega),
    Nat.add_sub_cancel_left, List.getElem?_append_left hk, List.getD_eq_getElem?_getD,
    List.getElem?_eq_getElem hk, Option.getD_some]

theorem loadPair_value {i k : Nat} (hi : i = before.length + 2 + k)
    (hk : k + 1 < t.value.length) :
    loadPair (before ++ t.tag :: len :: (t.value ++ after)) i =
      .ok (pairNat (t.value.getD k 0, t.value.getD (k + 1) 0)) := by
  have hnext : i + 1 = before.length + 2 + (k + 1) := by omega
  rw [loadPair, load_value hi (by omega), ok_bind, load_value hnext hk]
  rfl

end Value

/-- The reads of a record are inside of its value. -/
theorem fcpRecord_eq (before after : Bytes) (t : Tlv) (len : UInt8) (s : Fcp) :
    fcpRecord (before ++ t.tag :: len :: (t.value ++ after)) t.tag t.value.length
      (before.length + 2) s = .ok (s.record t) := by
  unfold fcpRecord
  by_cases hsize : t.tag = 0x80
  · rw [if_pos hsize]
    by_cases hlen : 2 ≤ t.value.length
    · have hlast : t.value.length - 2 + 1 = t.value.length - 1 := by omega
      rw [if_pos hlen, loadPair_value rfl (by omega), ok_bind, hlast]
      simp [Fcp.record, sizeField, idField, structField, recordField, hsize, hlen, pure, Except.pure]
    · rw [if_neg hlen]
      simp [Fcp.record, sizeField, idField, structField, recordField, hsize, hlen, pure, Except.pure]
  · rw [if_neg hsize]
    by_cases hid : t.tag = 0x83
    · rw [if_pos hid]
      by_cases hlen : t.value.length = 2
      · have hplace : before.length + 2 = before.length + 2 + 0 := rfl
        rw [if_pos hlen, loadPair_value hplace (by omega), ok_bind]
        simp [Fcp.record, sizeField, idField, structField, recordField, hid, hlen, pure, Except.pure]
      · rw [if_neg hlen]
        simp [Fcp.record, sizeField, idField, structField, recordField, hid, hlen, pure, Except.pure]
    · rw [if_neg hid]
      by_cases hdesc : t.tag = 0x82
      · have hplace : before.length + 2 = before.length + 2 + 0 := rfl
        rw [if_pos hdesc]
        by_cases hlen : 1 ≤ t.value.length
        · rw [if_pos hlen, load_value hplace (by omega), ok_bind]
          by_cases hrecord : 5 ≤ t.value.length
          · simp only [if_pos hrecord]
            rw [loadPair_value rfl (by omega), ok_bind]
            simp [Fcp.record, sizeField, idField, structField, recordField, hdesc, hlen, hrecord,
              pure, Except.pure]
          · simp only [if_neg hrecord]
            simp [Fcp.record, sizeField, idField, structField, recordField, hdesc, hlen, hrecord,
              pure, Except.pure]
        · have hrecord : ¬ 5 ≤ t.value.length := by omega
          rw [if_neg hlen]
          simp [Fcp.record, sizeField, idField, structField, recordField, hdesc, hlen, hrecord, pure,
            Except.pure]
      · rw [if_neg hdesc]
        simp [Fcp.record, sizeField, idField, structField, recordField, hsize, hid, hdesc, pure,
          Except.pure]

/-- One round of the loop, on a record that fits. -/
theorem fcpLoop_record (before after : Bytes) (t : Tlv) {len : UInt8} (finish : Nat) (s : Fcp)
    (hlen : len.toNat = t.value.length) (hfits : before.length + 2 + t.value.length ≤ finish) :
    fcpLoop (before ++ t.tag :: len :: (t.value ++ after)) finish before.length s =
      fcpLoop (before ++ t.tag :: len :: (t.value ++ after)) finish
        (before.length + 2 + t.value.length) (s.record t) := by
  have htag : load (before ++ t.tag :: len :: (t.value ++ after)) before.length = .ok t.tag :=
    load_append rfl
  have hsplit : before ++ t.tag :: len :: (t.value ++ after) =
      (before ++ [t.tag]) ++ len :: (t.value ++ after) := by simp
  have hlength : load (before ++ t.tag :: len :: (t.value ++ after)) (before.length + 1) =
      .ok len := by
    rw [hsplit]
    exact load_append (by simp)
  have hroom : before.length + 2 ≤ finish := by omega
  have hinside : ¬ before.length + 2 + t.value.length > finish := by omega
  rw [fcpLoop, if_pos hroom, htag, ok_bind, hlength, ok_bind, hlen, if_neg hinside, fcpRecord_eq,
    ok_bind]

/-- The loop ends at a record that does not fit. -/
theorem fcpLoop_overrun (before rest : Bytes) {tag len : UInt8} {finish : Nat} (s : Fcp)
    (hover : finish < before.length + 2 + len.toNat) :
    fcpLoop (before ++ tag :: len :: rest) finish before.length s = .ok s := by
  have htag : load (before ++ tag :: len :: rest) before.length = .ok tag := load_append rfl
  have hsplit : before ++ tag :: len :: rest = (before ++ [tag]) ++ len :: rest := by simp
  have hlength : load (before ++ tag :: len :: rest) (before.length + 1) = .ok len := by
    rw [hsplit]
    exact load_append (by simp)
  rw [fcpLoop, htag, ok_bind, hlength, ok_bind, if_pos hover, ite_self]
  rfl

theorem fcpLoop_end (buf : Bytes) {finish off : Nat} (s : Fcp) (h : finish < off + 2) :
    fcpLoop buf finish off s = .ok s := by
  rw [fcpLoop, if_neg (by omega)]
  rfl

/-- The loop over a part of the buffer is a fold over the records in it. -/
theorem fcpLoop_eq (before body after : Bytes) (s : Fcp) :
    fcpLoop (before ++ (body ++ after)) (before.length + body.length) before.length s =
      .ok ((records body).foldl Fcp.record s) := by
  induction body using records.induct generalizing before s with
  | case1 tag len rest hfits ih =>
      obtain ⟨value, tail, rfl, hvalue⟩ : ∃ value tail, rest = value ++ tail ∧
          len.toNat = value.length :=
        ⟨rest.take len.toNat, rest.drop len.toNat, (List.take_append_drop _ _).symm,
          (List.length_take_of_le hfits).symm⟩
      have hshort : value.length < 256 := hvalue ▸ len.toNat_lt
      rw [hvalue, List.drop_left] at ih
      have hrecords : records (tag :: len :: (value ++ tail)) =
          ⟨tag, value, hshort⟩ :: records tail := by
        simp only [records, hvalue, List.length_append, Nat.le_add_right, if_true, List.take_left,
          List.drop_left]
      have hround := fcpLoop_record before (tail ++ after) ⟨tag, value, hshort⟩
        (before.length + (tag :: len :: (value ++ tail)).length) s hvalue
        (by simp only [List.length_cons, List.length_append]; omega)
      have hnext := ih (before ++ tag :: len :: value) (s.record ⟨tag, value, hshort⟩)
      have hbuf : before ++ (tag :: len :: (value ++ tail) ++ after) =
          before ++ tag :: len :: (value ++ (tail ++ after)) := by simp
      have hpast : (before ++ tag :: len :: value) ++ (tail ++ after) =
          before ++ tag :: len :: (value ++ (tail ++ after)) := by simp
      have hplace : (before ++ tag :: len :: value).length = before.length + 2 + value.length := by
        simp only [List.length_append, List.length_cons]
        omega
      have hfinish : before.length + 2 + value.length + tail.length =
          before.length + (tag :: len :: (value ++ tail)).length := by
        simp only [List.length_append, List.length_cons]
        omega
      rw [hpast, hplace, hfinish] at hnext
      rw [hbuf, hround, hrecords, List.foldl_cons]
      exact hnext
  | case2 tag len rest hfits =>
      have hover : before.length + (tag :: len :: rest).length < before.length + 2 + len.toNat := by
        simp only [List.length_cons]
        omega
      rw [records, if_neg hfits]
      exact fcpLoop_overrun before (rest ++ after) s hover
  | case3 body hbody =>
      have hfew : body.length < 2 := by
        by_contra hmany
        obtain ⟨tag, rest, rfl⟩ := List.exists_cons_of_length_pos (by omega : 0 < body.length)
        simp only [List.length_cons] at hmany
        obtain ⟨len, rest, rfl⟩ := List.exists_cons_of_length_pos (by omega : 0 < rest.length)
        exact hbody tag len rest rfl
      rw [fcpLoop_end _ _ (by omega), records]
      · rfl
      · exact hbody

/-- What the records leave in the variables: the last field of each kind. -/
theorem foldl_record (ts : List Tlv) (s : Fcp) :
    ts.foldl Fcp.record s =
      { haveSize := s.haveSize || (lastSome sizeField ts).isSome
        haveId := s.haveId || (lastSome idField ts).isSome
        haveDesc := s.haveDesc || (lastSome structField ts).isSome
        fileSize := ((lastSome sizeField ts).map pairNat).getD s.fileSize
        fileId := ((lastSome idField ts).map pairNat).getD s.fileId
        recLen := ((lastSome recordField ts).map pairNat).getD s.recLen
        struct := (lastSome structField ts).getD s.struct } := by
  induction ts generalizing s with
  | nil => simp
  | cons t ts ih =>
      have hsome {α : Type} (a : Bool) (x y : Option α) :
          (a || x.isSome || y.isSome) = (a || (y.or x).isSome) := by
        cases y with
        | none => simp
        | some y => simp
      have hmap {α β : Type} (f : α → β) (x y : Option α) (d : β) :
          (y.map f).getD ((x.map f).getD d) = ((y.or x).map f).getD d := by
        cases y with
        | none => simp
        | some y => simp
      have hget {α : Type} (x y : Option α) (d : α) :
          y.getD (x.getD d) = (y.or x).getD d := by
        cases y with
        | none => simp
        | some y => simp
      rw [List.foldl_cons, ih]
      simp only [lastSome_cons, Fcp.record, hsome, hmap, hget]

end Records

/-- A text that is decoded into a template with a short length, and the records in
it. -/
def IsTemplate (hex : Bytes) (ts : List Tlv) : Prop :=
  4 ≤ hex.length ∧ hex.length ≤ 512 ∧ ∃ len body, HexOf hex (0x62 :: len :: body) ∧ len < 0x80 ∧
    ts = records (body.take len.toNat)

/-- The response for records that have all that is needed. -/
def legacyOf (ts : List Tlv) : Option Bytes := do
  let size ← lastSome sizeField ts
  let id ← lastSome idField ts
  let struct ← lastSome structField ts
  some (encodeHex (legacy size id struct (((lastSome recordField ts).map Prod.snd).getD 0)))

section Template

/-- The bytes of a number of two bytes. -/
theorem pairNat_bytes (p : UInt8 × UInt8) :
    UInt8.ofNat (pairNat p >>> 8 &&& 0xff) = p.1 ∧ UInt8.ofNat (pairNat p &&& 0xff) = p.2 := by
  have hhi := p.1.toNat_lt
  have hlo : p.2.toNat < 2 ^ 8 := p.2.toNat_lt
  have hmask (n : Nat) : n &&& 0xff = n % 256 := Nat.and_two_pow_sub_one_eq_mod n 8
  rw [pairNat, ← Nat.shiftLeft_add_eq_or_of_lt hlo, Nat.shiftLeft_eq, Nat.shiftRight_eq_div_pow,
    hmask, hmask]
  constructor
  · apply UInt8.toNat_inj.mp
    rw [UInt8.toNat_ofNat']
    omega
  · apply UInt8.toNat_inj.mp
    rw [UInt8.toNat_ofNat']
    omega

theorem out_eq (size id : UInt8 × UInt8) (struct : UInt8) (recLen : Option (UInt8 × UInt8)) :
    Fcp.out
        { haveSize := true
          haveId := true
          haveDesc := true
          fileSize := pairNat size
          fileId := pairNat id
          recLen := (recLen.map pairNat).getD 0
          struct := struct } =
      legacy size id struct ((recLen.map Prod.snd).getD 0) := by
  simp only [Fcp.out, legacy, (pairNat_bytes size).1, (pairNat_bytes size).2,
    (pairNat_bytes id).1, (pairNat_bytes id).2]
  cases recLen with
  | none => rfl
  | some p => simp only [Option.map_some, Option.getD_some, (pairNat_bytes p).2]

/-- The short form of a length. -/
theorem and_0x80_eq_zero_iff (len : UInt8) : len &&& 0x80 = 0 ↔ len < 0x80 := by
  have hlt := len.toNat_lt
  rw [← UInt8.toNat_inj, UInt8.lt_iff_toNat_lt, UInt8.toNat_and]
  simp only [UInt8.reduceToNat]
  constructor
  · intro h
    have hbit : (len.toNat &&& 2 ^ 7).testBit 7 = (0 : Nat).testBit 7 :=
      congrArg (fun n : Nat => n.testBit 7) h
    rw [Nat.testBit_and, Nat.testBit_two_pow_self, Bool.and_true, Nat.zero_testBit,
      Nat.testBit_eq_decide_div_mod_eq, decide_eq_false_iff_not] at hbit
    omega
  · intro h
    apply Nat.eq_of_testBit_eq
    intro i
    have hpow : (128 : Nat) = 2 ^ 7 := rfl
    rw [Nat.testBit_and, hpow, Nat.testBit_two_pow, Nat.zero_testBit]
    rcases eq_or_ne 7 i with rfl | hi
    · rw [Nat.testBit_lt_two_pow (by simpa using h), Bool.false_and]
    · rw [decide_eq_false hi, Bool.and_false]

theorem forgeTemplate_of_template (alloc : Bool) {len : UInt8} (body : Bytes) (hshort : len < 0x80) :
    forgeTemplate alloc (0x62 :: len :: body) =
      .ok (if alloc then legacyOf (records (body.take len.toNat)) else none) := by
  have hloop := fcpLoop_eq [0x62, len] (body.take len.toNat) (body.drop len.toNat) {}
  have hfinish : min (2 + len.toNat) (0x62 :: len :: body : Bytes).length =
      ([0x62, len] : Bytes).length + (body.take len.toNat).length := by
    simp only [List.length_cons, List.length_nil, List.length_take]
    omega
  rw [List.take_append_drop, ← hfinish] at hloop
  have hfirst : load (0x62 :: len :: body) 0 = .ok 0x62 := rfl
  have hlen : load (0x62 :: len :: body) 1 = .ok len := rfl
  have hform : ¬ len &&& 0x80 ≠ 0 := by
    rw [not_not, and_0x80_eq_zero_iff]
    exact hshort
  simp only [forgeTemplate, hfirst, hlen, ok_bind, ne_eq, not_true_eq_false, if_false]
  rw [if_neg hform]
  have hrun : fcpLoop (0x62 :: len :: body) (min (2 + len.toNat) (0x62 :: len :: body).length) 2 {} =
      .ok ((records (body.take len.toNat)).foldl Fcp.record {}) := hloop
  rw [hrun, ok_bind, foldl_record, legacyOf]
  cases lastSome sizeField (records (body.take len.toNat)) with
  | none => cases alloc <;> rfl
  | some size =>
      cases lastSome idField (records (body.take len.toNat)) with
      | none => cases alloc <;> rfl
      | some id =>
          cases lastSome structField (records (body.take len.toNat)) with
          | none => cases alloc <;> rfl
          | some struct =>
              have hout := out_eq size id struct
                (lastSome recordField (records (body.take len.toNat)))
              cases alloc with
              | false => rfl
              | true => exact congrArg (fun out => Except.ok (some (encodeHex out))) hout

/-- What does not begin as a template is not translated. -/
theorem forgeTemplate_of_other (alloc : Bool) {first len : UInt8} (body : Bytes)
    (h : ¬ (first = 0x62 ∧ len < 0x80)) :
    forgeTemplate alloc (first :: len :: body) = .ok none := by
  have hfirst : load (first :: len :: body) 0 = .ok first := rfl
  have hlen : load (first :: len :: body) 1 = .ok len := rfl
  simp only [forgeTemplate, hfirst, hlen, ok_bind]
  by_cases htag : first = 0x62
  · have hform : len &&& 0x80 ≠ 0 := by
      rw [Ne, and_0x80_eq_zero_iff]
      exact fun hshort => h ⟨htag, hshort⟩
    rw [if_neg (not_not.mpr htag), if_pos hform]
    rfl
  · rw [if_pos htag]
    rfl

theorem length_legacyOf {ts : List Tlv} {out : Bytes} (h : legacyOf ts = some out) :
    out.length = 30 ∧ ∀ c ∈ out, ∃ n, n < 16 ∧ c = upperDigit n := by
  simp only [legacyOf, Option.bind_eq_bind, Option.bind_eq_some_iff, Option.some.injEq] at h
  obtain ⟨size, -, id, -, struct, -, rfl⟩ := h
  exact ⟨(hexOf_encodeHex _).length, fun c hc => mem_encodeHex hc⟩

variable {prop : PropertyValue} {alloc : Bool} {hex : CString}

theorem forgeFcpToLegacy_of_template (hgate : forgeGate prop = true) {ts : List Tlv}
    (h : IsTemplate hex.bytes ts) :
    forgeFcpToLegacy prop alloc (some hex) = .ok (if alloc then legacyOf ts else none) := by
  obtain ⟨hlo, hhi, len, body, htext, hshort, rfl⟩ := h
  have hlength := htext.length
  have hrange : ¬ (hex.bytes.length < 4 ∨ hex.bytes.length % 2 ≠ 0 ∨ hex.bytes.length > 512) := by
    omega
  have hdecode := decodeLoop_eq [] [0] (hex.bytes.length / 2) hex.bytes [] rfl (by omega)
    (by simp only [List.length_nil]; omega)
  rw [List.nil_append, decodeHex_of_hexOf htext] at hdecode
  simp only [forgeFcpToLegacy, hgate, Bool.not_true, Bool.false_eq_true, if_false, if_neg hrange,
    hdecode, ok_bind, Option.map_some, List.nil_append]
  exact forgeTemplate_of_template alloc body hshort

theorem forgeFcpToLegacy_of_other (hgate : forgeGate prop = true)
    (h : ¬ ∃ ts, IsTemplate hex.bytes ts) :
    forgeFcpToLegacy prop alloc (some hex) = .ok none := by
  simp only [forgeFcpToLegacy, hgate, Bool.not_true, Bool.false_eq_true, if_false]
  split
  · rfl
  · rename_i hrange
    have hdecode := decodeLoop_eq [] [0] (hex.bytes.length / 2) hex.bytes [] rfl (by omega)
      (by simp only [List.length_nil]; omega)
    rw [List.nil_append] at hdecode
    rw [hdecode, ok_bind]
    cases hbytes : decodeHex hex.bytes with
    | none => rfl
    | some bytes =>
        have htext := decodeHex_eq_some_iff.mp hbytes
        have hlength := htext.length
        obtain ⟨first, rest, rfl⟩ := List.exists_cons_of_length_pos (by omega : 0 < bytes.length)
        simp only [List.length_cons] at hlength
        obtain ⟨len, body, rfl⟩ := List.exists_cons_of_length_pos (by omega : 0 < rest.length)
        apply forgeTemplate_of_other
        rintro ⟨rfl, hshort⟩
        exact h ⟨_, by omega, by omega, len, body, htext, hshort, rfl⟩

end Template

section FileTemplates

/-- The structures of a file that a SIM has. -/
inductive FileKind where
  | transparent
  | linearFixed
  | cyclic
deriving DecidableEq

/-- The low bits of the file descriptor byte. -/
def FileKind.bits : FileKind → UInt8
  | .transparent => 1
  | .linearFixed => 2
  | .cyclic => 6

/-- The structure byte of the response. -/
def FileKind.code : FileKind → UInt8
  | .transparent => 0
  | .linearFixed => 1
  | .cyclic => 3

def highByte (n : Nat) : UInt8 := UInt8.ofNat (n / 256)

def lowByte (n : Nat) : UInt8 := UInt8.ofNat n

/-- The size of a file, with zeros in front. -/
def IsSize (fileSize : Nat) (t : Tlv) : Prop :=
  t.tag = 0x80 ∧ ∃ zeros, t.value = List.replicate zeros 0 ++ [highByte fileSize, lowByte fileSize]

def IsId (fileId : Nat) (t : Tlv) : Prop :=
  t.tag = 0x83 ∧ t.value = [highByte fileId, lowByte fileId]

/-- A descriptor byte of the kind, a coding byte and, for a file of records, the
length and the number of the records. -/
def IsDescriptor (kind : FileKind) (recordLength : Nat) (t : Tlv) : Prop :=
  t.tag = 0x82 ∧ ∃ descriptor coding, descriptor &&& 7 = kind.bits ∧
    if kind = .transparent then t.value = [descriptor, coding]
    else ∃ count, t.value = [descriptor, coding, 0, lowByte recordLength, count]

def isCore (t : Tlv) : Bool := t.tag = 0x80 || t.tag = 0x83 || t.tag = 0x82

/-- A file, and the records of its template: size, identifier and descriptor in any
order, with records of other tags between them. -/
structure FileTemplate where
  fileSize : Nat
  fileId : Nat
  kind : FileKind
  recordLength : Nat
  items : List Tlv
  sizeFits : fileSize < 65536
  idFits : fileId < 65536
  recordFits : recordLength < 256
  core : ∃ size id descriptor, IsSize fileSize size ∧ IsId fileId id ∧
    IsDescriptor kind recordLength descriptor ∧ (items.filter isCore).Perm [size, id, descriptor]
  short : (items.flatMap Tlv.bytes).length < 128

def FileTemplate.bytes (t : FileTemplate) : Bytes :=
  0x62 :: UInt8.ofNat (t.items.flatMap Tlv.bytes).length :: t.items.flatMap Tlv.bytes

/-- The response for the file. A transparent file has no record length. -/
def FileTemplate.response (t : FileTemplate) : Bytes :=
  legacy (highByte t.fileSize, lowByte t.fileSize) (highByte t.fileId, lowByte t.fileId) t.kind.code
    (if t.kind = .transparent then 0 else lowByte t.recordLength)

theorem structOf_bits {kind : FileKind} {descriptor : UInt8} (h : descriptor &&& 7 = kind.bits) :
    structOf descriptor = kind.code := by
  cases kind with
  | transparent => simp [structOf, h, FileKind.bits, FileKind.code]
  | linearFixed => simp [structOf, h, FileKind.bits, FileKind.code]
  | cyclic => simp [structOf, h, FileKind.bits, FileKind.code]

section Items

variable {items : List Tlv} {size id descriptor : Tlv}

/-- Of the three records, each is the only one with its tag. -/
theorem filter_tag (hperm : (items.filter isCore).Perm [size, id, descriptor]) {tag : UInt8}
    {t : Tlv} (htag : ∀ u : Tlv, u.tag = tag → isCore u = true)
    (hone : [size, id, descriptor].filter (fun u => u.tag = tag) = [t]) :
    items.filter (fun u => u.tag = tag) = [t] := by
  have hfilter := hperm.filter (fun u => u.tag = tag)
  rw [hone, List.perm_singleton, List.filter_filter] at hfilter
  rw [← hfilter]
  apply List.filter_congr
  intro u _
  by_cases hu : u.tag = tag
  · simp [hu, htag u hu]
  · simp [hu]

/-- A field that only records of one of the three tags have is that of the one record. -/
theorem lastSome_tag {α : Type} {f : Tlv → Option α}
    (hperm : (items.filter isCore).Perm [size, id, descriptor]) (tag : UInt8) {t : Tlv}
    (htag : ∀ u : Tlv, u.tag = tag → isCore u = true)
    (hone : [size, id, descriptor].filter (fun u => u.tag = tag) = [t])
    (hother : ∀ u : Tlv, ¬ u.tag = tag → f u = none) : lastSome f items = f t := by
  apply lastSome_of_single _ (filter_tag hperm htag hone)
  intro u hu
  exact hother u (of_decide_eq_false hu)

end Items

section LastFields

theorem sizeField_of_isSize {fileSize : Nat} {t : Tlv} (h : IsSize fileSize t) :
    sizeField t = some (highByte fileSize, lowByte fileSize) := by
  obtain ⟨htag, zeros, hvalue⟩ := h
  have hlength : t.value.length = zeros + 2 := by simp [hvalue]
  have hlast : zeros + 2 - 1 = zeros + 1 := by omega
  rw [sizeField, if_pos ⟨htag, by omega⟩, hlength, hlast, Nat.add_sub_cancel, hvalue]
  simp [List.getD_eq_getElem?_getD]

theorem idField_of_isId {fileId : Nat} {t : Tlv} (h : IsId fileId t) :
    idField t = some (highByte fileId, lowByte fileId) := by
  obtain ⟨htag, hvalue⟩ := h
  rw [idField, if_pos ⟨htag, by simp [hvalue]⟩, hvalue]
  rfl

variable {kind : FileKind} {recordLength : Nat} {t : Tlv}

theorem structField_of_isDescriptor (h : IsDescriptor kind recordLength t) :
    structField t = some kind.code := by
  obtain ⟨htag, descriptor, coding, hbits, hvalue⟩ := h
  rw [← structOf_bits hbits]
  split at hvalue
  · rw [structField, if_pos ⟨htag, by simp [hvalue]⟩, hvalue]
    rfl
  · obtain ⟨count, hvalue⟩ := hvalue
    rw [structField, if_pos ⟨htag, by simp [hvalue]⟩, hvalue]
    rfl

theorem recordField_of_isDescriptor (h : IsDescriptor kind recordLength t) :
    ((recordField t).map Prod.snd).getD 0 =
      if kind = .transparent then 0 else lowByte recordLength := by
  obtain ⟨htag, descriptor, coding, hbits, hvalue⟩ := h
  split at hvalue
  · rename_i hkind
    have hfew : ¬ (t.tag = 0x82 ∧ 5 ≤ t.value.length) := by simp [hvalue]
    rw [recordField, if_neg hfew, if_pos hkind]
    rfl
  · rename_i hkind
    obtain ⟨count, hvalue⟩ := hvalue
    rw [recordField, if_pos ⟨htag, by simp [hvalue]⟩, if_neg hkind, hvalue]
    rfl

end LastFields

/-- The fields of a template are those of its own records, whatever stands between
them. -/
theorem FileTemplate.legacyOf_items (t : FileTemplate) :
    legacyOf t.items = some (encodeHex t.response) := by
  obtain ⟨size, id, descriptor, hsize, hid, hdesc, hperm⟩ := t.core
  have hlastSize : lastSome sizeField t.items = sizeField size := by
    apply lastSome_tag hperm 0x80
    · intro u hu
      simp [isCore, hu]
    · simp [hsize.1, hid.1, hdesc.1]
    · intro u hu
      simp [sizeField, hu]
  have hlastId : lastSome idField t.items = idField id := by
    apply lastSome_tag hperm 0x83
    · intro u hu
      simp [isCore, hu]
    · simp [hsize.1, hid.1, hdesc.1]
    · intro u hu
      simp [idField, hu]
  have hlastStruct : lastSome structField t.items = structField descriptor := by
    apply lastSome_tag hperm 0x82
    · intro u hu
      simp [isCore, hu]
    · simp [hsize.1, hid.1, hdesc.1]
    · intro u hu
      simp [structField, hu]
  have hlastRecord : lastSome recordField t.items = recordField descriptor := by
    apply lastSome_tag hperm 0x82
    · intro u hu
      simp [isCore, hu]
    · simp [hsize.1, hid.1, hdesc.1]
    · intro u hu
      simp [recordField, hu]
  simp only [legacyOf, hlastSize, hlastId, hlastStruct, hlastRecord, sizeField_of_isSize hsize,
    idField_of_isId hid, structField_of_isDescriptor hdesc, recordField_of_isDescriptor hdesc,
    Option.bind_eq_bind, Option.bind_some]
  rfl

theorem FileTemplate.isTemplate (t : FileTemplate) {hex : Bytes} (h : HexOf hex t.bytes) :
    IsTemplate hex t.items := by
  have hlength := h.length
  have hshort := t.short
  simp only [FileTemplate.bytes, List.length_cons] at hlength
  have hlen : (UInt8.ofNat (t.items.flatMap Tlv.bytes).length).toNat =
      (t.items.flatMap Tlv.bytes).length := by
    rw [UInt8.toNat_ofNat']
    exact Nat.mod_eq_of_lt (by omega)
  refine ⟨by omega, by omega, _, _, h, ?_, ?_⟩
  · rw [UInt8.lt_iff_toNat_lt, hlen]
    exact hshort
  · rw [hlen, List.take_length, records_flatMap]

end FileTemplates

/-- With the switch on: the translation ends, without a read outside of the decoded
bytes; it gives nothing exactly for text that is no template or lacks a record; and
it gives the response of what the records say, for a template of a file that of the
file. -/
structure FcpLaw (prop : PropertyValue) (hex : CString) : Prop where
  safe : ∀ alloc, Safe (forgeFcpToLegacy prop alloc (some hex))
  none_iff : forgeFcpToLegacy prop true (some hex) = .ok none ↔
    ¬ ∃ ts, IsTemplate hex.bytes ts ∧ (lastSome sizeField ts).isSome ∧
      (lastSome idField ts).isSome ∧ (lastSome structField ts).isSome
  translated : ∀ ts size id struct, IsTemplate hex.bytes ts → lastSome sizeField ts = some size →
    lastSome idField ts = some id → lastSome structField ts = some struct →
      forgeFcpToLegacy prop true (some hex) = .ok (some (encodeHex
        (legacy size id struct (((lastSome recordField ts).map Prod.snd).getD 0))))
  digits : ∀ alloc out, forgeFcpToLegacy prop alloc (some hex) = .ok (some out) →
    out.length = 30 ∧ ∀ c ∈ out, ∃ n, n < 16 ∧ c = upperDigit n
  file : ∀ t : FileTemplate, HexOf hex.bytes t.bytes →
    forgeFcpToLegacy prop true (some hex) = .ok (some (encodeHex t.response))

theorem legacyOf_eq_none_iff {ts : List Tlv} :
    legacyOf ts = none ↔ ¬ ((lastSome sizeField ts).isSome ∧ (lastSome idField ts).isSome ∧
      (lastSome structField ts).isSome) := by
  unfold legacyOf
  cases lastSome sizeField ts with
  | none => simp
  | some size =>
      cases lastSome idField ts with
      | none => simp
      | some id =>
          cases lastSome structField ts with
          | none => simp
          | some struct => simp

/-- A text is decoded in one way only. -/
theorem IsTemplate.unique {hex : Bytes} {ts us : List Tlv} (ht : IsTemplate hex ts)
    (hu : IsTemplate hex us) : ts = us := by
  obtain ⟨-, -, len, body, htext, -, rfl⟩ := ht
  obtain ⟨-, -, len', body', htext', -, rfl⟩ := hu
  have hsame := decodeHex_of_hexOf htext
  rw [decodeHex_of_hexOf htext', Option.some.injEq, List.cons.injEq, List.cons.injEq] at hsame
  obtain ⟨-, rfl, rfl⟩ := hsame
  rfl

theorem fcp_translation (prop : PropertyValue) (hex : CString) (hgate : forgeGate prop = true) :
    FcpLaw prop hex := by
  constructor
  · intro alloc
    by_cases htemplate : ∃ ts, IsTemplate hex.bytes ts
    · obtain ⟨ts, hts⟩ := htemplate
      exact ⟨_, forgeFcpToLegacy_of_template hgate hts⟩
    · exact ⟨_, forgeFcpToLegacy_of_other hgate htemplate⟩
  · by_cases htemplate : ∃ ts, IsTemplate hex.bytes ts
    · obtain ⟨ts, hts⟩ := htemplate
      rw [forgeFcpToLegacy_of_template hgate hts, if_pos rfl, Except.ok.injEq, legacyOf_eq_none_iff]
      constructor
      · rintro hmissing ⟨us, hus, hall⟩
        rw [hus.unique hts] at hall
        exact hmissing hall
      · intro hmissing hall
        exact hmissing ⟨ts, hts, hall⟩
    · apply iff_of_true (forgeFcpToLegacy_of_other hgate htemplate)
      rintro ⟨ts, hts, -⟩
      exact htemplate ⟨ts, hts⟩
  · intro ts size id struct hts hsize hid hstruct
    rw [forgeFcpToLegacy_of_template hgate hts, if_pos rfl, legacyOf, hsize, hid, hstruct]
    rfl
  · intro alloc out hout
    by_cases htemplate : ∃ ts, IsTemplate hex.bytes ts
    · obtain ⟨ts, hts⟩ := htemplate
      rw [forgeFcpToLegacy_of_template hgate hts, Except.ok.injEq] at hout
      split at hout
      · exact length_legacyOf hout
      · cases hout
    · rw [forgeFcpToLegacy_of_other hgate htemplate] at hout
      cases hout
  · intro t ht
    rw [forgeFcpToLegacy_of_template hgate (t.isTemplate ht), if_pos rfl, t.legacyOf_items]

/-- The switch set to "1". -/
def gateOn : PropertyValue := ⟨[49], by decide, by decide⟩

private def imsiSize : Tlv := ⟨0x80, [0, 9], by decide⟩
private def imsiId : Tlv := ⟨0x83, [0x6f, 7], by decide⟩
private def imsiDescriptor : Tlv := ⟨0x82, [0x41, 0x21], by decide⟩
private def lifeCycle : Tlv := ⟨0x8a, [5], by decide⟩

/-- The transparent file of the IMSI. -/
def imsiFile : FileTemplate where
  fileSize := 9
  fileId := 0x6f07
  kind := .transparent
  recordLength := 0
  items := [imsiDescriptor, imsiId, lifeCycle, imsiSize]
  sizeFits := by decide
  idFits := by decide
  recordFits := by decide
  core := ⟨imsiSize, imsiId, imsiDescriptor, ⟨rfl, 0, rfl⟩, ⟨rfl, rfl⟩,
    ⟨rfl, 0x41, 0x21, rfl, by rw [if_pos rfl]; rfl⟩, by decide⟩
  short := by decide

/-- The template in hexadecimal. -/
def imsiText : CString := ⟨encodeHex imsiFile.bytes, by decide⟩

/-- The file of the IMSI is translated. -/
theorem fcp_translation_imsi :
    forgeFcpToLegacy gateOn true (some imsiText) =
      .ok (some (encodeHex [0, 0, 0, 9, 0x6f, 7, 4, 0, 0, 0, 0, 1, 2, 0, 0])) :=
  (fcp_translation gateOn imsiText (by decide)).file imsiFile (hexOf_encodeHex imsiFile.bytes)

end MeizuM5c.Ril
