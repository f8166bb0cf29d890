import MeizuM5c.Lib.Hex
import MeizuM5c.Ril.VendorStrings

/-!
Incoming short messages. The vendor hands over the PDU as hexadecimal text, and
`convertHexStringToBytes` writes every byte twice, into a block of twice the
size. The length that is delivered is computed from the same `int` as the size of
the block.
-/

namespace MeizuM5c.Ril

open Lib

abbrev INVALID_HEX_CHAR : UInt8 := 16

/-- The sizes that `calloc` has a block for. No block is larger than
`PTRDIFF_MAX`. -/
structure Allocator where
  provides : Nat → Bool
  bounded : ∀ size, 2 ^ 63 ≤ size → provides size = false

def Allocator.calloc (heap : Allocator) (size : Nat) : Option Bytes :=
  if heap.provides size then some (List.replicate size 0) else none

/-- An `int` as a `size_t`. -/
def sizeT (x : Int) : Nat := (x % 2 ^ 64).toNat

def hexCharToInt (c : UInt8) : UInt8 :=
  if 48 ≤ c ∧ c ≤ 57 then c - 48
  else if 65 ≤ c ∧ c ≤ 70 then c - 65 + 10
  else if 97 ≤ c ∧ c ≤ 102 then c - 97 + 10
  else INVALID_HEX_CHAR

/-- The loop, with the number of rounds that are left. -/
def convertLoop (hexString : Bytes) (responseLen : Nat) :
    Nat → Nat → Bytes → Except Fault (Option Bytes)
  | 0, _, bytes => pure (some bytes)
  | rounds + 1, i, bytes => do
      let hexChar1 := hexCharToInt (← load hexString i)
      let hexChar2 := hexCharToInt (← load hexString (i + 1))
      if hexChar1 = INVALID_HEX_CHAR ∨ hexChar2 = INVALID_HEX_CHAR then pure none
      else do
        let bytes ← store bytes (i / 2) ((hexChar1 <<< 4) ||| hexChar2)
        let bytes ← store bytes ((responseLen + i) % 2 ^ 64 / 2) ((hexChar1 <<< 4) ||| hexChar2)
        convertLoop hexString responseLen rounds (i + 2) bytes

def convertHexStringToBytes (heap : Allocator) (hexString : Bytes) (responseLen : Nat) :
    Except Fault (Option Bytes) :=
  if responseLen % 2 ≠ 0 then pure none
  else
    match heap.calloc responseLen with
    | none => pure none
    | some bytes => convertLoop hexString responseLen (responseLen / 2) 0 bytes

/-- What is delivered to the framework. -/
inductive SmsEvent where
  | newSms (pdu : Bytes)
  | newSmsStatusReport (pdu : Bytes)
deriving DecidableEq

/-- Both indications do the same but for the method that they call. `ready` says
whether the slot has a receiver of indications. -/
def deliverPdu (event : Bytes → SmsEvent) (heap : Allocator) (ready : Bool)
    (response : Option CString) (responseLen : Nat) : Except Fault (List SmsEvent) :=
  if !ready then pure []
  else
    match response with
    | none => pure []
    | some st =>
        if responseLen = 0 then pure []
        else do
          let pduLen := wrapInt 32 st.bytes.length
          match ← convertHexStringToBytes heap (st.bytes ++ [0]) (sizeT pduLen) with
          | none => pure []
          | some bytes => do
              let pdu ← loadFront bytes (sizeT (pduLen.tdiv 2))
              pure [event pdu]

def newSmsInd : Allocator → Bool → Option CString → Nat → Except Fault (List SmsEvent) :=
  deliverPdu .newSms

def newSmsStatusReportInd :
    Allocator → Bool → Option CString → Nat → Except Fault (List SmsEvent) :=
  deliverPdu .newSmsStatusReport

/-- Text that stands for bytes is delivered as these bytes, any other text not at
all. -/
structure DeliversPdu (st : CString) (event : Bytes → SmsEvent)
    (run : Except Fault (List SmsEvent)) : Prop where
  encoded : ∀ pdu, HexOf st.bytes pdu → run = .ok [event pdu]
  rejected : (st.bytes.length % 2 = 1 ∨ ∃ c ∈ st.bytes, hexDigit? c = none) → run = .ok []

/-- Both indications deliver what they should, and no access of the conversion is
outside of its block, for any text and any length of it. -/
structure SmsLaw (heap : Allocator) (st : CString) : Prop where
  sms : ∀ responseLen, responseLen ≠ 0 →
    DeliversPdu st .newSms (newSmsInd heap true (some st) responseLen)
  report : ∀ responseLen, responseLen ≠ 0 →
    DeliversPdu st .newSmsStatusReport (newSmsStatusReportInd heap true (some st) responseLen)
  inside : ∀ hexString responseLen, responseLen ≤ hexString.length →
    Safe (convertHexStringToBytes heap hexString responseLen)

/-- Hexadecimal text is short enough for an `int`, and there is a block for it. Of
text that is none and too long for an `int`, the part that is converted instead is
none either. -/
structure SmsFits (heap : Allocator) (st : CString) : Prop where
  encoded : (∃ pdu, HexOf st.bytes pdu) →
    st.bytes.length < 2 ^ 31 ∧ heap.provides st.bytes.length = true
  rejected : decodeHex st.bytes = none → 2 ^ 31 ≤ st.bytes.length → ∀ n : Nat,
    wrapInt 32 st.bytes.length = n → heap.provides n = true →
      decodeHex (st.bytes.take n) = none

section Convert

theorem hexCharToInt_eq (c : UInt8) :
    hexCharToInt c = (hexDigit? c).getD INVALID_HEX_CHAR := by
  unfold hexCharToInt hexDigit?
  split_ifs <;> rfl

theorem hexCharToInt_eq_invalid_iff {c : UInt8} :
    hexCharToInt c = INVALID_HEX_CHAR ↔ hexDigit? c = none := by
  rw [hexCharToInt_eq]
  cases hc : hexDigit? c with
  | none => simp
  | some n =>
      have hlt := hexDigit?_lt hc
      simp only [Option.getD_some, reduceCtorEq, iff_false]
      rintro rfl
      exact absurd hlt (by decide)

/-- A block whose two halves begin with the bytes so far. -/
def halves (done : Bytes) (rounds : Nat) : Bytes :=
  done ++ List.replicate rounds 0 ++ (done ++ List.replicate rounds 0)

/-- The two writes of a round. -/
theorem store_halves {done : Bytes} {rounds i responseLen : Nat} (hmax : responseLen < 2 ^ 63)
    (hi : i = 2 * done.length) (hlen : responseLen = 2 * (done.length + (rounds + 1))) (b : UInt8) :
    (do
      let bytes ← store (halves done (rounds + 1)) (i / 2) b
      store bytes ((responseLen + i) % 2 ^ 64 / 2) b) = .ok (halves (done ++ [b]) rounds) := by
  have hblock : halves done (rounds + 1) =
      done ++ (0 : UInt8) :: (List.replicate rounds 0 ++
        (done ++ 0 :: List.replicate rounds 0)) := by
    simp [halves, List.replicate_succ]
  have hmiddle : done ++ b :: (List.replicate rounds 0 ++ (done ++ 0 :: List.replicate rounds 0)) =
      (done ++ b :: (List.replicate rounds 0 ++ done)) ++ 0 :: List.replicate rounds 0 := by
    simp
  have hback : (responseLen + i) % 2 ^ 64 / 2 =
      (done ++ b :: (List.replicate rounds 0 ++ done)).length := by
    simp only [List.length_append, List.length_cons, List.length_replicate]
    omega
  rw [hblock, store_append (by omega), ok_bind, hmiddle, store_append hback]
  simp [halves]

/-- The rest of the text decides what becomes of the block. -/
theorem convertLoop_eq (before after : Bytes) {responseLen : Nat} (hmax : responseLen < 2 ^ 63)
    (rounds : Nat) (text done : Bytes) (hbefore : before.length = 2 * done.length)
    (htext : text.length = 2 * rounds) (hlen : responseLen = 2 * (done.length + rounds)) :
    convertLoop (before ++ (text ++ after)) responseLen rounds before.length
        (halves done rounds) =
      .ok ((decodeHex text).map fun rest => halves (done ++ rest) 0) := by
  induction rounds generalizing before text done with
  | zero =>
      have hnil : text = [] := List.length_eq_zero_iff.mp (by simpa using htext)
      rw [hnil]
      simp [convertLoop, decodeHex, pure, Except.pure]
  | succ rounds ih =>
      obtain ⟨hi, rest, rfl⟩ := List.exists_cons_of_length_pos (by omega : 0 < text.length)
      simp only [List.length_cons] at htext
      obtain ⟨lo, text, rfl⟩ := List.exists_cons_of_length_pos (by omega : 0 < rest.length)
      simp only [List.length_cons] at htext
      have hfirst : load (before ++ (hi :: lo :: text ++ after)) before.length = .ok hi :=
        load_append rfl
      have hsplit : before ++ (hi :: lo :: text ++ after) =
          (before ++ [hi]) ++ lo :: (text ++ after) := by simp
      have hsecond : load (before ++ (hi :: lo :: text ++ after)) (before.length + 1) = .ok lo := by
        rw [hsplit]
        exact load_append (by simp)
      simp only [convertLoop, hfirst, hsecond, ok_bind, hexCharToInt_eq_invalid_iff]
      rcases hhi : hexDigit? hi with _ | high
      · simp [decodeHex, hhi, pure, Except.pure]
      · rcases hlo : hexDigit? lo with _ | low
        · simp [decodeHex, hhi, hlo, pure, Except.pure]
        · have hbyte : (hexCharToInt hi <<< 4) ||| hexCharToInt lo = joinNibbles high low := by
            rw [hexCharToInt_eq, hexCharToInt_eq, hhi, hlo]
            rfl
          have hstores := store_halves hmax hbefore hlen (joinNibbles high low)
          have hnext := ih (before ++ [hi, lo]) text (done ++ [joinNibbles high low])
            (by simp only [List.length_append, List.length_cons, List.length_nil]; omega)
            (by omega) (by simp only [List.length_append, List.length_singleton]; omega)
          obtain ⟨block, hblock, hstores⟩ := bind_eq_ok_iff.mp hstores
          have hpast : before ++ (hi :: lo :: text ++ after) =
              (before ++ [hi, lo]) ++ (text ++ after) := by simp
          have hplace : (before ++ [hi, lo]).length = before.length + 2 := by simp
          rw [hplace] at hnext
          simp only [reduceCtorEq, or_self, if_false, hbyte, hblock, ok_bind, hstores, hpast, hnext,
            decodeHex, hhi, hlo, Option.map_map]
          simp [Function.comp_def]

/-- What the conversion of a text comes to: the bytes, twice. -/
theorem convertHexStringToBytes_eq (heap : Allocator) {hexString : Bytes} {responseLen : Nat}
    (h : responseLen ≤ hexString.length) :
    convertHexStringToBytes heap hexString responseLen =
      .ok (if heap.provides responseLen then
        (decodeHex (hexString.take responseLen)).map fun bytes => bytes ++ bytes
      else none) := by
  have hlength : (hexString.take responseLen).length = responseLen := List.length_take_of_le h
  unfold convertHexStringToBytes Allocator.calloc
  by_cases hodd : responseLen % 2 ≠ 0
  · have hnone : decodeHex (hexString.take responseLen) = none := by
      rw [decodeHex_eq_none_iff, hlength]
      omega
    rw [if_pos hodd, hnone, Option.map_none, ite_self]
    rfl
  · rw [if_neg hodd]
    cases hheap : heap.provides responseLen with
    | false => rfl
    | true =>
        have hmax : responseLen < 2 ^ 63 := by
          by_contra hlarge
          rw [heap.bounded responseLen (by omega)] at hheap
          cases hheap
        have hblock : List.replicate responseLen (0 : UInt8) = halves [] (responseLen / 2) := by
          rw [halves, List.nil_append, List.replicate_append_replicate]
          congr 1
          omega
        have hloop := convertLoop_eq [] (hexString.drop responseLen) hmax (responseLen / 2)
          (hexString.take responseLen) [] rfl (by omega)
          (by simp only [List.length_nil]; omega)
        rw [List.nil_append, List.take_append_drop, List.length_nil] at hloop
        simp only [if_true, hblock]
        rw [hloop]
        simp [halves]

/-- There is no block of this size, whatever the text. -/
theorem convertHexStringToBytes_of_huge (heap : Allocator) (hexString : Bytes) {responseLen : Nat}
    (h : 2 ^ 63 ≤ responseLen) : convertHexStringToBytes heap hexString responseLen = .ok none := by
  unfold convertHexStringToBytes Allocator.calloc
  rw [heap.bounded responseLen h]
  split
  · rfl
  · rfl

end Convert

section Delivery

variable {heap : Allocator} {st : CString} {event : Bytes → SmsEvent} {responseLen : Nat}

/-- The bytes that are delivered go by the length as an `int`. -/
def delivered (heap : Allocator) (text : Bytes) : Option Bytes :=
  if 0 ≤ wrapInt 32 text.length ∧ heap.provides (wrapInt 32 text.length).toNat then
    decodeHex (text.take (wrapInt 32 text.length).toNat)
  else none

theorem sizeT_of_nonneg {x : Int} (h : 0 ≤ x) (hmax : x < 2 ^ 31) : sizeT x = x.toNat := by
  rw [sizeT, Int.emod_eq_of_lt h (by omega)]

/-- A negative length asks for more than there is. -/
theorem sizeT_of_neg {x : Int} (h : x < 0) (hmin : -2 ^ 31 ≤ x) : 2 ^ 63 ≤ sizeT x := by
  unfold sizeT
  omega

theorem deliverPdu_eq (hlen : responseLen ≠ 0) :
    deliverPdu event heap true (some st) responseLen =
      .ok ((delivered heap st.bytes).map event).toList := by
  obtain ⟨hmin, hmax⟩ := wrapInt_32_range st.bytes.length
  simp only [deliverPdu, if_neg hlen, Bool.not_true, Bool.false_eq_true, if_false, delivered]
  rcases lt_or_ge (wrapInt 32 st.bytes.length) 0 with hneg | hnonneg
  · rw [convertHexStringToBytes_of_huge _ _ (sizeT_of_neg hneg hmin), if_neg (by omega)]
    rfl
  · obtain ⟨n, hn⟩ := Int.eq_ofNat_of_zero_le hnonneg
    have hle : n ≤ st.bytes.length := by
      have hwrap := wrapInt_le_of_nonneg 32 (Int.natCast_nonneg st.bytes.length)
      omega
    have hsize : sizeT (n : Int) = n := by rw [sizeT_of_nonneg (by omega) (by omega)]; rfl
    have htake : (st.bytes ++ [0]).take n = st.bytes.take n := List.take_append_of_le_length hle
    have hhalf : sizeT ((n : Int).tdiv 2) = n / 2 := by
      have hdiv : (n : Int).tdiv 2 = ((n / 2 : Nat) : Int) := rfl
      rw [hdiv, sizeT_of_nonneg (by omega) (by omega)]
      rfl
    rw [hn, hsize, hhalf, convertHexStringToBytes_eq heap (by
      rw [List.length_append]
      omega), htake]
    simp only [Int.natCast_nonneg, Int.toNat_natCast, true_and, ok_bind]
    cases hheap : heap.provides n with
    | false => rfl
    | true =>
        simp only [if_true]
        rcases hdecode : decodeHex (st.bytes.take n) with _ | bytes
        · rfl
        · have hlength := (decodeHex_eq_some_iff.mp hdecode).length
          rw [List.length_take_of_le hle] at hlength
          have hhalves : n / 2 = bytes.length := by omega
          simp only [Option.map_some, hhalves]
          rw [loadFront_of_le (by simp), List.take_left]
          rfl

/-- An indication delivers what it should exactly when the delivered bytes are those
of the whole text. -/
theorem deliversPdu_iff (hevent : Function.Injective event) (hlen : responseLen ≠ 0) :
    DeliversPdu st event (deliverPdu event heap true (some st) responseLen) ↔
      delivered heap st.bytes = decodeHex st.bytes := by
  rw [deliverPdu_eq hlen]
  constructor
  · intro h
    cases hdecode : decodeHex st.bytes with
    | none =>
        have hrun := Except.ok.inj (h.rejected (decodeHex_eq_none_iff.mp hdecode))
        simpa using hrun
    | some pdu =>
        have hrun := Except.ok.inj (h.encoded pdu (decodeHex_eq_some_iff.mp hdecode))
        rw [Option.toList_eq_singleton_iff, Option.map_eq_some_iff] at hrun
        obtain ⟨pdu', hdelivered, hsame⟩ := hrun
        rw [hdelivered, hevent hsame]
  · intro h
    rw [h]
    constructor
    · intro pdu hpdu
      rw [decodeHex_of_hexOf hpdu]
      rfl
    · intro hbad
      rw [decodeHex_eq_none_iff.mpr hbad]
      rfl

theorem delivered_of_short (hshort : st.bytes.length < 2 ^ 31) :
    delivered heap st.bytes =
      if heap.provides st.bytes.length then decodeHex st.bytes else none := by
  have hwrap : wrapInt 32 st.bytes.length = st.bytes.length :=
    wrapInt_32_of_range (by omega) (by omega)
  rw [delivered, hwrap, Int.toNat_natCast, List.take_length]
  simp only [Int.natCast_nonneg, true_and]

/-- Bytes are as many as half the characters, so only the whole text stands for the
bytes of the whole text. -/
theorem delivered_eq_iff : delivered heap st.bytes = decodeHex st.bytes ↔ SmsFits heap st := by
  constructor
  · intro h
    constructor
    · rintro ⟨pdu, hpdu⟩
      rw [decodeHex_of_hexOf hpdu, delivered] at h
      split at h
      · rename_i hguard
        have hprefix := (decodeHex_eq_some_iff.mp h).length
        have hwhole := hpdu.length
        have hle := wrapInt_le_of_nonneg 32 (Int.natCast_nonneg st.bytes.length)
        rw [List.length_take_of_le (by omega)] at hprefix
        have hexact : (wrapInt 32 st.bytes.length).toNat = st.bytes.length := by omega
        obtain ⟨-, hmax⟩ := wrapInt_32_range st.bytes.length
        rw [hexact] at hguard
        exact ⟨by omega, hguard.2⟩
      · cases h
    · intro hdecode _ n hn hheap
      rw [hdecode, delivered, hn] at h
      simpa [hheap] using h
  · intro h
    rcases lt_or_ge st.bytes.length (2 ^ 31) with hshort | hlong
    · rw [delivered_of_short hshort]
      cases hdecode : decodeHex st.bytes with
      | none => rw [ite_self]
      | some pdu => rw [if_pos (h.encoded ⟨pdu, decodeHex_eq_some_iff.mp hdecode⟩).2]
    · cases hdecode : decodeHex st.bytes with
      | some pdu =>
          have hshort := (h.encoded ⟨pdu, decodeHex_eq_some_iff.mp hdecode⟩).1
          omega
      | none =>
          rw [delivered]
          split
          · rename_i hguard
            exact h.rejected hdecode hlong _ (by omega) hguard.2
          · rfl

end Delivery

/-- The law holds exactly for text that is short enough for the `int` lengths. -/
theorem smsLaw_iff (heap : Allocator) (st : CString) : SmsLaw heap st ↔ SmsFits heap st := by
  have hsms : Function.Injective SmsEvent.newSms := fun _ _ => SmsEvent.newSms.inj
  have hreport : Function.Injective SmsEvent.newSmsStatusReport :=
    fun _ _ => SmsEvent.newSmsStatusReport.inj
  rw [← delivered_eq_iff]
  constructor
  · intro h
    exact (deliversPdu_iff hsms one_ne_zero).mp (h.sms 1 one_ne_zero)
  · intro h
    constructor
    · intro responseLen hlen
      exact (deliversPdu_iff hsms hlen).mpr h
    · intro responseLen hlen
      exact (deliversPdu_iff hreport hlen).mpr h
    · intro hexString responseLen hle
      exact ⟨_, convertHexStringToBytes_eq heap hle⟩

/-- Memory for every size below 2^62. -/
def largeHeap : Allocator where
  provides size := size < 2 ^ 62
  bounded size h := by
    have hlarge : ¬ size < 2 ^ 62 := by omega
    simpa using hlarge

theorem hexOf_zeros (n : Nat) : HexOf (List.replicate (2 * n) 48) (List.replicate n 0) := by
  induction n with
  | zero => exact .nil
  | succ n ih =>
      have hdouble : 2 * (n + 1) = 2 * n + 1 + 1 := by ring
      rw [hdouble, List.replicate_succ, List.replicate_succ, List.replicate_succ]
      exact .cons (.inl rfl) (.inl rfl) ih

/-- The hexadecimal text of a number of zero bytes. -/
def zerosText (n : Nat) : CString where
  bytes := List.replicate (2 * n) 48
  noNul h := by
    have heq := (List.mem_replicate.mp h).2
    exact absurd heq (by decide)

/-- The text of 2^30 zero bytes has 2^31 characters, which an `int` cannot count,
and is not delivered. -/
theorem smsLaw_long :
    newSmsInd largeHeap true (some (zerosText (2 ^ 30))) 1 = .ok [] ∧
      ¬ SmsLaw largeHeap (zerosText (2 ^ 30)) := by
  have hlength : (zerosText (2 ^ 30)).bytes.length = 2 ^ 31 := List.length_replicate
  have hwrap : wrapInt 32 (zerosText (2 ^ 30)).bytes.length < 0 := by
    rw [hlength, wrapInt_32_of_over (by norm_num) (by norm_num)]
    norm_num
  have hrun : newSmsInd largeHeap true (some (zerosText (2 ^ 30))) 1 = .ok [] := by
    rw [newSmsInd, deliverPdu_eq one_ne_zero, delivered, if_neg (by omega)]
    rfl
  refine ⟨hrun, fun h => ?_⟩
  have hsent := (h.sms 1 one_ne_zero).encoded _ (hexOf_zeros (2 ^ 30))
  rw [hrun] at hsent
  cases hsent

end MeizuM5c.Ril
