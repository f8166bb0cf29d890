import MeizuM5c.Ril.OperatorNumeric
import MeizuM5c.Ril.VendorStrings

/-!
The call-state stream of the modem. When a call comes in with its number, the
modem waits for `SET_CALL_INDICATION` with the call's id and the sequence number
in the last field. The length that comes with the fields counts pointers for some
messages and bytes for others, and both receivers guess which.
-/

namespace MeizuM5c.Ril

open Lib

/-- What the receivers send: the acknowledgement to the modem, or a notification
to the framework. -/
inductive CallInfoEvent where
  | setCallIndication (mode callId seq : Int)
  | callStateChanged
deriving DecidableEq

/-- A length that can be a number of bytes is taken for one. -/
def fieldCount (responseLen : Nat) : Nat :=
  if SIZEOF_POINTER ≤ responseLen ∧ responseLen % SIZEOF_POINTER = 0 then
    responseLen / SIZEOF_POINTER
  else responseLen

/-- The state of an incoming call with its number, "133". -/
def incomingState : Bytes := [49, 51, 51]

/-- The state "129". -/
def changedState : Bytes := [49, 50, 57]

/-- `persist.m681.ril.callind_mode`, or 1 when it is empty. -/
def callindMode (prop : PropertyValue) : Int :=
  if 0 < prop.bytes.length then atoi prop.bytes else 1

/-- The id of the call, when the fields are those of an incoming call. -/
def incomingCall (strings : Strings) : Except Fault (Option Bytes) := do
  match ← load strings 0 with
  | none => pure none
  | some id =>
      match ← load strings 1 with
      | none => pure none
      | some state => pure (if state = incomingState then some id else none)

def forgeEcpiInd (prop : PropertyValue) (response : Option Strings) (responseLen : Nat) :
    Except Fault (List CallInfoEvent) :=
  match response with
  | none => pure []
  | some strings =>
      let nfields := fieldCount responseLen
      if nfields < 10 ∨ nfields > 32 then pure []
      else do
        match ← incomingCall strings with
        | none => pure []
        | some id => do
            let last ← load strings (nfields - 1)
            pure [.setCallIndication (callindMode prop) (atoi id) (atoiNullHandledDef last 0)]

/-- The sequence number, when there are as many fields as the message should have. -/
def sequenceNumber (strings : Strings) (nfields : Nat) : Except Fault Int :=
  if 10 ≤ nfields ∧ nfields ≤ 32 then do
    let last ← load strings (nfields - 1)
    pure (atoiNullHandledDef last 0)
  else pure 0

/-- The first part of `callInfoInd`. -/
def acknowledgeIncoming (prop : PropertyValue) (strings : Strings) (nfields : Nat) :
    Except Fault (List CallInfoEvent) :=
  if 2 ≤ nfields then do
    match ← incomingCall strings with
    | none => pure []
    | some id => do
        let seq ← sequenceNumber strings nfields
        pure [.setCallIndication (callindMode prop) (atoi id) seq]
  else pure []

/-- The second part, which goes by the length as it is. -/
def notifyState (strings : Strings) (responseLen : Nat) : Except Fault (List CallInfoEvent) :=
  if 2 ≤ responseLen then do
    let state ← deref (← load strings 1)
    pure (if state = changedState then [.callStateChanged] else [])
  else pure []

/-- `ready` says whether the slot has a service with a receiver of indications. -/
def callInfoInd (ready : Bool) (prop : PropertyValue) (strings : Strings) (responseLen : Nat) :
    Except Fault (List CallInfoEvent) :=
  if !ready then pure []
  else do
    let acknowledged ← acknowledgeIncoming prop strings (fieldCount responseLen)
    let notified ← notifyState strings responseLen
    pure (acknowledged ++ notified)

/-- What a length counts. -/
inductive LengthUnit where
  | pointers
  | bytes
deriving DecidableEq

def LengthUnit.length (unit : LengthUnit) (strings : Strings) : Nat :=
  match unit with
  | .pointers => strings.length
  | .bytes => strings.length * SIZEOF_POINTER

/-- An incoming call with its number, of this id. -/
def IsIncoming (strings : Strings) (id : Bytes) : Prop :=
  strings[0]? = some (some id) ∧ strings[1]? = some (some incomingState)

/-- The acknowledgement of an incoming call, with the last field for its sequence
number. -/
def acknowledgement (prop : PropertyValue) (strings : Strings) (id : Bytes) : CallInfoEvent :=
  .setCallIndication (callindMode prop) (atoi id)
    (atoiNullHandledDef (strings.getLast?.getD none) 0)

/-- Both receivers stay inside the fields, and an incoming call with enough of
them is acknowledged once. -/
structure CallInfoLaw (ready : Bool) (prop : PropertyValue) (unit : LengthUnit)
    (strings : Strings) : Prop where
  forgeSafe : Safe (forgeEcpiInd prop (some strings) (unit.length strings))
  infoSafe : Safe (callInfoInd ready prop strings (unit.length strings))
  acknowledged : ∀ id, 10 ≤ strings.length → strings.length ≤ 32 → IsIncoming strings id →
    forgeEcpiInd prop (some strings) (unit.length strings) =
        .ok [acknowledgement prop strings id] ∧
      (ready = true → callInfoInd ready prop strings (unit.length strings) =
        .ok [acknowledgement prop strings id])

/-- There is a state where `callInfoInd` looks for one, and the number of fields of
an incoming call does not look like a number of bytes. -/
structure CountReadable (ready : Bool) (unit : LengthUnit) (strings : Strings) : Prop where
  state : ready = true → 2 ≤ unit.length strings → ∃ state, strings[1]? = some (some state)
  count : unit = .pointers → 10 ≤ strings.length → strings.length ≤ 32 →
    (∃ id, IsIncoming strings id) → ¬ SIZEOF_POINTER ∣ strings.length

section Count

theorem fieldCount_le_self (responseLen : Nat) : fieldCount responseLen ≤ responseLen := by
  unfold fieldCount
  split
  · exact Nat.div_le_self _ _
  · exact le_refl _

variable {unit : LengthUnit} {strings : Strings}

theorem fieldCount_pointers :
    fieldCount (LengthUnit.pointers.length strings) =
      if 8 ≤ strings.length ∧ strings.length % 8 = 0 then strings.length / 8
      else strings.length := rfl

/-- A number of bytes is never mistaken. -/
theorem fieldCount_bytes : fieldCount (LengthUnit.bytes.length strings) = strings.length := by
  have hsize : SIZEOF_POINTER = 8 := rfl
  rw [LengthUnit.length, fieldCount, hsize]
  split
  · exact Nat.mul_div_cancel _ (by decide)
  · omega

/-- Neither guess is higher than the number of fields. -/
theorem fieldCount_le : fieldCount (unit.length strings) ≤ strings.length := by
  cases unit with
  | pointers =>
      rw [fieldCount_pointers]
      split
      · omega
      · exact le_refl _
  | bytes => exact fieldCount_bytes.le

/-- Enough pointers that are no number of bytes are counted right. -/
theorem fieldCount_eq_iff (hcount : 10 ≤ strings.length) :
    fieldCount (unit.length strings) = strings.length ↔
      (unit = .pointers → ¬ SIZEOF_POINTER ∣ strings.length) := by
  have hsize : SIZEOF_POINTER = 8 := rfl
  cases unit with
  | pointers =>
      rw [fieldCount_pointers, Nat.dvd_iff_mod_eq_zero, hsize]
      split
      · simp only [true_implies]
        omega
      · exact iff_of_true rfl (fun _ hmod => by omega)
  | bytes => exact iff_of_true fieldCount_bytes (fun h => absurd h (by decide))

end Count

section Incoming

variable {strings : Strings} {id : Bytes}

theorem incomingCall_of_le (h : 2 ≤ strings.length) : Safe (incomingCall strings) := by
  rw [incomingCall, safe_bind_iff]
  refine ⟨_, load_of_lt (by omega), ?_⟩
  cases strings[0] with
  | none => exact safe_pure none
  | some id =>
      rw [safe_bind_iff]
      refine ⟨_, load_of_lt (by omega), ?_⟩
      cases strings[1] with
      | none => exact safe_pure none
      | some state => exact safe_pure _

theorem incomingCall_eq_some_iff :
    incomingCall strings = .ok (some id) ↔ IsIncoming strings id := by
  simp only [incomingCall, IsIncoming, bind_eq_ok_iff, load_eq_ok_iff]
  constructor
  · rintro ⟨first, hfirst, h⟩
    cases first with
    | none => cases h
    | some id' =>
        obtain ⟨second, hsecond, h⟩ := bind_eq_ok_iff.mp h
        cases second with
        | none => cases h
        | some state =>
            simp only [pure, Except.pure, Except.ok.injEq] at h
            split_ifs at h with hstate
            · rw [Option.some.inj h] at hfirst
              rw [hstate] at hsecond
              exact ⟨hfirst, load_eq_ok_iff.mp hsecond⟩
  · rintro ⟨hfirst, hsecond⟩
    refine ⟨some id, hfirst, ?_⟩
    simp only [load_eq_ok_iff.mpr hsecond, ok_bind, if_true]
    rfl

end Incoming

section Receivers

variable {ready : Bool} {prop : PropertyValue} {strings : Strings} {responseLen nfields : Nat}

theorem forgeEcpiInd_safe (h : fieldCount responseLen ≤ strings.length) :
    Safe (forgeEcpiInd prop (some strings) responseLen) := by
  simp only [forgeEcpiInd]
  split
  · exact safe_pure []
  · have htwo : 2 ≤ strings.length := by omega
    apply Safe.bind (incomingCall_of_le htwo)
    intro call
    cases call with
    | none => exact safe_pure []
    | some id =>
        rw [safe_bind_iff]
        exact ⟨_, load_of_lt (by omega), safe_pure _⟩

theorem sequenceNumber_safe (h : nfields ≤ strings.length) :
    Safe (sequenceNumber strings nfields) := by
  unfold sequenceNumber
  split
  · rw [safe_bind_iff]
    exact ⟨_, load_of_lt (by omega), safe_pure _⟩
  · exact safe_pure 0

theorem acknowledgeIncoming_safe (h : nfields ≤ strings.length) :
    Safe (acknowledgeIncoming prop strings nfields) := by
  unfold acknowledgeIncoming
  split
  · have htwo : 2 ≤ strings.length := by omega
    apply Safe.bind (incomingCall_of_le htwo)
    intro call
    cases call with
    | none => exact safe_pure []
    | some id => exact (sequenceNumber_safe h).bind (fun seq => safe_pure _)
  · exact safe_pure []

theorem notifyState_safe_iff :
    Safe (notifyState strings responseLen) ↔
      (2 ≤ responseLen → ∃ state, strings[1]? = some (some state)) := by
  unfold notifyState
  split
  · rename_i hlen
    simp only [hlen, true_implies, safe_bind_iff, load_eq_ok_iff]
    constructor
    · rintro ⟨entry, hentry, state, hstate, -⟩
      cases entry with
      | none => cases hstate
      | some state => exact ⟨state, hentry⟩
    · rintro ⟨state, hstate⟩
      exact ⟨some state, hstate, state, rfl, safe_pure _⟩
  · exact iff_of_true (safe_pure []) (by omega)

/-- The acknowledgement cannot fail, the search for a state can. -/
theorem callInfoInd_safe_iff (h : fieldCount responseLen ≤ strings.length) :
    Safe (callInfoInd ready prop strings responseLen) ↔
      (ready = true → 2 ≤ responseLen → ∃ state, strings[1]? = some (some state)) := by
  rw [← notifyState_safe_iff]
  cases ready with
  | false => exact iff_of_true (safe_pure []) nofun
  | true =>
      obtain ⟨events, hevents⟩ : Safe (acknowledgeIncoming prop strings (fieldCount responseLen)) :=
        acknowledgeIncoming_safe h
      have hrun : callInfoInd true prop strings responseLen =
          notifyState strings responseLen >>= fun notified => pure (events ++ notified) := by
        simp only [callInfoInd, hevents, ok_bind]
        rfl
      rw [hrun, safe_bind_iff]
      constructor
      · rintro ⟨notified, hnotified, -⟩ _
        exact ⟨notified, hnotified⟩
      · intro hsafe
        obtain ⟨notified, hnotified⟩ := hsafe rfl
        exact ⟨notified, hnotified, safe_pure _⟩

section Acknowledged

variable {id : Bytes} (hcall : IsIncoming strings id) (hlo : 10 ≤ strings.length)
  (hhi : strings.length ≤ 32)

theorem load_last (hlo : 10 ≤ strings.length) :
    load strings (strings.length - 1) = .ok (strings.getLast?.getD none) := by
  rw [load_of_lt (by omega), List.getLast?_eq_getElem?, List.getElem?_eq_getElem (by omega)]
  rfl

include hcall hlo hhi

theorem forgeEcpiInd_of_count (hcount : fieldCount responseLen = strings.length) :
    forgeEcpiInd prop (some strings) responseLen = .ok [acknowledgement prop strings id] := by
  have hrange : ¬ (strings.length < 10 ∨ strings.length > 32) := by omega
  simp only [forgeEcpiInd, hcount, if_neg hrange, incomingCall_eq_some_iff.mpr hcall, ok_bind,
    load_last hlo]
  rfl

theorem acknowledgeIncoming_of_count :
    acknowledgeIncoming prop strings strings.length = .ok [acknowledgement prop strings id] := by
  have htwo : 2 ≤ strings.length := by omega
  simp only [acknowledgeIncoming, if_pos htwo, incomingCall_eq_some_iff.mpr hcall, ok_bind,
    sequenceNumber, hlo, hhi, and_self, if_true, load_last hlo]
  rfl

/-- The state of an incoming call is not the one that is told to the framework. -/
theorem callInfoInd_of_count (hcount : fieldCount responseLen = strings.length) :
    callInfoInd true prop strings responseLen = .ok [acknowledgement prop strings id] := by
  have hle := fieldCount_le_self responseLen
  have hlen : 2 ≤ responseLen := by omega
  have hnotify : notifyState strings responseLen = .ok [] := by
    simp only [notifyState, if_pos hlen, load_eq_ok_iff.mpr hcall.2, ok_bind, deref_some]
    rfl
  simp only [callInfoInd, hcount, acknowledgeIncoming_of_count hcall hlo hhi, ok_bind, hnotify]
  rfl

end Acknowledged

/-- With fewer than ten fields, `forgeEcpiInd` looks no further. -/
theorem forgeEcpiInd_of_few (h : fieldCount responseLen < 10) :
    forgeEcpiInd prop (some strings) responseLen = .ok [] := by
  simp only [forgeEcpiInd, if_pos (Or.inl h)]
  rfl

end Receivers

/-- No mode is configured. -/
def unsetMode : PropertyValue := ⟨[], by decide, by decide⟩

/-- Sixteen fields of an incoming call, the last one with the sequence number 7. -/
def sixteenFields : Strings :=
  some [49] :: some incomingState :: List.replicate 13 none ++ [some [55]]

end MeizuM5c.Ril
