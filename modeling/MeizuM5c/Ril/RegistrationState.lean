import MeizuM5c.Ril.VendorStrings

/-!
The registration state of voice and data, as vendors up to version 14 report it:
an array of strings whose number depends on the network. Both decoders check the
number of strings once, and the cell identity is filled in by helpers that check
for themselves.

The decoders are those of a slot with a receiver of responses.
-/

namespace MeizuM5c.Ril

open Lib

/-- A response as it comes from the vendor: a length in bytes, and as many
pointers as fit. -/
structure StringResponse where
  responseLen : Nat
  entries : Strings
  counted : entries.length = responseLen / SIZEOF_POINTER

/-- The number of strings, in an `int`. -/
def StringResponse.numStrings (r : StringResponse) : Int :=
  wrapInt 32 ((r.responseLen / SIZEOF_POINTER : Nat) : Int)

/-- What the framework is told: the vendor's own error, or that the response
makes no sense. -/
inductive ReportedError where
  | vendor (e : UInt32)
  | invalidResponse
deriving DecidableEq

/-- An error that the vendor reports is passed on. -/
def reportInvalid (e : UInt32) : ReportedError :=
  if e = RIL_E_SUCCESS then .invalidResponse else .vendor e

section CellIdentity

inductive CellInfoType where
  | none
  | gsm
  | cdma
  | lte
  | wcdma
  | tdScdma
deriving DecidableEq

/-- The cells of a radio technology, by its number: GPRS, EDGE and GSM; UMTS,
HSDPA, HSUPA, HSPA and HSPAP; the CDMA family; LTE and LTE_CA; TD_SCDMA. -/
def cellInfoTypeOf (radioTech : Int) : CellInfoType :=
  if radioTech ∈ [1, 2, 16] then .gsm
  else if radioTech ∈ [3, 9, 10, 11, 15] then .wcdma
  else if radioTech ∈ [4, 5, 6, 7, 8, 12, 13] then .cdma
  else if radioTech ∈ [14, 19] then .lte
  else if radioTech = 17 then .tdScdma
  else .none

def getCellInfoTypeRadioTechnology (rat : Option Bytes) : CellInfoType :=
  match rat with
  | none => .none
  | some rat => cellInfoTypeOf (atoi rat)

/-- The members of `RIL_CellIdentity_v16` that one of the fillers sets; all of them
are -1 at first. -/
structure RilCellIdentity where
  cellInfoType : CellInfoType := .none
  lac : Int := -1
  cid : Int := -1
  psc : Int := -1
  basestationId : Int := -1
  longitude : Int := -1
  latitude : Int := -1
  systemId : Int := -1
  networkId : Int := -1
  tac : Int := -1
  ci : Int := -1
  pci : Int := -1
deriving DecidableEq

def convertResponseStringEntryToInt (response : Strings) (index : Nat) (numStrings : Int) :
    Except Fault Int :=
  if numStrings > index then do
    match ← load response index with
    | some entry => pure (wrapInt 32 (strtol 16 entry))
    | none => pure (-1)
  else pure (-1)

def fillCellIdentityFromVoiceRegStateResponseString (numStrings : Int) (response : Strings) :
    Except Fault RilCellIdentity := do
  let cellInfoType := getCellInfoTypeRadioTechnology (← load response 3)
  match cellInfoType with
  | .gsm | .tdScdma => do
      let lac ← convertResponseStringEntryToInt response 1 numStrings
      let cid ← convertResponseStringEntryToInt response 2 numStrings
      pure { cellInfoType, lac, cid }
  | .wcdma => do
      let lac ← convertResponseStringEntryToInt response 1 numStrings
      let cid ← convertResponseStringEntryToInt response 2 numStrings
      let psc ← convertResponseStringEntryToInt response 14 numStrings
      pure { cellInfoType, lac, cid, psc }
  | .cdma => do
      let basestationId ← convertResponseStringEntryToInt response 4 numStrings
      let longitude ← convertResponseStringEntryToInt response 5 numStrings
      let latitude ← convertResponseStringEntryToInt response 6 numStrings
      let systemId ← convertResponseStringEntryToInt response 8 numStrings
      let networkId ← convertResponseStringEntryToInt response 9 numStrings
      pure { cellInfoType, basestationId, longitude, latitude, systemId, networkId }
  | .lte => do
      let tac ← convertResponseStringEntryToInt response 1 numStrings
      let ci ← convertResponseStringEntryToInt response 2 numStrings
      pure { cellInfoType, tac, ci }
  | .none => pure { cellInfoType }

def fillCellIdentityFromDataRegStateResponseString (numStrings : Int) (response : Strings) :
    Except Fault RilCellIdentity := do
  let cellInfoType := getCellInfoTypeRadioTechnology (← load response 3)
  match cellInfoType with
  | .gsm | .wcdma | .tdScdma => do
      let lac ← convertResponseStringEntryToInt response 1 numStrings
      let cid ← convertResponseStringEntryToInt response 2 numStrings
      pure { cellInfoType, lac, cid }
  | .lte => do
      let tac ← convertResponseStringEntryToInt response 6 numStrings
      let pci ← convertResponseStringEntryToInt response 7 numStrings
      let ci ← convertResponseStringEntryToInt response 8 numStrings
      pure { cellInfoType, tac, pci, ci }
  | .cdma | .none => pure { cellInfoType }

end CellIdentity

section Decoders

/-- An entry that is only read when there are more than four. -/
def optionalEntry (numStrings : Int) (response : Strings) (index : Nat) (defaultVal : Int)
    (missing : Int) : Except Fault Int :=
  if numStrings > 4 then do
    let entry ← load response index
    pure (atoiNullHandledDef entry defaultVal)
  else pure missing

structure VoiceRegStateResult where
  regState : Int := 0
  rat : Int := 0
  cssSupported : Bool := false
  roamingIndicator : Int := 0
  systemIsInPrl : Int := 0
  defaultRoamingIndicator : Int := 0
  reasonForDenial : Int := 0
  cellIdentity : RilCellIdentity := {}
deriving DecidableEq

def getVoiceRegistrationStateResponse (e : UInt32) (response : Option StringResponse) :
    Except Fault (ReportedError × VoiceRegStateResult) :=
  match response with
  | none => pure (reportInvalid e, {})
  | some r =>
      let numStrings := r.numStrings
      if numStrings < 4 then pure (reportInvalid e, {})
      else do
        let regState ← load r.entries 0
        let rat ← load r.entries 3
        let cssSupported ← optionalEntry numStrings r.entries 7 0 0
        let roamingIndicator ← optionalEntry numStrings r.entries 10 (-1) (-1)
        let systemIsInPrl ← optionalEntry numStrings r.entries 11 0 0
        let defaultRoamingIndicator ← optionalEntry numStrings r.entries 12 0 0
        let reasonForDenial ← optionalEntry numStrings r.entries 13 0 0
        let cellIdentity ← fillCellIdentityFromVoiceRegStateResponseString numStrings r.entries
        pure (.vendor e,
          { regState := atoiNullHandledDef regState 4, rat := atoiNullHandled rat
            cssSupported := cssSupported ≠ 0, roamingIndicator, systemIsInPrl
            defaultRoamingIndicator, reasonForDenial, cellIdentity })

structure DataRegStateResult where
  regState : Int := 0
  rat : Int := 0
  reasonDataDenied : Int := 0
  maxDataCalls : Int := 0
  cellIdentity : RilCellIdentity := {}
deriving DecidableEq

/-- The vendor's own technologies count as HSPAP. -/
def dataRat (rat : Int) : Int := if rat ≥ 128 then 15 else rat

def getDataRegistrationStateResponse (e : UInt32) (response : Option StringResponse) :
    Except Fault (ReportedError × DataRegStateResult) :=
  match response with
  | none => pure (reportInvalid e, {})
  | some r =>
      let numStrings := r.numStrings
      if numStrings ≠ 4 ∧ numStrings ≠ 6 ∧ numStrings ≠ 11 then pure (reportInvalid e, {})
      else do
        let regState ← load r.entries 0
        let rat ← load r.entries 3
        let reasonDataDenied ← optionalEntry numStrings r.entries 4 (-1) (-1)
        let maxDataCalls ← optionalEntry numStrings r.entries 5 1 1
        let cellIdentity ← fillCellIdentityFromDataRegStateResponseString numStrings r.entries
        pure (.vendor e,
          { regState := atoiNullHandledDef regState 4
            rat := dataRat (atoiNullHandledDef rat 0), reasonDataDenied, maxDataCalls
            cellIdentity })

end Decoders

/-- No response, or one without the entries 0 and 3 that every decoder needs. -/
def TooShort (response : Option StringResponse) : Prop :=
  ∀ r, response = some r → r.entries.length < 4

/-- A decoder reads what is there, and reports a response that is too short. -/
def DecodesInside {α : Type} (e : UInt32) (response : Option StringResponse)
    (decoded : Except Fault (ReportedError × α)) : Prop :=
  ∃ result, decoded = .ok result ∧
    (TooShort response →
      result.1 = if e = RIL_E_SUCCESS then .invalidResponse else .vendor e)

structure RegistrationLaw (e : UInt32) (response : Option StringResponse) : Prop where
  voice : DecodesInside e response (getVoiceRegistrationStateResponse e response)
  data : DecodesInside e response (getDataRegistrationStateResponse e response)

/-- The number of strings is none of those that pass the check for four and do not
hold entry 13. -/
def CountAccepted (response : Option StringResponse) : Prop :=
  ∀ r, response = some r → r.entries.length ≤ 4 ∨ 14 ≤ r.entries.length

section Reads

variable {response : Strings} {numStrings : Int} {index : Nat}

/-- The helper checks its index against the number of strings. -/
theorem convertResponseStringEntryToInt_safe (index : Nat) (h : numStrings ≤ response.length) :
    Safe (convertResponseStringEntryToInt response index numStrings) := by
  unfold convertResponseStringEntryToInt
  split
  · apply (safe_load_iff.mpr (by omega)).bind
    intro entry
    cases entry with
    | none => exact safe_pure _
    | some entry => exact safe_pure _
  · exact safe_pure _

theorem fillCellIdentityFromVoice_safe (h : numStrings ≤ response.length)
    (hfour : 4 ≤ response.length) :
    Safe (fillCellIdentityFromVoiceRegStateResponseString numStrings response) := by
  have hentry (index : Nat) := convertResponseStringEntryToInt_safe index h
  apply (safe_load_iff.mpr (by omega)).bind
  intro rat
  cases getCellInfoTypeRadioTechnology rat with
  | none => exact safe_pure _
  | gsm => exact (hentry 1).bind fun lac => (hentry 2).bind fun cid => safe_pure _
  | tdScdma => exact (hentry 1).bind fun lac => (hentry 2).bind fun cid => safe_pure _
  | wcdma =>
      exact (hentry 1).bind fun lac => (hentry 2).bind fun cid => (hentry 14).bind fun psc =>
        safe_pure _
  | lte => exact (hentry 1).bind fun tac => (hentry 2).bind fun ci => safe_pure _
  | cdma =>
      exact (hentry 4).bind fun station => (hentry 5).bind fun longitude =>
        (hentry 6).bind fun latitude => (hentry 8).bind fun system =>
        (hentry 9).bind fun network => safe_pure _

theorem fillCellIdentityFromData_safe (h : numStrings ≤ response.length)
    (hfour : 4 ≤ response.length) :
    Safe (fillCellIdentityFromDataRegStateResponseString numStrings response) := by
  have hentry (index : Nat) := convertResponseStringEntryToInt_safe index h
  apply (safe_load_iff.mpr (by omega)).bind
  intro rat
  cases getCellInfoTypeRadioTechnology rat with
  | none => exact safe_pure _
  | cdma => exact safe_pure _
  | gsm => exact (hentry 1).bind fun lac => (hentry 2).bind fun cid => safe_pure _
  | wcdma => exact (hentry 1).bind fun lac => (hentry 2).bind fun cid => safe_pure _
  | tdScdma => exact (hentry 1).bind fun lac => (hentry 2).bind fun cid => safe_pure _
  | lte =>
      exact (hentry 6).bind fun tac => (hentry 7).bind fun pci => (hentry 8).bind fun ci =>
        safe_pure _

theorem optionalEntry_safe_iff {defaultVal missing : Int} :
    Safe (optionalEntry numStrings response index defaultVal missing) ↔
      (4 < numStrings → index < response.length) := by
  unfold optionalEntry
  split
  · rename_i hmore
    simp only [safe_bind_iff, hmore, true_implies]
    constructor
    · rintro ⟨entry, hentry, -⟩
      exact safe_load_iff.mp ⟨entry, hentry⟩
    · intro hindex
      exact ⟨_, load_of_lt hindex, safe_pure _⟩
  · rename_i hfew
    exact iff_of_true (safe_pure _) (fun hmore => absurd hmore hfew)

end Reads

section Decoded

variable (e : UInt32) (r : StringResponse)

theorem numStrings_le : r.numStrings ≤ r.entries.length := by
  rw [r.counted]
  exact wrapInt_le_of_nonneg 32 (Int.natCast_nonneg _)

theorem numStrings_of_short (h : r.entries.length < 2147483648) :
    r.numStrings = r.entries.length := by
  rw [StringResponse.numStrings, ← r.counted]
  exact wrapInt_32_of_range (by omega) (by omega)

/-- Entry 13 is the last that the voice decoder reads without asking whether it is
there. -/
theorem voice_safe_iff :
    Safe (getVoiceRegistrationStateResponse e (some r)) ↔
      (4 < r.numStrings → 14 ≤ r.entries.length) := by
  have hle := numStrings_le r
  simp only [getVoiceRegistrationStateResponse]
  split
  · exact iff_of_true (safe_pure _) (by omega)
  · constructor
    · intro h
      obtain ⟨regState, -, h⟩ := safe_bind_iff.mp h
      obtain ⟨rat, -, h⟩ := safe_bind_iff.mp h
      obtain ⟨css, -, h⟩ := safe_bind_iff.mp h
      obtain ⟨roaming, -, h⟩ := safe_bind_iff.mp h
      obtain ⟨prl, -, h⟩ := safe_bind_iff.mp h
      obtain ⟨defaultRoaming, -, h⟩ := safe_bind_iff.mp h
      obtain ⟨reason, hreason, -⟩ := safe_bind_iff.mp h
      exact optionalEntry_safe_iff.mp ⟨reason, hreason⟩
    · intro h
      have hentry (index : Nat) (hindex : index ≤ 13) (defaultVal missing : Int) :
          Safe (optionalEntry r.numStrings r.entries index defaultVal missing) :=
        optionalEntry_safe_iff.mpr (fun hmore => by have := h hmore; omega)
      apply (safe_load_iff.mpr (by omega)).bind
      intro regState
      apply (safe_load_iff.mpr (by omega)).bind
      intro rat
      apply (hentry 7 (by omega) 0 0).bind
      intro css
      apply (hentry 10 (by omega) (-1) (-1)).bind
      intro roaming
      apply (hentry 11 (by omega) 0 0).bind
      intro prl
      apply (hentry 12 (by omega) 0 0).bind
      intro defaultRoaming
      apply (hentry 13 (by omega) 0 0).bind
      intro reason
      apply (fillCellIdentityFromVoice_safe hle (by omega)).bind
      intro cellIdentity
      exact safe_pure _

/-- The data decoder accepts three numbers only, and reads no further than them. -/
theorem data_safe : Safe (getDataRegistrationStateResponse e (some r)) := by
  have hle := numStrings_le r
  simp only [getDataRegistrationStateResponse]
  split
  · exact safe_pure _
  · have hentry (index : Nat) (hindex : index ≤ 5) (defaultVal missing : Int) :
        Safe (optionalEntry r.numStrings r.entries index defaultVal missing) :=
      optionalEntry_safe_iff.mpr (fun hmore => by omega)
    apply (safe_load_iff.mpr (by omega)).bind
    intro regState
    apply (safe_load_iff.mpr (by omega)).bind
    intro rat
    apply (hentry 4 (by omega) (-1) (-1)).bind
    intro reason
    apply (hentry 5 (by omega) 1 1).bind
    intro maxDataCalls
    apply (fillCellIdentityFromData_safe hle (by omega)).bind
    intro cellIdentity
    exact safe_pure _

theorem voice_of_short {r : StringResponse} (h : r.entries.length < 4) :
    getVoiceRegistrationStateResponse e (some r) = .ok (reportInvalid e, {}) := by
  have hcount := numStrings_of_short r (by omega)
  simp only [getVoiceRegistrationStateResponse]
  rw [if_pos (by omega)]
  rfl

theorem data_of_short {r : StringResponse} (h : r.entries.length < 4) :
    getDataRegistrationStateResponse e (some r) = .ok (reportInvalid e, {}) := by
  have hcount := numStrings_of_short r (by omega)
  simp only [getDataRegistrationStateResponse]
  rw [if_pos (by omega)]
  rfl

end Decoded

section Law

variable {α : Type} {e : UInt32}

/-- A decoder that answers a short response at once needs only be safe on the
others. -/
theorem decodesInside_iff {r : StringResponse}
    {decoded : Except Fault (ReportedError × α)} {result : α}
    (hshort : r.entries.length < 4 → decoded = .ok (reportInvalid e, result)) :
    DecodesInside e (some r) decoded ↔ Safe decoded := by
  constructor
  · rintro ⟨result, hresult, -⟩
    exact ⟨result, hresult⟩
  · rintro ⟨result', hresult⟩
    refine ⟨result', hresult, fun htoo => ?_⟩
    have hrun := hshort (htoo r rfl)
    rw [hresult] at hrun
    rw [Except.ok.inj hrun]
    rfl

end Law

/-- Both decoders stay inside the response exactly when it does not hold five to
thirteen strings. -/
theorem registrationLaw_iff (e : UInt32) (response : Option StringResponse) :
    RegistrationLaw e response ↔ CountAccepted response := by
  cases response with
  | none =>
      apply iff_of_true
      · exact ⟨⟨_, rfl, fun _ => rfl⟩, ⟨_, rfl, fun _ => rfl⟩⟩
      · intro r hr
        cases hr
  | some r =>
      have hvoice : DecodesInside e (some r) (getVoiceRegistrationStateResponse e (some r)) ↔
          (4 < r.numStrings → 14 ≤ r.entries.length) :=
        (decodesInside_iff (voice_of_short e)).trans (voice_safe_iff e r)
      have hdata : DecodesInside e (some r) (getDataRegistrationStateResponse e (some r)) :=
        (decodesInside_iff (data_of_short e)).mpr (data_safe e r)
      have hle := numStrings_le r
      constructor
      · intro h r' hr
        rw [← Option.some.inj hr]
        have hthirteen := hvoice.mp h.voice
        by_contra hcount
        have hexact := numStrings_of_short r (by omega)
        omega
      · intro h
        refine ⟨hvoice.mpr (fun hmore => ?_), hdata⟩
        have hcount := h r rfl
        omega

/-- A voice response of five strings. -/
def fiveStrings : StringResponse := ⟨40, List.replicate 5 none, rfl⟩

/-- Five strings pass the check for four, and entry 7 is read. -/
theorem registrationLaw_five :
    getVoiceRegistrationStateResponse RIL_E_SUCCESS (some fiveStrings) = .error .outOfBounds ∧
      ¬ RegistrationLaw RIL_E_SUCCESS (some fiveStrings) := by
  have hrun : getVoiceRegistrationStateResponse RIL_E_SUCCESS (some fiveStrings) =
      .error .outOfBounds := by decide
  refine ⟨hrun, fun h => ?_⟩
  obtain ⟨result, hresult, -⟩ := h.voice
  rw [hrun] at hresult
  cases hresult

end MeizuM5c.Ril
