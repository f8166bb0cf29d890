import MeizuM5c.Lib.Ledger
import MeizuM5c.Lib.MachineInt
import MeizuM5c.Ril.CommandTables

/-!
Who frees the arguments of a request: the function that has made them, or
`clearPendingBuffer`, which `my_enqueue` calls unless the format is `FMT_IGNORE`. Each
function is the account of its allocations and frees, in the default build, where
`my_enqueue` gives the request to the vendor at once.

What the strings hold does not matter here, only how long they are.
-/

namespace MeizuM5c.Ril.Arguments

open Lib

abbrev HidlString := List UInt8

/-- The strings of a profile, and whether `convertMvnoTypeToString` knows its type. -/
structure DataProfileInfo where
  apn : HidlString
  protocol : HidlString
  roamingProtocol : HidlString
  user : HidlString
  password : HidlString
  mvnoMatchData : HidlString
  mvnoKnown : Bool

/-- The device is arm64. -/
def sizeofPointer : Nat := 8

def sizeofInt : Nat := 4

/-- `sizeof(RIL_DataProfileInfo)`. -/
def sizeofDataProfileInfo : Nat := 72

/-- `sizeof(RIL_DataProfileInfo_v15)`. -/
def sizeofDataProfileInfoV15 : Nat := 104

/-- What a buffer points to, by its format. -/
inductive Buffer where
  | void
  | ints (pInts : Option Pointer)
  | str (pString : Option Pointer)
  | strs (pStrings : List (Option Pointer))
  | callFWST (number : Option Pointer)
  | iccAPDU (data : Option Pointer)
  | simIo (path data pin2 aidPtr : Option Pointer)
  | wrSMSSIM (smsc pdu : Option Pointer)
  | raw
  | attchAPN (strings : List (Option Pointer))
  | imsSms (pStrings : Option Pointer) (strings : List (Option Pointer))
  | simAuth (authData aid : Option Pointer)
  | dataProf (profiles : List (Pointer × List (Option Pointer)))

def clearPendingBuffer (buf : Buffer) (m : Ledger) : Ledger :=
  match buf with
  | .void | .raw => m
  | .ints _ => m
  | .str pString => m.free pString
  | .strs pStrings => m.freeAll pStrings
  | .callFWST number => m.free number
  | .iccAPDU data => m.free data
  | .simIo path data pin2 aidPtr => m.freeAll [path, data, pin2, aidPtr]
  | .wrSMSSIM smsc pdu => m.freeAll [smsc, pdu]
  | .attchAPN strings => m.freeAll strings
  | .imsSms pStrings strings => (m.freeAll strings).free pStrings
  | .simAuth authData aid => m.freeAll [authData, aid]
  | .dataProf profiles =>
      profiles.foldl (fun m dp => (m.freeAll dp.2).free (some dp.1)) m

/-- The vendor is called, and the buffer cleared if the format is not `FMT_IGNORE`. -/
def myEnqueue (ignore : Bool) (buf : Buffer) (m : Ledger) : Ledger :=
  if ignore then m else clearPendingBuffer buf m

def ignoreBF (proxyId : Proxy) : Bool := proxyId ≠ .proxy1 && proxyId ≠ .proxy3

/-- What a dispatch finds: what the allocator gives, the version of the vendor's library,
the request with the proxy of its command entry if `addRequestToList` had memory for it,
the slot and the property that `setInitialAttachApn` reads, and what is in the memory of
a profile, from the second one on, after the first one has been freed. -/
structure Env where
  gives : Nat → Bool
  version : Int
  pRI : Option Proxy
  slotId : Nat
  operatorNumeric : String
  stale : Nat → List (Option Pointer)

section Code

variable (e : Env)

/-- The copy, and whether there was memory for it. -/
def copyHidlStringToRil (allowEmpty : Bool) (src : HidlString) (m : Ledger) :
    (Option Pointer × Bool) × Ledger :=
  if src.length = 0 ∧ allowEmpty = false then ((none, true), m)
  else
    match m.calloc e.gives (src.length + 1) with
    | (some dest, m) => ((some dest, true), m)
    | (none, m) => ((none, false), m)

/-- One string after the other, up to the first that fails. The pointers behind it stay
null, and freeing all of them is to free those that were copied. -/
def copyStrings (allowEmpty : Bool) : List HidlString → Ledger →
    (List (Option Pointer) × Bool) × Ledger
  | [], m => (([], true), m)
  | src :: srcs, m =>
      match copyHidlStringToRil e allowEmpty src m with
      | ((dest, true), m) =>
          let ((dests, ok), m) := copyStrings allowEmpty srcs m
          ((dest :: dests, ok), m)
      | ((dest, false), m) => ((dest :: srcs.map (fun _ => none), false), m)

def dispatchString (str : HidlString) (m : Ledger) : Ledger :=
  match e.pRI with
  | none => m
  | some proxyId =>
      match copyHidlStringToRil e false str m with
      | ((_, false), m) => m
      | ((pString, true), m) =>
          if ignoreBF proxyId then (myEnqueue true (.str pString) m).free pString
          else myEnqueue false (.str pString) m

/-- `calloc` of a negative number of pointers asks for more than there can be. -/
def callocPointers (count : Int) (m : Ledger) : Option Pointer × Ledger :=
  m.calloc (fun call => e.gives call && decide (0 ≤ count)) (count.toNat * sizeofPointer)

def dispatchStringsV (allowEmpty : Bool) (countStrings : Int) (strs : List HidlString)
    (m : Ledger) : Ledger :=
  match e.pRI with
  | none => m
  | some proxyId =>
      match callocPointers e countStrings m with
      | (none, m) => m
      | (some pStrings, m) =>
          match copyStrings e allowEmpty (strs.take countStrings.toNat) m with
          | ((strings, false), m) => (m.freeAll strings).free (some pStrings)
          | ((strings, true), m) =>
              if ignoreBF proxyId then
                ((myEnqueue true (.strs strings) m).freeAll strings).free (some pStrings)
              else myEnqueue false (.strs strings) m

/-- The form for a vector, whose size becomes an `int`. -/
def dispatchStrings (data : List HidlString) (m : Ledger) : Ledger :=
  dispatchStringsV e false (wrapInt 32 data.length) data m

def dispatchInts (ints : List Int) (m : Ledger) : Ledger :=
  match e.pRI with
  | none => m
  | some proxyId =>
      match m.calloc e.gives (ints.length * sizeofInt) with
      | (none, m) => m
      | (some pInts, m) =>
          if ignoreBF proxyId then (myEnqueue true (.ints (some pInts)) m).free (some pInts)
          else myEnqueue false (.ints (some pInts)) m

/-- Of `callInfo` only the number is allocated. -/
def dispatchCallForwardStatus (number : HidlString) (m : Ledger) : Ledger :=
  match e.pRI with
  | none => m
  | some proxyId =>
      match copyHidlStringToRil e false number m with
      | ((_, false), m) => m
      | ((number, true), m) =>
          if ignoreBF proxyId then (myEnqueue true (.callFWST number) m).free number
          else myEnqueue false (.callFWST number) m

def dispatchIccApdu (data : HidlString) (m : Ledger) : Ledger :=
  match e.pRI with
  | none => m
  | some _ =>
      match copyHidlStringToRil e false data m with
      | ((_, false), m) => m
      | ((data, true), m) => myEnqueue false (.iccAPDU data) m

/-- The loop over the profiles, each with its strings and whether its other fields are
valid, up to the first that fails. -/
def copyProfiles : List (List HidlString × Bool) → Ledger →
    (List (List (Option Pointer)) × Bool) × Ledger
  | [], m => (([], true), m)
  | (srcs, valid) :: rest, m =>
      match copyStrings e false srcs m with
      | ((fields, ok), m) =>
          if ok && valid then
            let ((others, ok), m) := copyProfiles rest m
            ((fields :: others, ok), m)
          else ((fields :: rest.map (fun p => p.1.map (fun _ => none)), false), m)

/-- Field by field, in each the profiles. -/
def freeSetDataProfileData (numfields : Nat) (profiles : List (List (Option Pointer)))
    (dataProfiles dataProfilePtrs : Pointer) (m : Ledger) : Ledger :=
  let strings := (List.range numfields).flatMap (fun i =>
    profiles.map (fun fields => fields[i]?.join))
  ((m.freeAll strings).free (some dataProfiles)).free (some dataProfilePtrs)

/-- The two versions of `setDataProfile` up to the call of `my_enqueue`: the sizes, the
strings of each profile, and what is done with the profiles. -/
def setProfiles (size numfields : Nat) (sources : List (List HidlString × Bool))
    (send : Pointer → Pointer → List (List (Option Pointer)) → Ledger → Ledger) (m : Ledger) :
    Ledger :=
  match m.calloc e.gives (sources.length * size) with
  | (none, m) => m
  | (some dataProfiles, m) =>
      match m.calloc e.gives (sources.length * sizeofPointer) with
      | (none, m) => m.free (some dataProfiles)
      | (some dataProfilePtrs, m) =>
          match copyProfiles e sources m with
          | ((profiles, false), m) =>
              freeSetDataProfileData numfields profiles dataProfiles dataProfilePtrs m
          | ((profiles, true), m) => send dataProfiles dataProfilePtrs profiles m

/-- `dataProfilePtrs[i]`, with the strings that are read there: the first profile is read
before it is freed, the others are in the same block. -/
def profileEntries (dataProfiles : Pointer) (profiles : List (List (Option Pointer))) :
    List (Pointer × List (Option Pointer)) :=
  profiles.zipIdx.map (fun p =>
    (⟨dataProfiles.block, dataProfiles.offset + p.2 * sizeofDataProfileInfo⟩,
      if p.2 = 0 then p.1 else e.stale p.2))

/-- The strings of a profile up to version 14, and from version 15 on. -/
def DataProfileInfo.strings (p : DataProfileInfo) (isRoaming : Bool) : List HidlString :=
  [p.apn, if isRoaming then p.roamingProtocol else p.protocol, p.user, p.password]

def DataProfileInfo.stringsV15 (p : DataProfileInfo) : List HidlString :=
  [p.apn, p.protocol, p.roamingProtocol, p.user, p.password, p.mvnoMatchData]

def setDataProfile (profiles : List DataProfileInfo) (isRoaming : Bool) (m : Ledger) : Ledger :=
  match e.pRI with
  | none => m
  | some _ =>
      if e.version ≤ 14 then
        setProfiles e sizeofDataProfileInfo 4 (profiles.map (fun p => (p.strings isRoaming, true)))
          (fun dataProfiles _ fields =>
            myEnqueue false (.dataProf (profileEntries e dataProfiles fields))) m
      else
        setProfiles e sizeofDataProfileInfoV15 6
          (profiles.map (fun p => (p.stringsV15, p.mvnoKnown)))
          (fun dataProfiles dataProfilePtrs fields m =>
            freeSetDataProfileData 6 fields dataProfiles dataProfilePtrs
              (myEnqueue true (.dataProf []) m)) m

/-- Under `MTK_HARDWARE` an empty string is given instead of null. -/
def fillEmpty : List (Option Pointer) → Ledger → List (Option Pointer) × Ledger
  | [], m => ([], m)
  | some p :: ps, m =>
      let (ps, m) := fillEmpty ps m
      (some p :: ps, m)
  | none :: ps, m =>
      let (p, m) := m.calloc e.gives 1
      let (ps, m) := fillEmpty ps m
      (p :: ps, m)

/-- Whether there is an operator to copy: the part behind the comma for the second slot,
which is null where there is no comma. -/
def operatorFound : Bool :=
  e.operatorNumeric = "" || e.slotId = 0 || e.operatorNumeric.toList.contains ','

/-- `none` where the copy of the operator reads or writes at the null pointer. -/
def setInitialAttachApn (profile : DataProfileInfo) (isRoaming : Bool) (m : Ledger) :
    Option Ledger :=
  match e.pRI with
  | none => some m
  | some _ =>
      if e.version ≤ 14 then
        match copyStrings e false (profile.strings isRoaming) m with
        | ((strings, false), m) => some (m.freeAll strings)
        | ((strings, true), m) =>
            let (strings, m) := fillEmpty e strings m
            match m.calloc e.gives 8 with
            | (none, _) => none
            | (some operatorNumeric, m) =>
                if operatorFound e then
                  some (myEnqueue false (.attchAPN (strings ++ [some operatorNumeric])) m)
                else none
      else
        match copyStrings e false
          [profile.apn, profile.protocol, profile.roamingProtocol, profile.user,
            profile.password] m with
        | ((strings, false), m) => some (m.freeAll strings)
        | ((strings, true), m) =>
            if profile.mvnoKnown then
              match copyHidlStringToRil e false profile.mvnoMatchData m with
              | ((_, false), m) => some (m.freeAll strings)
              | ((mvnoMatchData, true), m) =>
                  some ((myEnqueue true (.attchAPN strings) m).freeAll
                    (strings ++ [mvnoMatchData]))
            else some (m.freeAll strings)

/-- The requests with an argument that is made for them. -/
inductive Dispatch where
  | string (str : HidlString)
  | strings (data : List HidlString)
  | stringsV (allowEmpty : Bool) (strs : List HidlString)
  | ints (ints : List Int)
  | callForwardStatus (number : HidlString)
  | iccApdu (data : HidlString)
  | setDataProfile (profiles : List DataProfileInfo) (isRoaming : Bool)
  | setInitialAttachApn (profile : DataProfileInfo) (isRoaming : Bool)

/-- The account of a dispatch, if it returns. -/
def dispatch : Dispatch → Option Ledger
  | .string str => some (dispatchString e str {})
  | .strings data => some (dispatchStrings e data {})
  | .stringsV allowEmpty strs => some (dispatchStringsV e allowEmpty strs.length strs {})
  | .ints ints => some (dispatchInts e ints {})
  | .callForwardStatus number => some (dispatchCallForwardStatus e number {})
  | .iccApdu data => some (dispatchIccApdu e data {})
  | .setDataProfile profiles isRoaming => some (Arguments.setDataProfile e profiles isRoaming {})
  | .setInitialAttachApn profile isRoaming =>
      Arguments.setInitialAttachApn e profile isRoaming {}

end Code

end MeizuM5c.Ril.Arguments
