import MeizuM5c.Lib.DistinctKeys
import MeizuM5c.Lib.Transition
import MeizuM5c.Ril.PendingRequests

/-!
The table of data calls of the radio service. A setup is given the lowest of the
interfaces 0 to 3 that is not in the table, or interface 4 for the IMS; its
answer enters the table, and a deactivation leaves it. Both slots share the
table.

Beside the table the state records which setups the vendor has not answered and
which calls are up. A call is up from a successful answer to the request to
deactivate it.
-/

namespace MeizuM5c.Ril.DataCalls

open Lib Pending

def ApnTypes.IMS : UInt32 := 0x40

abbrev Cids := Fin 5 → Int

/-- The loops over the table: the first entry with a value. -/
def indexOf (cids : Cids) (cid : Int) : Option (Fin 5) :=
  (List.finRange 5).find? fun i => cids i = cid

/-- -1 when all interfaces are in use. -/
def mtkSetupInterface (dataCallCids : Cids) (supportedApnTypesBitmap : UInt32) : Int :=
  if supportedApnTypesBitmap &&& ApnTypes.IMS ≠ 0 then 4
  else
    match (List.range 4).find? fun intf : Nat => indexOf dataCallCids (intf : Int) = none with
    | some intf => (intf : Int)
    | none => -1

/-- `RIL_Data_Call_Response_v11`, as far as it is read here. -/
structure DataCallResponse where
  status : Int
  cid : Int
deriving DecidableEq

/-- A setup that the vendor was given. -/
structure Setup where
  slotId : SocketId
  serial : Int
  intf : Int
deriving DecidableEq

structure DataCall where
  slotId : SocketId
  cid : Int
deriving DecidableEq

structure State where
  dataCallCids : Cids := fun _ => -1
  pending : List Setup := []
  live : List DataCall := []

/-- The interfaces of the calls that are up. -/
def State.liveCids (σ : State) : List Int := σ.live.map DataCall.cid

/-- `dispatched` says that the setup reached the vendor, `callbacks` that the
framework has registered its response functions. -/
inductive Op where
  | setupDataCall (slotId : SocketId) (serial : Int) (supportedApnTypesBitmap : UInt32)
      (dispatched : Bool)
  | setupDataCallResponse (setup : Setup) (callbacks : Bool) (e : Int)
      (response : Option DataCallResponse) (responseLen : Nat)
  | deactivateDataCall (slotId : SocketId) (cid : Int)

section Operations

-- `sizeof(RIL_Data_Call_Response_v11)`
variable (size : Nat)

/-- The response that is converted; a short one is not. -/
def converted (response : Option DataCallResponse) (responseLen : Nat) : Option DataCallResponse :=
  if responseLen < size then none else response

/-- The call that an answer reports as set up. -/
def established (e : Int) (response : Option DataCallResponse) (responseLen : Nat) :
    Option DataCallResponse :=
  if e = Pending.RIL_E_SUCCESS then (converted size response responseLen).filter (·.status = 0)
  else none

/-- The entry in `setupDataCallResponse`, whatever the status. -/
def record (cids : Cids) (cid : Int) : Cids :=
  match indexOf cids (-1) with
  | some i => Function.update cids i cid
  | none => cids

/-- The removal in `deactivateDataCall`. -/
def clear (cids : Cids) (cid : Int) : Cids :=
  match indexOf cids cid with
  | some i => Function.update cids i (-1)
  | none => cids

/-- The table after an answer. -/
def recorded (cids : Cids) (callbacks : Bool) (response : Option DataCallResponse)
    (responseLen : Nat) : Cids :=
  if callbacks then
    match converted size response responseLen with
    | some result => record cids result.cid
    | none => cids
  else cids

/-- The vendor answers a setup that it was given, and reports a call on the
interface it was given. -/
def Enabled (σ : State) : Op → Prop
  | .setupDataCall _ _ _ _ => True
  | .setupDataCallResponse setup _ e response responseLen =>
      setup ∈ σ.pending ∧
        ∀ result, established size e response responseLen = some result → result.cid = setup.intf
  | .deactivateDataCall _ _ => True

def next (σ : State) : Op → State
  | .setupDataCall slotId serial types dispatched =>
      if dispatched then
        { σ with
          pending := ⟨slotId, serial, mtkSetupInterface σ.dataCallCids types⟩ :: σ.pending }
      else σ
  | .setupDataCallResponse setup callbacks e response responseLen =>
      { dataCallCids := recorded size σ.dataCallCids callbacks response responseLen
        pending := σ.pending.erase setup
        live :=
          match established size e response responseLen with
          | some result => ⟨setup.slotId, result.cid⟩ :: σ.live
          | none => σ.live }
  | .deactivateDataCall slotId cid =>
      { σ with
        dataCallCids := clear σ.dataCallCids cid
        live := σ.live.erase ⟨slotId, cid⟩ }

def Step (σ : State) (op : Op) (τ : State) : Prop := Enabled size σ op ∧ τ = next size σ op

/-- A step at which the table does what it is for. An ordinary setup finds an
interface that no call uses, and the lowest of them was not promised to another
setup. A call that is reported is registered, on an interface that no call uses;
any other answer leaves the table as it is, because it names no call or there is
no room. A deactivation is for a call of its own slot. -/
def Allowed (σ : State) : Op → Prop
  | .setupDataCall _ _ types _ =>
      types &&& ApnTypes.IMS = 0 → ∃ intf : Nat, intf < 4 ∧ (intf : Int) ∉ σ.liveCids ∧
        (∀ lower : Nat, lower < intf → (lower : Int) ∈ σ.liveCids) ∧
        ∀ setup ∈ σ.pending, setup.intf ≠ intf
  | .setupDataCallResponse setup callbacks e response responseLen =>
      if (established size e response responseLen).isSome then
        callbacks = true ∧ setup.intf ∉ σ.liveCids
      else
        callbacks = true → ∀ result, converted size response responseLen = some result →
          result.cid = -1 ∨ ∀ i, σ.dataCallCids i ≠ -1
  | .deactivateDataCall slotId cid => ∀ call ∈ σ.live, call.cid = cid → call.slotId = slotId

def AllowedStep (σ : State) (op : Op) (τ : State) : Prop :=
  Step size σ op τ ∧ Allowed size σ op

end Operations

def Initial (σ : State) : Prop := σ = {}

/-- The table has no interface twice, and holds exactly those of the calls that
are up. -/
structure TableLaw (σ : State) : Prop where
  nodup : ∀ i j, σ.dataCallCids i ≠ -1 → σ.dataCallCids i = σ.dataCallCids j → i = j
  cids : ∀ cid, (cid ≠ -1 ∧ ∃ i, σ.dataCallCids i = cid) ↔ cid ∈ σ.liveCids

/-- The interface of an ordinary setup is one of 0 to 3, and neither a call nor
another setup uses it. -/
def ChoiceLaw (σ : State) : Op → Prop
  | .setupDataCall _ _ types _ =>
      types &&& ApnTypes.IMS = 0 →
        (0 ≤ mtkSetupInterface σ.dataCallCids types ∧
          mtkSetupInterface σ.dataCallCids types ≤ 3) ∧
        mtkSetupInterface σ.dataCallCids types ∉ σ.liveCids ∧
        ∀ setup ∈ σ.pending, setup.intf ≠ mtkSetupInterface σ.dataCallCids types
  | _ => True

section Table

theorem indexOf_eq_none {cids : Cids} {cid : Int} :
    indexOf cids cid = none ↔ ∀ i, cids i ≠ cid := by
  simp [indexOf, List.find?_eq_none]

theorem indexOf_some {cids : Cids} {cid : Int} {i : Fin 5} (h : indexOf cids cid = some i) :
    cids i = cid := by
  simpa using List.find?_some h

/-- The lowest interface that is not in the table is chosen. -/
theorem mtkSetupInterface_eq {cids : Cids} {types : UInt32} {intf : Nat}
    (hordinary : types &&& ApnTypes.IMS = 0) (hintf : intf < 4) (hfree : ∀ i, cids i ≠ intf)
    (hlower : ∀ lower < intf, ∃ i, cids i = (lower : Int)) :
    mtkSetupInterface cids types = intf := by
  have hfind : ((List.range 4).find? fun k : Nat => indexOf cids (k : Int) = none) = some intf := by
    rw [List.find?_range_eq_some]
    refine ⟨?_, List.mem_range.mpr hintf, fun k hk => ?_⟩
    · rw [decide_eq_true_eq]
      exact indexOf_eq_none.mpr hfree
    · obtain ⟨i, hi⟩ := hlower k hk
      rw [Bool.not_eq_true', decide_eq_false_iff_not]
      exact fun hnone => indexOf_eq_none.mp hnone i hi
  rw [mtkSetupInterface, if_neg (not_not.mpr hordinary), hfind]

/-- Where the value stood, and only there, the table is free. -/
theorem clear_eq {cids : Cids} {cid : Int}
    (hnodup : ∀ i j, cids i ≠ -1 → cids i = cids j → i = j) (i : Fin 5) :
    clear cids cid i = if cids i = cid then -1 else cids i := by
  cases hindex : indexOf cids cid with
  | none =>
      simp only [clear, hindex, if_neg (indexOf_eq_none.mp hindex i)]
  | some k =>
      have hk := indexOf_some hindex
      simp only [clear, hindex]
      by_cases hi : i = k
      · rw [hi, Function.update_self, if_pos hk]
      · rw [Function.update_of_ne hi]
        by_cases hcid : cids i = cid
        · rw [if_pos hcid]
          by_contra hused
          exact hi (hnodup i k hused (hcid.trans hk.symm))
        · rw [if_neg hcid]

theorem record_full {cids : Cids} (cid : Int) (h : ∀ i, cids i ≠ -1) : record cids cid = cids := by
  rw [record, indexOf_eq_none.mpr h]

theorem record_minus_one (cids : Cids) : record cids (-1) = cids := by
  cases hindex : indexOf cids (-1) with
  | none => rw [record, hindex]
  | some i =>
      simp only [record, hindex]
      conv_lhs => rw [← indexOf_some hindex]
      exact Function.update_eq_self i cids

/-- A free entry takes the value. -/
theorem record_eq {cids : Cids} (cid : Int) (h : ∃ i, cids i = -1) :
    ∃ i, cids i = -1 ∧ record cids cid = Function.update cids i cid := by
  cases hindex : indexOf cids (-1) with
  | none =>
      obtain ⟨i, hi⟩ := h
      exact absurd hi (indexOf_eq_none.mp hindex i)
  | some i =>
      refine ⟨i, indexOf_some hindex, ?_⟩
      rw [record, hindex]

end Table

section Invariant

/-- What holds between the table, the calls and the setups in a run of allowed
steps. Only the IMS interface may be promised twice. -/
structure Inv (σ : State) : Prop extends TableLaw σ where
  live_nodup : σ.liveCids.Nodup
  live_range : ∀ cid ∈ σ.liveCids, 0 ≤ cid ∧ cid ≤ 4
  pending_range : ∀ setup ∈ σ.pending, 0 ≤ setup.intf ∧ setup.intf ≤ 4
  promised : ((σ.pending.map Setup.intf).filter (· ≠ 4)).Nodup
  apart : ∀ setup ∈ σ.pending, setup.intf ≠ 4 → setup.intf ∉ σ.liveCids

theorem Inv.initial : Inv {} := by
  refine ⟨⟨fun i j h => absurd rfl h, fun cid => ?_⟩, .nil, nofun, nofun, .nil, nofun⟩
  exact iff_of_false (fun h => h.1 (h.2.choose_spec.symm)) (List.not_mem_nil)

/-- As long as an interface is not used, the table has room. -/
theorem Inv.exists_free {σ : State} (h : Inv σ) {cid : Int} (hrange : 0 ≤ cid ∧ cid ≤ 4)
    (hunused : cid ∉ σ.liveCids) : ∃ i, σ.dataCallCids i = -1 := by
  by_contra hfull
  rw [not_exists] at hfull
  have hlive (i : Fin 5) : σ.dataCallCids i ∈ σ.liveCids := (h.cids _).mp ⟨hfull i, i, rfl⟩
  have hbounds (i : Fin 5) := h.live_range _ (hlive i)
  let entry (i : Fin 5) : Fin 5 := ⟨(σ.dataCallCids i).toNat, by have := hbounds i; omega⟩
  have hinjective : Function.Injective entry := by
    intro i j hij
    have hval : (σ.dataCallCids i).toNat = (σ.dataCallCids j).toNat := congrArg Fin.val hij
    have hi := hbounds i
    have hj := hbounds j
    exact h.nodup i j (hfull i) (by omega)
  obtain ⟨i, hi⟩ := Finite.surjective_of_injective hinjective ⟨cid.toNat, by omega⟩
  have hval : (σ.dataCallCids i).toNat = cid.toNat := congrArg Fin.val hi
  have hentry : σ.dataCallCids i = cid := by
    have := hbounds i
    omega
  exact hunused (hentry ▸ hlive i)

/-- An allowed setup is given the interface that the condition names. -/
theorem Inv.choice {σ : State} (h : Inv σ) {types : UInt32} {intf : Nat}
    (hordinary : types &&& ApnTypes.IMS = 0) (hintf : intf < 4) (hfree : (intf : Int) ∉ σ.liveCids)
    (hlower : ∀ lower < intf, (lower : Int) ∈ σ.liveCids) :
    mtkSetupInterface σ.dataCallCids types = intf := by
  refine mtkSetupInterface_eq hordinary hintf (fun i hi => hfree ?_) fun lower hlt => ?_
  · exact (h.cids intf).mp ⟨by omega, i, hi⟩
  · exact ((h.cids lower).mpr (hlower lower hlt)).2

theorem mtkSetupInterface_ims (cids : Cids) {types : UInt32} (h : types &&& ApnTypes.IMS ≠ 0) :
    mtkSetupInterface cids types = 4 := if_pos h

/-- A setup may be added when its interface is not used by a call or promised. -/
theorem Inv.setup {σ : State} (h : Inv σ) {setup : Setup}
    (hrange : 0 ≤ setup.intf ∧ setup.intf ≤ 4)
    (hfree : setup.intf ≠ 4 →
      setup.intf ∉ σ.liveCids ∧ ∀ other ∈ σ.pending, other.intf ≠ setup.intf) :
    Inv { σ with pending := setup :: σ.pending } := by
  refine ⟨⟨h.nodup, h.cids⟩, h.live_nodup, h.live_range, ?_, ?_, ?_⟩
  · exact List.forall_mem_cons.mpr ⟨hrange, h.pending_range⟩
  · rw [List.map_cons, List.filter_cons]
    split_ifs with hordinary
    · rw [decide_eq_true_eq] at hordinary
      refine List.nodup_cons.mpr ⟨fun hin => ?_, h.promised⟩
      obtain ⟨other, hother, heq⟩ := List.mem_map.mp (List.mem_of_mem_filter hin)
      exact (hfree hordinary).2 other hother heq
    · exact h.promised
  · exact List.forall_mem_cons.mpr ⟨fun hordinary => (hfree hordinary).1, h.apart⟩

/-- A setup that was answered is no longer pending, and nobody else was promised
its interface. -/
theorem Inv.erase {σ : State} (h : Inv σ) (setup : Setup) :
    Inv { σ with pending := σ.pending.erase setup } := by
  have hsub : (σ.pending.erase setup).Sublist σ.pending := List.erase_sublist
  exact ⟨⟨h.nodup, h.cids⟩, h.live_nodup, h.live_range, fun s hs => h.pending_range s (hsub.mem hs),
    h.promised.sublist ((hsub.map _).filter _), fun s hs => h.apart s (hsub.mem hs)⟩

theorem Inv.promised_once {σ : State} (h : Inv σ) {setup other : Setup} (hsetup : setup ∈ σ.pending)
    (hother : other ∈ σ.pending.erase setup) (hordinary : other.intf ≠ 4) :
    other.intf ≠ setup.intf := by
  intro heq
  have hperm := ((List.perm_cons_erase hsetup).map Setup.intf).filter (· ≠ 4)
  have hnodup := hperm.nodup_iff.mp h.promised
  rw [List.map_cons, List.filter_cons_of_pos (by simpa [← heq] using hordinary)] at hnodup
  refine (List.nodup_cons.mp hnodup).1 ?_
  rw [← heq]
  exact List.mem_filter.mpr ⟨List.mem_map_of_mem hother, by simpa using hordinary⟩

/-- A call on an interface that nobody uses enters the table. -/
theorem Inv.establish {σ : State} (h : Inv σ) (call : DataCall)
    (hrange : 0 ≤ call.cid ∧ call.cid ≤ 4) (hunused : call.cid ∉ σ.liveCids)
    (hpromised : ∀ setup ∈ σ.pending, setup.intf ≠ 4 → setup.intf ≠ call.cid) :
    Inv { σ with dataCallCids := record σ.dataCallCids call.cid, live := call :: σ.live } := by
  obtain ⟨k, hk, hrecord⟩ := record_eq call.cid (h.exists_free hrange hunused)
  have hentry (i : Fin 5) : record σ.dataCallCids call.cid i =
      if i = k then call.cid else σ.dataCallCids i := by
    rw [hrecord, Function.update_apply]
  have hnew (i : Fin 5) : σ.dataCallCids i ≠ call.cid := fun hi =>
    hunused ((h.cids _).mp ⟨by omega, i, hi⟩)
  refine ⟨⟨fun i j hused heq => ?_, fun cid => ?_⟩, ?_, ?_, h.pending_range, h.promised,
    fun setup hsetup hordinary hin => ?_⟩
  · simp only [hentry] at hused heq
    split_ifs at hused heq with hi hj hj
    · exact hi.trans hj.symm
    · exact absurd heq.symm (hnew j)
    · exact absurd heq (hnew i)
    · exact h.nodup i j hused heq
  · simp only [State.liveCids, List.map_cons, List.mem_cons, hentry]
    constructor
    · rintro ⟨hcid, i, hi⟩
      split_ifs at hi
      · exact .inl hi.symm
      · exact .inr ((h.cids cid).mp ⟨hcid, i, hi⟩)
    · rintro (rfl | hlive)
      · exact ⟨by omega, k, if_pos rfl⟩
      · obtain ⟨hcid, i, hi⟩ := (h.cids cid).mpr hlive
        have hne : i ≠ k := fun heq => hcid (by rw [← hi, heq, hk])
        exact ⟨hcid, i, by rw [if_neg hne, hi]⟩
  · exact List.nodup_cons.mpr ⟨hunused, h.live_nodup⟩
  · exact List.forall_mem_cons.mpr ⟨hrange, h.live_range⟩
  · rcases List.mem_cons.mp hin with heq | hin
    · exact hpromised setup hsetup hordinary heq
    · exact h.apart setup hsetup hordinary hin

/-- A deactivation takes its call out of the table. -/
theorem Inv.deactivate {σ : State} (h : Inv σ) {slotId : SocketId} {cid : Int}
    (hown : ∀ call ∈ σ.live, call.cid = cid → call.slotId = slotId) :
    Inv { σ with dataCallCids := clear σ.dataCallCids cid, live := σ.live.erase ⟨slotId, cid⟩ } := by
  have hsub : (σ.live.erase ⟨slotId, cid⟩).Sublist σ.live := List.erase_sublist
  have hsubCids := hsub.map DataCall.cid
  have hlive (x : Int) : x ∈ (σ.live.erase ⟨slotId, cid⟩).map DataCall.cid ↔
      x ≠ cid ∧ x ∈ σ.liveCids := by
    by_cases hmem : (⟨slotId, cid⟩ : DataCall) ∈ σ.live
    · exact mem_map_erase_of_nodup h.live_nodup hmem x
    · have hnone : cid ∉ σ.liveCids := by
        intro hin
        obtain ⟨call, hcall, rfl⟩ := List.mem_map.mp hin
        exact hmem (hown call hcall rfl ▸ hcall)
      rw [List.erase_of_not_mem hmem]
      exact ⟨fun hx => ⟨fun heq => hnone (heq ▸ hx), hx⟩, fun hx => hx.2⟩
  refine ⟨⟨fun i j hused heq => ?_, fun x => ?_⟩, h.live_nodup.sublist hsubCids,
    fun x hx => h.live_range x (hsubCids.mem hx), h.pending_range, h.promised,
    fun setup hsetup hordinary hin => h.apart setup hsetup hordinary (hsubCids.mem hin)⟩
  · simp only [clear_eq h.nodup] at hused heq
    split_ifs at hused heq with hi hj hj
    · exact absurd rfl hused
    · exact absurd rfl hused
    · exact absurd heq hused
    · exact h.nodup i j hused heq
  · refine Iff.trans ?_ (hlive x).symm
    rw [← h.cids x]
    simp only [clear_eq h.nodup]
    constructor
    · rintro ⟨hx, i, hi⟩
      split_ifs at hi with hcid
      · exact absurd hi.symm hx
      · exact ⟨hi ▸ hcid, hx, i, hi⟩
    · rintro ⟨hne, hx, i, hi⟩
      exact ⟨hx, i, by rw [if_neg (hi ▸ hne), hi]⟩

end Invariant

section Runs

variable (size : Nat)

/-- An answer that reports no call leaves the table as it is. -/
private theorem recorded_of_idle {cids : Cids} {callbacks : Bool} {response : Option DataCallResponse}
    {responseLen : Nat}
    (hidle : callbacks = true → ∀ result, converted size response responseLen = some result →
      result.cid = -1 ∨ ∀ i, cids i ≠ -1) :
    recorded size cids callbacks response responseLen = cids := by
  cases callbacks with
  | false => rfl
  | true =>
      cases hconverted : converted size response responseLen with
      | none => simp only [recorded, hconverted, if_true]
      | some result =>
          simp only [recorded, hconverted, if_true]
          rcases hidle rfl result hconverted with hnone | hfull
          · rw [hnone, record_minus_one]
          · exact record_full _ hfull

private theorem established_converted {e : Int} {response : Option DataCallResponse}
    {responseLen : Nat} {result : DataCallResponse}
    (h : established size e response responseLen = some result) :
    converted size response responseLen = some result := by
  unfold established at h
  split_ifs at h
  exact (Option.filter_eq_some_iff.mp h).1

theorem Inv.response {σ : State} (h : Inv σ) {setup : Setup} {callbacks : Bool} {e : Int}
    {response : Option DataCallResponse} {responseLen : Nat}
    (henabled : Enabled size σ (.setupDataCallResponse setup callbacks e response responseLen))
    (hallowed : Allowed size σ (.setupDataCallResponse setup callbacks e response responseLen)) :
    Inv (next size σ (.setupDataCallResponse setup callbacks e response responseLen)) := by
  obtain ⟨hsetup, hcid⟩ := henabled
  simp only [Allowed] at hallowed
  have hrest := h.erase setup
  cases hestablished : established size e response responseLen with
  | none =>
      rw [hestablished, if_neg (by simp)] at hallowed
      simp only [next, hestablished, recorded_of_idle size hallowed]
      exact hrest
  | some result =>
      rw [hestablished, if_pos Option.isSome_some] at hallowed
      obtain ⟨hcallbacks, hunused⟩ := hallowed
      have hintf := hcid result hestablished
      have hrecorded : recorded size σ.dataCallCids callbacks response responseLen =
          record σ.dataCallCids result.cid := by
        simp only [recorded, hcallbacks, if_true, established_converted size hestablished]
      simp only [next, hestablished, hrecorded]
      refine hrest.establish ⟨setup.slotId, result.cid⟩ ?_ ?_ fun other hother hordinary => ?_
      · rw [hintf]
        exact h.pending_range setup hsetup
      · rw [hintf]
        exact hunused
      · rw [hintf]
        exact h.promised_once hsetup hother hordinary

theorem Inv.next {σ τ : State} {op : Op} (h : Inv σ) (hstep : AllowedStep size σ op τ) : Inv τ := by
  obtain ⟨⟨henabled, rfl⟩, hallowed⟩ := hstep
  cases op with
  | setupDataCall slotId serial types dispatched =>
      cases dispatched with
      | false => exact h
      | true =>
          simp only [DataCalls.next, if_true]
          by_cases hims : types &&& ApnTypes.IMS = 0
          · obtain ⟨intf, hintf, hfree, hlower, hpromised⟩ := hallowed hims
            rw [h.choice hims hintf hfree hlower]
            exact h.setup ⟨by simp, by simp only; omega⟩ fun _ => ⟨hfree, hpromised⟩
          · rw [mtkSetupInterface_ims _ hims]
            exact h.setup ⟨by simp, by simp⟩ fun hordinary => absurd rfl hordinary
  | setupDataCallResponse setup callbacks e response responseLen =>
      exact h.response size henabled hallowed
  | deactivateDataCall slotId cid => exact h.deactivate hallowed

/-- In a run of allowed steps the table holds the interfaces of the calls that are
up, and every ordinary setup is given an interface of its own. -/
theorem data_call_table_law {σ : State} (h : Reachable Initial (AllowedStep size) σ) :
    TableLaw σ ∧ ∀ op τ, AllowedStep size σ op τ → ChoiceLaw σ op := by
  have hinv : Inv σ := by
    refine h.invariant ?_ fun _ _ _ hs hstep => hs.next size hstep
    rintro s rfl
    exact .initial
  refine ⟨hinv.toTableLaw, fun op τ hstep => ?_⟩
  cases op with
  | setupDataCall slotId serial types dispatched =>
      intro hordinary
      obtain ⟨intf, hintf, hfree, hlower, hpromised⟩ := hstep.2 hordinary
      rw [hinv.choice hordinary hintf hfree hlower]
      exact ⟨⟨by omega, by omega⟩, hfree, hpromised⟩
  | setupDataCallResponse setup callbacks e response responseLen => exact trivial
  | deactivateDataCall slotId cid => exact trivial

end Runs

section Traces

/-- With the response of `ril.h`, which has 4176 bytes. -/
def run (ops : List Op) : State := ops.foldl (next 4176) {}

/-- A setup for the default network, and the same on the other slot. -/
def internet : Op := .setupDataCall .socket1 1 1 true
def otherInternet : Op := .setupDataCall .socket2 2 1 true

/-- An answer with interface 0 to the first setup. -/
def answer (status : Int) : Op :=
  .setupDataCallResponse ⟨.socket1, 1, 0⟩ true 0 (some ⟨status, 0⟩) 4176

/-- A setup that succeeds takes interface 0, and the next one interface 1. -/
theorem second_setup_after_first :
    (run [internet, answer 0]).liveCids = [0] ∧ TableLaw (run [internet, answer 0]) ∧
      ChoiceLaw (run [internet, answer 0]) otherInternet := by
  have hinit : Reachable Initial (AllowedStep 4176) {} := .init rfl
  have hsetup := hinit.next internet
    ⟨⟨trivial, rfl⟩, fun _ => ⟨0, by decide, by decide, by decide, by decide⟩⟩
  have hallowed : Allowed 4176 (run [internet]) (answer 0) := by
    simp only [Allowed, answer]
    decide +kernel
  have hlive := hsetup.next (answer 0)
    ⟨⟨⟨by decide +kernel, fun _ h => by cases h; decide +kernel⟩, rfl⟩, hallowed⟩
  have hlaw := data_call_table_law 4176 hlive
  refine ⟨by decide +kernel, hlaw.1, hlaw.2 otherInternet _ ⟨⟨trivial, rfl⟩, fun _ => ?_⟩⟩
  refine ⟨1, by decide, by decide +kernel, ?_, by decide +kernel⟩
  decide +kernel

/-- Two setups that overlap are given one interface, and a setup that fails holds
the interface that its answer names. -/
theorem overlapping_setups_collide :
    (Reachable Initial (Step 4176) (run [internet]) ∧ ¬ChoiceLaw (run [internet]) otherInternet) ∧
      Reachable Initial (Step 4176) (run [internet, answer 33]) ∧
      ¬TableLaw (run [internet, answer 33]) := by
  have hinit : Reachable Initial (Step 4176) {} := .init rfl
  have hsetup := hinit.next internet ⟨trivial, rfl⟩
  refine ⟨⟨hsetup, fun hlaw => ?_⟩, hsetup.next (answer 33) ⟨?_, rfl⟩, fun hlaw => ?_⟩
  · have hpromised := (hlaw (by decide)).2.2 ⟨.socket1, 1, 0⟩ (by decide +kernel)
    exact hpromised (by decide +kernel)
  · exact ⟨by decide +kernel, fun _ h => nomatch h⟩
  · have hlive := (hlaw.cids 0).mp ⟨by decide, 0, by decide +kernel⟩
    exact absurd hlive (by decide +kernel)

end Traces

end MeizuM5c.Ril.DataCalls
