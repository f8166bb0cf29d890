import MeizuM5c.Lib.MachineInt

/-!
The tables that map request and indication codes to their entries. Codes come in
two ranges, the platform's and the vendor's; one index formula joins them through
the place where the vendor's entries start, which `RIL_registerSocket` finds
while it checks the tables.
-/

namespace MeizuM5c.Ril

open Lib

def RIL_REQUEST_VENDOR_BASE : Int := 2000
def RIL_UNSOL_RESPONSE_BASE : Int := 1000
def RIL_UNSOL_VENDOR_BASE : Int := 3000

/-- The proxies, by the names that the table uses. -/
inductive Proxy where
  | proxy1
  | proxy2
  | proxy3
  | proxy4
  | proxy5
  | proxy6
deriving DecidableEq, Repr

/-- The channel that a proxy stands for. -/
def Proxy.channel : Proxy → Nat
  | .proxy1 => 3
  | .proxy2 => 2
  | .proxy3 => 1
  | .proxy4 => 0
  | .proxy5 => 4
  | .proxy6 => 5

/-- One entry of `s_commands`. Of the response function only counts whether there
is one. -/
structure CommandInfo where
  requestNumber : Int
  responseFunction : Bool
  proxyId : Proxy
deriving DecidableEq

structure UnsolResponseInfo where
  requestNumber : Int
  wakePartial : Bool
deriving DecidableEq

section SelfCheck

variable (base vendorBase : Int)

/-- The loop of the self-check over the numbers of a table, from index `i`. A
failed assertion has no result; `start` is 0 as long as it is not set. -/
def selfCheckFrom : Nat → Nat → List Int → Option Nat
  | _, start, [] => some start
  | i, start, r :: rest =>
      if r < vendorBase then
        if (i : Int) + base = r then selfCheckFrom (i + 1) start rest else none
      else
        let start := if start = 0 then i else start
        if (i : Int) + vendorBase - start = r then selfCheckFrom (i + 1) start rest else none

def selfCheck (numbers : List Int) : Option Nat := selfCheckFrom base vendorBase 0 0 numbers

end SelfCheck

/-- `mtk_command_start` of a table that passes its check. -/
def mtkCommandStart (commands : List CommandInfo) : Option Nat :=
  selfCheck 0 RIL_REQUEST_VENDOR_BASE (commands.map CommandInfo.requestNumber)

/-- `mtk_unsol_start` of a table that passes its check. -/
def mtkUnsolStart (responses : List UnsolResponseInfo) : Option Nat :=
  selfCheck RIL_UNSOL_RESPONSE_BASE RIL_UNSOL_VENDOR_BASE
    (responses.map UnsolResponseInfo.requestNumber)

/-- The entry at an index. An index outside the table has no entry. -/
def entryAt {α : Type} (table : List α) (index : Int) : Option α :=
  if 0 ≤ index then table[index.toNat]? else none

/-- The index that `addRequestToList` takes its entry from. -/
def commandIndex (start : Nat) (request : Int) : Int :=
  if request < RIL_REQUEST_VENDOR_BASE then request
  else wrapInt 32 (wrapInt 32 (request - RIL_REQUEST_VENDOR_BASE) + start)

/-- The index at which `send_unsolResponse` reads the table, unless it rejects
the code. -/
def unsolResponseIndex (start : Nat) (unsolResponse : Int) : Option Int :=
  let index :=
    if unsolResponse < RIL_UNSOL_VENDOR_BASE then
      wrapInt 32 (unsolResponse - RIL_UNSOL_RESPONSE_BASE)
    else wrapInt 32 (wrapInt 32 (unsolResponse - RIL_UNSOL_VENDOR_BASE) + start)
  if index < 0 then none
  -- not handle beyond 80
  else if unsolResponse > RIL_UNSOL_VENDOR_BASE + 80 then none
  else some index

/-- The table of `ril_commands.h`. -/
def rilCommands : List CommandInfo :=
  [⟨0, false, .proxy3⟩, ⟨1, true, .proxy1⟩, ⟨2, true, .proxy1⟩, ⟨3, true, .proxy1⟩,
    ⟨4, true, .proxy1⟩, ⟨5, true, .proxy1⟩, ⟨6, true, .proxy1⟩, ⟨7, true, .proxy1⟩,
    ⟨8, true, .proxy1⟩, ⟨9, true, .proxy2⟩, ⟨10, true, .proxy2⟩, ⟨11, true, .proxy1⟩,
    ⟨12, true, .proxy4⟩, ⟨13, true, .proxy4⟩, ⟨14, true, .proxy4⟩, ⟨15, true, .proxy4⟩,
    ⟨16, true, .proxy4⟩, ⟨17, true, .proxy2⟩, ⟨18, true, .proxy2⟩, ⟨19, true, .proxy3⟩,
    ⟨20, true, .proxy3⟩, ⟨21, true, .proxy3⟩, ⟨22, true, .proxy3⟩, ⟨23, true, .proxy1⟩,
    ⟨24, true, .proxy2⟩, ⟨25, true, .proxy1⟩, ⟨26, true, .proxy1⟩, ⟨27, true, .proxy5⟩,
    ⟨28, true, .proxy1⟩, ⟨29, true, .proxy2⟩, ⟨30, true, .proxy2⟩, ⟨31, true, .proxy2⟩,
    ⟨32, true, .proxy2⟩, ⟨33, true, .proxy1⟩, ⟨34, true, .proxy2⟩, ⟨35, true, .proxy1⟩,
    ⟨36, true, .proxy2⟩, ⟨37, true, .proxy2⟩, ⟨38, false, .proxy3⟩, ⟨39, false, .proxy3⟩,
    ⟨40, true, .proxy2⟩, ⟨41, true, .proxy5⟩, ⟨42, true, .proxy1⟩, ⟨43, true, .proxy1⟩,
    ⟨44, true, .proxy2⟩, ⟨45, true, .proxy3⟩, ⟨46, true, .proxy3⟩, ⟨47, true, .proxy3⟩,
    ⟨48, true, .proxy3⟩, ⟨49, true, .proxy2⟩, ⟨50, true, .proxy2⟩, ⟨51, true, .proxy3⟩,
    ⟨52, true, .proxy4⟩, ⟨53, true, .proxy2⟩, ⟨54, true, .proxy2⟩, ⟨55, true, .proxy2⟩,
    ⟨56, false, .proxy5⟩, ⟨57, true, .proxy5⟩, ⟨58, false, .proxy1⟩, ⟨59, true, .proxy6⟩,
    ⟨60, true, .proxy3⟩, ⟨61, true, .proxy3⟩, ⟨62, true, .proxy2⟩, ⟨63, true, .proxy1⟩,
    ⟨64, true, .proxy1⟩, ⟨65, true, .proxy3⟩, ⟨66, true, .proxy3⟩, ⟨67, false, .proxy1⟩,
    ⟨68, false, .proxy1⟩, ⟨69, true, .proxy1⟩, ⟨70, true, .proxy1⟩, ⟨71, true, .proxy1⟩,
    ⟨72, true, .proxy2⟩, ⟨73, true, .proxy1⟩, ⟨74, true, .proxy1⟩, ⟨75, true, .proxy4⟩,
    ⟨76, true, .proxy3⟩, ⟨77, true, .proxy3⟩, ⟨78, true, .proxy3⟩, ⟨79, true, .proxy3⟩,
    ⟨80, true, .proxy3⟩, ⟨81, true, .proxy3⟩, ⟨82, true, .proxy2⟩, ⟨83, true, .proxy2⟩,
    ⟨84, true, .proxy2⟩, ⟨85, true, .proxy2⟩, ⟨86, false, .proxy2⟩, ⟨87, true, .proxy1⟩,
    ⟨88, true, .proxy1⟩, ⟨89, true, .proxy2⟩, ⟨90, true, .proxy1⟩, ⟨91, true, .proxy1⟩,
    ⟨92, true, .proxy1⟩, ⟨93, true, .proxy1⟩, ⟨94, true, .proxy1⟩, ⟨95, true, .proxy1⟩,
    ⟨96, true, .proxy1⟩, ⟨97, true, .proxy1⟩, ⟨98, true, .proxy3⟩, ⟨99, true, .proxy2⟩,
    ⟨100, true, .proxy2⟩, ⟨101, true, .proxy2⟩, ⟨102, true, .proxy1⟩, ⟨103, true, .proxy1⟩,
    ⟨104, true, .proxy1⟩, ⟨105, true, .proxy1⟩, ⟨106, true, .proxy1⟩, ⟨107, true, .proxy2⟩,
    ⟨108, true, .proxy3⟩, ⟨109, true, .proxy2⟩, ⟨110, true, .proxy3⟩, ⟨111, true, .proxy1⟩,
    ⟨112, true, .proxy3⟩, ⟨113, true, .proxy1⟩, ⟨114, true, .proxy1⟩, ⟨115, true, .proxy1⟩,
    ⟨116, true, .proxy1⟩, ⟨117, true, .proxy1⟩, ⟨118, true, .proxy4⟩, ⟨119, true, .proxy4⟩,
    ⟨120, true, .proxy4⟩, ⟨121, true, .proxy4⟩, ⟨122, true, .proxy1⟩, ⟨123, true, .proxy5⟩,
    ⟨124, true, .proxy1⟩, ⟨125, true, .proxy3⟩, ⟨126, false, .proxy1⟩, ⟨127, false, .proxy1⟩,
    ⟨128, true, .proxy1⟩, ⟨129, true, .proxy1⟩, ⟨130, true, .proxy1⟩, ⟨131, true, .proxy1⟩,
    ⟨132, true, .proxy5⟩, ⟨133, true, .proxy5⟩, ⟨134, true, .proxy5⟩, ⟨135, true, .proxy1⟩,
    ⟨136, true, .proxy4⟩, ⟨137, true, .proxy4⟩, ⟨138, true, .proxy3⟩, ⟨139, true, .proxy3⟩,
    ⟨140, true, .proxy1⟩]

/-- The table of `ril_unsol_commands.h`, in front of the vendor's entries. -/
def rilUnsolCommands : List UnsolResponseInfo :=
  (List.range 48).map fun i => ⟨1000 + i, i ≠ 7 ∧ i ≠ 9⟩

/-- Where a number of a checked table stands, counted from index `i`. -/
def Placed (base vendorBase : Int) (final position : Nat) (r : Int) : Prop :=
  (r < vendorBase → r = position + base) ∧
    (vendorBase ≤ r → r = position + vendorBase - final ∨ position = 0 ∧ r = vendorBase)

section Lookup

variable {base vendorBase : Int}

private theorem placed_cons {i final : Nat} {r : Int} {rest : List Int}
    (hfirst : Placed base vendorBase final i r)
    (hrest : ∀ k s, rest[k]? = some s → Placed base vendorBase final (i + 1 + k) s) :
    ∀ k s, (r :: rest)[k]? = some s → Placed base vendorBase final (i + k) s := by
  intro k s hs
  cases k with
  | zero =>
      cases hs
      exact hfirst
  | succ k =>
      have hplaced := hrest k s hs
      rwa [Nat.add_assoc, Nat.add_comm 1 k] at hplaced

/-- What a table that passes holds: each of the platform's numbers is at its own
place, each of the vendor's as far behind the final start as it is behind the
base. An entry at index 0 leaves the start unset, so that the vendor's numbers
may begin a second time. -/
theorem selfCheckFrom_placed : ∀ {rest : List Int} {i start final : Nat},
    selfCheckFrom base vendorBase i start rest = some final →
      (final = start ∨ start = 0 ∧ ∃ k, i + k = final ∧ rest[k]? = some vendorBase) ∧
      ∀ k r, rest[k]? = some r → Placed base vendorBase final (i + k) r := by
  intro rest
  induction rest with
  | nil =>
      intro i start final hcheck
      exact ⟨.inl (Option.some.inj hcheck).symm, fun k r hr => nomatch hr⟩
  | cons r rest ih =>
      intro i start final hcheck
      have hlater {k : Nat} (hk : i + 1 + k = final) (hr : rest[k]? = some vendorBase) :
          ∃ k, i + k = final ∧ (r :: rest)[k]? = some vendorBase := ⟨k + 1, by omega, hr⟩
      simp only [selfCheckFrom] at hcheck
      split_ifs at hcheck with hplatform hplace hunset hplace hplace
      · obtain ⟨hstart, hplaced⟩ := ih hcheck
        refine ⟨?_, placed_cons ⟨fun _ => hplace.symm, fun hvendor => ?_⟩ hplaced⟩
        · rcases hstart with hsame | ⟨hzero, k, hk, hr⟩
          · exact .inl hsame
          · exact .inr ⟨hzero, hlater hk hr⟩
        · omega
      · obtain ⟨hstart, hplaced⟩ := ih hcheck
        have hfirst : r = vendorBase := by omega
        refine ⟨.inr ⟨hunset, ?_⟩, placed_cons ⟨fun hlt => absurd hlt hplatform, fun _ => ?_⟩ hplaced⟩
        · rcases hstart with hsame | ⟨hzero, k, hk, hr⟩
          · exact ⟨0, hsame.symm, by rw [hfirst]; rfl⟩
          · exact hlater hk hr
        · rcases hstart with hsame | ⟨hzero, -⟩
          · left
            omega
          · exact .inr ⟨hzero, hfirst⟩
      · obtain ⟨hstart, hplaced⟩ := ih hcheck
        have hsame : final = start := hstart.resolve_right fun h => hunset h.1
        refine ⟨.inl hsame, placed_cons ⟨fun hlt => absurd hlt hplatform, fun _ => .inl ?_⟩ hplaced⟩
        rw [hsame]
        exact hplace.symm

/-- The start of the vendor's numbers is behind the platform's. -/
theorem selfCheckFrom_start_le {bound : Int} (hbase : vendorBase - base ≤ bound)
    (hbound : 1 ≤ bound) : ∀ {rest : List Int} {i start final : Nat},
      selfCheckFrom base vendorBase i start rest = some final → (start : Int) ≤ bound →
        (start = 0 → (i : Int) ≤ bound) → (final : Int) ≤ bound := by
  intro rest
  induction rest with
  | nil =>
      intro i start final hcheck hstart _
      rw [← Option.some.inj hcheck]
      exact hstart
  | cons r rest ih =>
      intro i start final hcheck hstart hunset
      simp only [selfCheckFrom] at hcheck
      split_ifs at hcheck with hplatform hplace hzero hplace hplace
      · exact ih hcheck hstart fun _ => by omega
      · exact ih hcheck (hunset hzero) fun hi => by omega
      · exact ih hcheck hstart fun h => absurd h hzero

/-- The place at which the index formula looks for a number. -/
def place (base vendorBase : Int) (start : Nat) (r : Int) : Int :=
  if r < vendorBase then r - base else r - vendorBase + start

private theorem mem_of_entryAt {numbers : List Int} {index r : Int}
    (hentry : entryAt numbers index = some r) : r ∈ numbers := by
  unfold entryAt at hentry
  split_ifs at hentry
  exact List.mem_of_getElem? hentry

/-- In a table that passes, the formula finds the numbers of the table and no
others. -/
theorem entryAt_place_iff {numbers : List Int} {start : Nat}
    (hcheck : selfCheck base vendorBase numbers = some start) (r : Int) :
    entryAt numbers (place base vendorBase start r) = some r ↔ r ∈ numbers := by
  constructor
  · exact mem_of_entryAt
  · intro hmem
    obtain ⟨k, hk⟩ := List.mem_iff_getElem?.mp hmem
    obtain ⟨hstart, hplaced⟩ := selfCheckFrom_placed hcheck
    have hown := hplaced k r hk
    rw [Nat.zero_add] at hown
    have hfound (position : Nat) (hplace : place base vendorBase start r = position)
        (hat : numbers[position]? = some r) :
        entryAt numbers (place base vendorBase start r) = some r := by
      rw [entryAt, hplace, if_pos (Int.natCast_nonneg position), Int.toNat_natCast, hat]
    by_cases hplatform : r < vendorBase
    · refine hfound k ?_ hk
      rw [place, if_pos hplatform, hown.1 hplatform]
      omega
    · rcases hown.2 (not_lt.mp hplatform) with hbehind | ⟨hzero, hfirst⟩
      · refine hfound k ?_ hk
        rw [place, if_neg hplatform, hbehind]
        omega
      · -- the first entry has the vendor's base, and so has the one at the start
        refine hfound start ?_ ?_
        · rw [place, if_neg hplatform, hfirst]
          omega
        · rcases hstart with hunset | ⟨-, j, hj, hat⟩
          · rw [hunset, ← hzero, hk]
          · rw [← hj, Nat.zero_add, hat, hfirst]

theorem entryAt_map {α β : Type} (f : α → β) (table : List α) (index : Int) :
    entryAt (table.map f) index = (entryAt table index).map f := by
  unfold entryAt
  split_ifs
  · exact List.getElem?_map
  · rfl

end Lookup

section Selection

/-- A value of the type `int`. -/
def IsInt (x : Int) : Prop := -2147483648 ≤ x ∧ x < 2147483648

instance (x : Int) : Decidable (IsInt x) := inferInstanceAs (Decidable (_ ∧ _))

/-- `addRequestToList` up to its choice of an entry; it refuses a request only
when there is no memory for it. -/
def selectCommand (alloc : Bool) (start : Nat) (request : Int) : Option Int :=
  if alloc then some (commandIndex start request) else none

/-- The request is refused, or the entry is in the table and is its own. -/
def CommandLaw (commands : List CommandInfo) (start : Nat) (alloc : Bool) (request : Int) : Prop :=
  ∀ index, selectCommand alloc start request = some index →
    ∃ entry, entryAt commands index = some entry ∧ entry.requestNumber = request

/-- The code is rejected, or the entry is in the table and is its own. -/
def UnsolLaw (responses : List UnsolResponseInfo) (start : Nat) (code : Int) : Prop :=
  ∀ index, unsolResponseIndex start code = some index →
    ∃ entry, entryAt responses index = some entry ∧ entry.requestNumber = code

private theorem exists_entry_iff {α : Type} {number : α → Int} {table : List α} {index r : Int} :
    (∃ entry, entryAt table index = some entry ∧ number entry = r) ↔
      entryAt (table.map number) index = some r := by
  rw [entryAt_map, Option.map_eq_some_iff]

theorem commandIndex_eq {commands : List CommandInfo} {start : Nat}
    (hcheck : mtkCommandStart commands = some start) {request : Int} (hint : IsInt request) :
    commandIndex start request = place 0 RIL_REQUEST_VENDOR_BASE start request := by
  have hstart : (start : Int) ≤ 2000 :=
    selfCheckFrom_start_le (by decide) (by decide) hcheck (by decide) (fun _ => by decide)
  obtain ⟨hlo, hhi⟩ := hint
  unfold commandIndex place
  split_ifs with hplatform
  · omega
  · unfold RIL_REQUEST_VENDOR_BASE at hplatform ⊢
    have hbehind : wrapInt 32 (request - 2000) = request - 2000 :=
      wrapInt_32_of_range (by omega) (by omega)
    rw [hbehind, wrapInt_32_of_range (by omega) (by omega)]

/-- The code is rejected, or it is looked up at its place. A code so low that the
subtraction overflows is looked up outside the table. -/
theorem unsolResponseIndex_eq {responses : List UnsolResponseInfo} {start : Nat}
    (hcheck : mtkUnsolStart responses = some start) {code : Int} (hint : IsInt code) :
    unsolResponseIndex start code =
      if (-2147482648 ≤ code ∧ code < 1000) ∨ 3080 < code then none
      else if code < -2147482648 then some (code - 1000 + 4294967296)
      else some (place RIL_UNSOL_RESPONSE_BASE RIL_UNSOL_VENDOR_BASE start code) := by
  have hstart : (start : Int) ≤ 2000 :=
    selfCheckFrom_start_le (by decide) (by decide) hcheck (by decide) (fun _ => by decide)
  obtain ⟨hlo, hhi⟩ := hint
  unfold unsolResponseIndex place RIL_UNSOL_VENDOR_BASE RIL_UNSOL_RESPONSE_BASE
  by_cases hplatform : code < 3000
  · simp only [if_pos hplatform]
    by_cases hoverflow : code < -2147482648
    · rw [wrapInt_32_of_under (by omega) (by omega), if_neg (by omega), if_neg (by omega),
        if_neg (by omega), if_pos hoverflow]
    · rw [wrapInt_32_of_range (by omega) (by omega), if_neg hoverflow]
      by_cases hlow : code < 1000
      · rw [if_pos (by omega), if_pos (by omega)]
      · rw [if_neg (by omega), if_neg (by omega), if_neg (by omega)]
  · have hindex : wrapInt 32 (wrapInt 32 (code - 3000) + start) = code - 3000 + start := by
      rw [wrapInt_32_of_range (x := code - 3000) (by omega) (by omega),
        wrapInt_32_of_range (by omega) (by omega)]
    simp only [if_neg hplatform, hindex]
    rw [if_neg (by omega), if_neg (show ¬code < -2147482648 by omega)]
    by_cases hbeyond : code > 3080
    · rw [if_pos (by omega), if_pos (by omega)]
    · rw [if_neg (by omega), if_neg (by omega)]

/-- A code so low that the subtraction overflows has no entry anywhere. -/
private theorem no_entry_of_under {numbers : List Int} {start : Nat} {code : Int}
    (hcheck : selfCheck RIL_UNSOL_RESPONSE_BASE RIL_UNSOL_VENDOR_BASE numbers = some start)
    (hunder : code < -2147482648) : code ∉ numbers := by
  intro hmem
  obtain ⟨k, hk⟩ := List.mem_iff_getElem?.mp hmem
  have hplaced := (selfCheckFrom_placed hcheck).2 k code hk
  have hown : code = (0 + k : Nat) + RIL_UNSOL_RESPONSE_BASE :=
    hplaced.1 (by unfold RIL_UNSOL_VENDOR_BASE; omega)
  unfold RIL_UNSOL_RESPONSE_BASE at hown
  omega

/-- Exactly the codes that have an entry, and those that are rejected, are
handled as they should be. -/
theorem dispatch_tables_iff {commands : List CommandInfo} {responses : List UnsolResponseInfo}
    {commandStart unsolStart : Nat} (hcommands : mtkCommandStart commands = some commandStart)
    (hresponses : mtkUnsolStart responses = some unsolStart) (code : Int) (hint : IsInt code) :
    (∀ alloc, CommandLaw commands commandStart alloc code ↔
      alloc = false ∨ code ∈ commands.map CommandInfo.requestNumber) ∧
    (UnsolLaw responses unsolStart code ↔
      code ∈ responses.map UnsolResponseInfo.requestNumber ∨
        (-2147482648 ≤ code ∧ code < 1000) ∨ 3080 < code) := by
  constructor
  · intro alloc
    cases alloc with
    | false => exact iff_of_true nofun (.inl rfl)
    | true =>
        simp only [CommandLaw, selectCommand, if_true, Option.some.injEq, forall_eq',
          Bool.true_eq_false, false_or]
        rw [exists_entry_iff, commandIndex_eq hcommands hint]
        exact entryAt_place_iff hcommands code
  · unfold UnsolLaw
    rw [unsolResponseIndex_eq hresponses hint]
    by_cases hrejected : (-2147482648 ≤ code ∧ code < 1000) ∨ 3080 < code
    · rw [if_pos hrejected]
      exact iff_of_true nofun (.inr hrejected)
    · rw [if_neg hrejected, or_iff_left hrejected]
      split_ifs with hoverflow
      · have hnone := no_entry_of_under hresponses hoverflow
        refine iff_of_false (fun hlaw => hnone ?_) hnone
        exact mem_of_entryAt (exists_entry_iff.mp (hlaw _ rfl))
      · simp only [Option.some.injEq, forall_eq']
        rw [exists_entry_iff]
        exact entryAt_place_iff hresponses code

/-- A request of the table and a code past the vendor's range. -/
theorem dispatch_tables_of_file :
    mtkCommandStart rilCommands = some 0 ∧ mtkUnsolStart rilUnsolCommands = some 0 ∧
      CommandLaw rilCommands 0 true 10 ∧ UnsolLaw rilUnsolCommands 0 3081 := by
  have hcommands : mtkCommandStart rilCommands = some 0 := by decide +kernel
  have hresponses : mtkUnsolStart rilUnsolCommands = some 0 := by decide +kernel
  refine ⟨hcommands, hresponses, ?_, ?_⟩
  · refine ((dispatch_tables_iff hcommands hresponses 10 (by decide)).1 true).mpr (.inr ?_)
    decide +kernel
  · exact (dispatch_tables_iff hcommands hresponses 3081 (by decide)).2.mpr (.inr (.inr (by decide)))

/-- No entry of the file is the vendor's, so the start stays unset. The request
to power the modem off, number 2010, is then given the entry of `DIAL`. -/
theorem modem_poweroff_dials :
    mtkCommandStart rilCommands = some 0 ∧
      (entryAt rilCommands (commandIndex 0 2010)).map CommandInfo.requestNumber = some 10 ∧
        ¬CommandLaw rilCommands 0 true 2010 := by
  refine ⟨by decide +kernel, by decide +kernel, fun hlaw => ?_⟩
  obtain ⟨entry, hentry, hnumber⟩ := hlaw (commandIndex 0 2010) rfl
  have hdial : (entryAt rilCommands (commandIndex 0 2010)).map CommandInfo.requestNumber =
      some 10 := by decide +kernel
  rw [hentry, Option.map_some, hnumber] at hdial
  exact absurd hdial (by decide)

end Selection

end MeizuM5c.Ril
