import MeizuM5c.Ril.RequestArguments

/-!
The account of each dispatch of `RequestArguments`: which blocks it owns at each point,
and when none is left at the end.
-/

namespace MeizuM5c.Ril.Arguments

open Lib

section Law

variable (e : Env)

/-- When the dispatch returns, every pointer that it freed was the start of a block that
was live, and no block is left. -/
def OwnershipLaw (d : Dispatch) : Prop := ∀ m, dispatch e d = some m → m.Clean

/-- The first calls of the allocator give a block. -/
def AllGiven (n : Nat) : Prop := ∀ call, call < n → e.gives call = true

/-- The strings that are copied. -/
def copies (allowEmpty : Bool) (srcs : List HidlString) : Nat :=
  srcs.countP (fun src => decide (src.length ≠ 0) || allowEmpty)

/-- The buffer is left to `clearPendingBuffer`. -/
def Queued : Prop := ∃ proxyId, e.pRI = some proxyId ∧ ignoreBF proxyId = false

/-- The strings get as far as `my_enqueue` with `FMT_STRS`. -/
def LeavesStrings (allowEmpty : Bool) (countStrings : Int) (strs : List HidlString) : Prop :=
  Queued e ∧ 0 ≤ countStrings ∧ AllGiven e (1 + copies allowEmpty (strs.take countStrings.toNat))

/-- The profiles get as far as `my_enqueue` with `FMT_DATAPROF`. -/
def LeavesProfiles (profiles : List DataProfileInfo) (isRoaming : Bool) : Prop :=
  e.pRI ≠ none ∧ e.version ≤ 14 ∧
    AllGiven e (2 + (profiles.map (fun p => copies false (p.strings isRoaming))).sum)

/-- The dispatches after which everything has been freed. -/
def Freed : Dispatch → Prop
  | .strings data => ¬ LeavesStrings e false (wrapInt 32 data.length) data
  | .stringsV allowEmpty strs => ¬ LeavesStrings e allowEmpty strs.length strs
  | .ints _ => ¬ (Queued e ∧ AllGiven e 1)
  | .setDataProfile profiles isRoaming => ¬ LeavesProfiles e profiles isRoaming
  | _ => True

end Law

section Given

variable {e : Env}

variable (e) in
/-- So many calls of the allocator give a block, from that one on. -/
def GivenFrom (first n : Nat) : Prop :=
  ∀ call, first ≤ call → call < first + n → e.gives call = true

theorem allGiven_iff {n : Nat} : AllGiven e n ↔ GivenFrom e 0 n := by
  constructor
  · intro hall call _ hhi
    exact hall call (by omega)
  · intro hall call hhi
    exact hall call (Nat.zero_le call) (by omega)

theorem givenFrom_zero (first : Nat) : GivenFrom e first 0 := by
  intro call hlo hhi
  omega

theorem givenFrom_one {first : Nat} : GivenFrom e first 1 ↔ e.gives first = true := by
  constructor
  · intro hall
    exact hall first le_rfl (by omega)
  · intro hgives call hlo hhi
    have hcall : call = first := by omega
    rw [hcall]
    exact hgives

theorem givenFrom_add {first n k : Nat} :
    GivenFrom e first (n + k) ↔ GivenFrom e first n ∧ GivenFrom e (first + n) k := by
  constructor
  · intro hall
    constructor
    · intro call hlo hhi
      exact hall call hlo (by omega)
    · intro call hlo hhi
      exact hall call (by omega) (by omega)
  · rintro ⟨hfirst, hrest⟩ call hlo hhi
    by_cases hcall : call < first + n
    · exact hfirst call hlo hcall
    · exact hrest call (by omega) (by omega)

end Given

section Copies

variable {e : Env} {m : Ledger} {owned : List Nat}

theorem copy_holds (h : m.Holds owned) (allowEmpty : Bool) (src : HidlString) :
    Starts [(copyHidlStringToRil e allowEmpty src m).1.1] ∧
      (copyHidlStringToRil e allowEmpty src m).2.Holds
        (blocks [(copyHidlStringToRil e allowEmpty src m).1.1] ++ owned) := by
  unfold copyHidlStringToRil
  split_ifs
  · exact ⟨starts_null, h⟩
  · have hcalloc := h.calloc e.gives (src.length + 1)
    generalize m.calloc e.gives (src.length + 1) = answer at hcalloc ⊢
    obtain ⟨dest, m'⟩ := answer
    cases dest with
    | none => exact hcalloc
    | some dest => exact hcalloc

/-- A string that fails is null. -/
theorem copy_failed (allowEmpty : Bool) (src : HidlString) (m : Ledger)
    (hfail : (copyHidlStringToRil e allowEmpty src m).1.2 = false) :
    (copyHidlStringToRil e allowEmpty src m).1.1 = none := by
  unfold copyHidlStringToRil at hfail ⊢
  split_ifs at hfail ⊢
  generalize m.calloc e.gives (src.length + 1) = answer at hfail ⊢
  obtain ⟨dest, m'⟩ := answer
  cases dest with
  | none => rfl
  | some dest => cases hfail

/-- Whether a string needs a block, and which call of the allocator it is then. -/
theorem copy_ok_iff (allowEmpty : Bool) (src : HidlString) :
    ((copyHidlStringToRil e allowEmpty src m).1.2 = true ↔
      GivenFrom e m.calls (copies allowEmpty [src])) ∧
    ((copyHidlStringToRil e allowEmpty src m).1.2 = true →
      (copyHidlStringToRil e allowEmpty src m).2.calls =
        m.calls + copies allowEmpty [src]) := by
  unfold copyHidlStringToRil copies
  by_cases hempty : src.length = 0 ∧ allowEmpty = false
  · have hzero : [src].countP (fun src => decide (src.length ≠ 0) || allowEmpty) = 0 := by
      simp [List.length_eq_zero_iff.mp hempty.1, hempty.2]
    rw [if_pos hempty, hzero]
    exact ⟨iff_of_true rfl (givenFrom_zero m.calls), fun _ => rfl⟩
  · have hone : [src].countP (fun src => decide (src.length ≠ 0) || allowEmpty) = 1 := by
      rw [not_and_or] at hempty
      rcases hempty with hlength | hallow
      · have hne : src ≠ [] := fun hnil => hlength (by rw [hnil]; rfl)
        simp [hne]
      · simp [hallow]
    rw [if_neg hempty, hone, givenFrom_one]
    cases hgives : e.gives m.calls with
    | true =>
        rw [Ledger.calloc_given _ hgives]
        exact ⟨iff_of_true rfl rfl, fun _ => rfl⟩
    | false =>
        rw [Ledger.calloc_refused _ hgives]
        exact ⟨Iff.rfl, fun h => absurd h Bool.false_ne_true⟩

theorem blocks_nulls {α : Type} (l : List α) :
    blocks (l.map (fun _ => (none : Option Pointer))) = [] := by
  induction l with
  | nil => rfl
  | cons a l ih => exact ih

theorem starts_nulls {α : Type} (l : List α) :
    Starts (l.map (fun _ => (none : Option Pointer))) := by
  intro p hp
  obtain ⟨a, -, ha⟩ := List.mem_map.mp hp
  cases ha

theorem copyStrings_cons_ok {allowEmpty : Bool} {src : HidlString} {srcs : List HidlString}
    (hok : (copyHidlStringToRil e allowEmpty src m).1.2 = true) :
    copyStrings e allowEmpty (src :: srcs) m =
      (((copyHidlStringToRil e allowEmpty src m).1.1 ::
          (copyStrings e allowEmpty srcs (copyHidlStringToRil e allowEmpty src m).2).1.1,
        (copyStrings e allowEmpty srcs (copyHidlStringToRil e allowEmpty src m).2).1.2),
        (copyStrings e allowEmpty srcs (copyHidlStringToRil e allowEmpty src m).2).2) := by
  rw [copyStrings]
  rcases hcopy : copyHidlStringToRil e allowEmpty src m with ⟨⟨dest, ok⟩, m'⟩
  rw [hcopy] at hok
  cases hok
  rfl

theorem copyStrings_cons_failed {allowEmpty : Bool} {src : HidlString} {srcs : List HidlString}
    (hfail : (copyHidlStringToRil e allowEmpty src m).1.2 = false) :
    copyStrings e allowEmpty (src :: srcs) m =
      (((copyHidlStringToRil e allowEmpty src m).1.1 :: srcs.map (fun _ => none), false),
        (copyHidlStringToRil e allowEmpty src m).2) := by
  rw [copyStrings]
  rcases hcopy : copyHidlStringToRil e allowEmpty src m with ⟨⟨dest, ok⟩, m'⟩
  rw [hcopy] at hfail
  cases hfail
  rfl

/-- Whether or not one of them fails, what was copied is owned. -/
theorem copyStrings_holds (h : m.Holds owned) (allowEmpty : Bool) (srcs : List HidlString) :
    Starts (copyStrings e allowEmpty srcs m).1.1 ∧
      (copyStrings e allowEmpty srcs m).2.Holds
        (blocks (copyStrings e allowEmpty srcs m).1.1 ++ owned) := by
  induction srcs generalizing m owned with
  | nil => exact ⟨starts_nil, h⟩
  | cons src srcs ih =>
      obtain ⟨hstart, hcopy⟩ := copy_holds (e := e) h allowEmpty src
      cases hok : (copyHidlStringToRil e allowEmpty src m).1.2 with
      | true =>
          rw [copyStrings_cons_ok hok]
          obtain ⟨hstarts, hrest⟩ := ih hcopy
          constructor
          · exact starts_append.mpr ⟨hstart, hstarts⟩
          · apply hrest.perm
            rw [← List.append_assoc]
            exact List.perm_append_comm.append_right owned |>.trans
              (by rw [← blocks_append]; rfl)
      | false =>
          rw [copyStrings_cons_failed hok]
          constructor
          · exact starts_append.mpr ⟨hstart, starts_nulls srcs⟩
          · have hsplit := blocks_append [(copyHidlStringToRil e allowEmpty src m).1.1]
              (srcs.map (fun _ => none))
            rw [blocks_nulls, List.append_nil] at hsplit
            rw [← hsplit] at hcopy
            exact hcopy

theorem copyStrings_length (allowEmpty : Bool) (srcs : List HidlString) (m : Ledger) :
    (copyStrings e allowEmpty srcs m).1.1.length = srcs.length := by
  induction srcs generalizing m with
  | nil => rfl
  | cons src srcs ih =>
      cases hok : (copyHidlStringToRil e allowEmpty src m).1.2 with
      | true =>
          rw [copyStrings_cons_ok hok, List.length_cons, ih, List.length_cons]
      | false =>
          rw [copyStrings_cons_failed hok, List.length_cons, List.length_map, List.length_cons]

/-- All strings are copied when each call of the allocator that they need gives a block. -/
theorem copyStrings_ok_iff (allowEmpty : Bool) (srcs : List HidlString) (m : Ledger) :
    ((copyStrings e allowEmpty srcs m).1.2 = true ↔
      GivenFrom e m.calls (copies allowEmpty srcs)) ∧
    ((copyStrings e allowEmpty srcs m).1.2 = true →
      (copyStrings e allowEmpty srcs m).2.calls = m.calls + copies allowEmpty srcs) := by
  induction srcs generalizing m with
  | nil => exact ⟨iff_of_true rfl (givenFrom_zero m.calls), fun _ => rfl⟩
  | cons src srcs ih =>
      obtain ⟨hfirst, hcalls⟩ := copy_ok_iff (e := e) (m := m) allowEmpty src
      have hsplit : copies allowEmpty (src :: srcs) =
          copies allowEmpty [src] + copies allowEmpty srcs := by
        have happend : src :: srcs = [src] ++ srcs := rfl
        rw [happend, copies, List.countP_append]
        rfl
      rw [hsplit, givenFrom_add]
      cases hok : (copyHidlStringToRil e allowEmpty src m).1.2 with
      | true =>
          obtain ⟨hrest, hrestcalls⟩ := ih (copyHidlStringToRil e allowEmpty src m).2
          rw [copyStrings_cons_ok hok]
          rw [hcalls hok] at hrest hrestcalls
          simp only
          constructor
          · rw [hrest]
            exact (and_iff_right (hfirst.mp hok)).symm
          · intro hrestok
            rw [hrestcalls hrestok, Nat.add_assoc]
      | false =>
          rw [copyStrings_cons_failed hok]
          refine ⟨iff_of_false Bool.false_ne_true ?_, fun h => absurd h Bool.false_ne_true⟩
          rintro ⟨hgiven, -⟩
          rw [hfirst.mpr hgiven] at hok
          cases hok

end Copies

section Functions

variable {e : Env}

@[simp] theorem myEnqueue_true (buf : Buffer) (m : Ledger) : myEnqueue true buf m = m := rfl

@[simp] theorem myEnqueue_false (buf : Buffer) (m : Ledger) :
    myEnqueue false buf m = clearPendingBuffer buf m := rfl

/-- One string, which is freed by one side or the other. -/
theorem one_string_clean (src : HidlString) (send : Option Pointer → Ledger → Ledger)
    (hsend : ∀ p m, send p m = m.free p) :
    (match copyHidlStringToRil e false src {} with
      | ((_, false), m) => m
      | ((p, true), m) => send p m).Clean := by
  obtain ⟨hstart, hholds⟩ := copy_holds (e := e) Ledger.holds_start false src
  have hfail := copy_failed (e := e) false src {}
  generalize copyHidlStringToRil e false src {} = answer at hstart hholds hfail ⊢
  obtain ⟨⟨p, ok⟩, m⟩ := answer
  cases ok with
  | false =>
      have hnull : p = none := hfail rfl
      rw [hnull] at hholds
      exact hholds.clean_iff.mpr rfl
  | true =>
      simp only [hsend]
      exact (hholds.free hstart).clean_iff.mpr rfl

theorem dispatchString_clean (str : HidlString) : (dispatchString e str {}).Clean := by
  unfold dispatchString
  cases e.pRI with
  | none => exact Ledger.holds_start.clean_iff.mpr rfl
  | some proxyId =>
      apply one_string_clean
      intro p m
      split_ifs
      · rfl
      · rfl

theorem dispatchCallForwardStatus_clean (number : HidlString) :
    (dispatchCallForwardStatus e number {}).Clean := by
  unfold dispatchCallForwardStatus
  cases e.pRI with
  | none => exact Ledger.holds_start.clean_iff.mpr rfl
  | some proxyId =>
      apply one_string_clean
      intro p m
      split_ifs
      · rfl
      · rfl

theorem dispatchIccApdu_clean (data : HidlString) : (dispatchIccApdu e data {}).Clean := by
  unfold dispatchIccApdu
  cases e.pRI with
  | none => exact Ledger.holds_start.clean_iff.mpr rfl
  | some proxyId =>
      apply one_string_clean
      intro p m
      rfl

theorem queued_iff {proxyId : Proxy} (hpRI : e.pRI = some proxyId) :
    Queued e ↔ ignoreBF proxyId = false := by
  unfold Queued
  rw [hpRI]
  constructor
  · rintro ⟨other, hother, hqueued⟩
    cases hother
    exact hqueued
  · intro hqueued
    exact ⟨proxyId, rfl, hqueued⟩

theorem not_queued (hpRI : e.pRI = none) : ¬ Queued e := by
  rintro ⟨proxyId, hproxy, -⟩
  rw [hpRI] at hproxy
  cases hproxy

/-- The last block is freed unless it is left to `clearPendingBuffer`. -/
theorem clean_unless_left {m : Ledger} {b : Nat} (h : m.Holds [b]) (ignore : Bool) :
    (if ignore = true then m.free (some ⟨b, 0⟩) else m).Clean ↔ ¬ ignore = false := by
  cases ignore with
  | true =>
      rw [if_pos rfl]
      exact iff_of_true ((h.free (starts_start b)).clean_iff.mpr rfl) Bool.noConfusion
  | false =>
      rw [if_neg Bool.false_ne_true, h.clean_iff]
      exact iff_of_false (List.cons_ne_nil _ _) (not_not.mpr rfl)

/-- The array stays when `FMT_INTS` is cleared. -/
theorem dispatchInts_clean_iff (ints : List Int) :
    (dispatchInts e ints {}).Clean ↔ ¬ (Queued e ∧ AllGiven e 1) := by
  unfold dispatchInts
  cases hpRI : e.pRI with
  | none =>
      exact iff_of_true (Ledger.holds_start.clean_iff.mpr rfl)
        (fun hleft => not_queued hpRI hleft.1)
  | some proxyId =>
      rw [queued_iff hpRI]
      rw [allGiven_iff, givenFrom_one]
      have hcalloc := Ledger.holds_start.calloc e.gives (ints.length * sizeofInt)
      simp only
      cases hgives : e.gives 0 with
      | false =>
          rw [Ledger.calloc_refused _ hgives] at hcalloc ⊢
          exact iff_of_true (hcalloc.2.clean_iff.mpr rfl) (fun h => absurd h.2 Bool.false_ne_true)
      | true =>
          rw [Ledger.calloc_given _ hgives] at hcalloc ⊢
          simp only [myEnqueue_true, myEnqueue_false, clearPendingBuffer, and_true]
          exact clean_unless_left hcalloc.2 (ignoreBF proxyId)

/-- The array of pointers stays when `FMT_STRS` is cleared. -/
theorem dispatchStringsV_clean_iff (allowEmpty : Bool) (countStrings : Int)
    (strs : List HidlString) :
    (dispatchStringsV e allowEmpty countStrings strs {}).Clean ↔
      ¬ LeavesStrings e allowEmpty countStrings strs := by
  unfold dispatchStringsV LeavesStrings
  cases hpRI : e.pRI with
  | none =>
      exact iff_of_true (Ledger.holds_start.clean_iff.mpr rfl)
        (fun hleft => not_queued hpRI hleft.1)
  | some proxyId =>
      rw [queued_iff hpRI]
      simp only [callocPointers]
      have hcalloc := Ledger.holds_start.calloc
        (fun call => e.gives call && decide (0 ≤ countStrings))
        (countStrings.toNat * sizeofPointer)
      cases hgives : e.gives 0 && decide (0 ≤ countStrings) with
      | false =>
          rw [Ledger.calloc_refused _ hgives] at hcalloc ⊢
          apply iff_of_true (hcalloc.2.clean_iff.mpr rfl)
          rintro ⟨-, hcount, hall⟩
          rw [hall 0 (by omega), decide_eq_true hcount] at hgives
          cases hgives
      | true =>
          rw [Ledger.calloc_given _ hgives] at hcalloc ⊢
          have hstart : Starts [some ⟨0, 0⟩] := hcalloc.1
          have harray : Ledger.Holds ⟨1, [.alloc 0 (countStrings.toNat * sizeofPointer)]⟩ [0] :=
            hcalloc.2
          rw [Bool.and_eq_true, decide_eq_true_eq] at hgives
          obtain ⟨hstarts, hholds⟩ :=
            copyStrings_holds (e := e) harray allowEmpty (strs.take countStrings.toNat)
          have hok := (copyStrings_ok_iff (e := e) allowEmpty (strs.take countStrings.toNat)
            ⟨1, [.alloc 0 (countStrings.toNat * sizeofPointer)]⟩).1
          have hall : AllGiven e (1 + copies allowEmpty (strs.take countStrings.toNat)) ↔
              GivenFrom e 1 (copies allowEmpty (strs.take countStrings.toNat)) := by
            rw [allGiven_iff, givenFrom_add, givenFrom_one]
            exact and_iff_right hgives.1
          rw [hall, ← hok]
          simp only [List.nil_append]
          generalize copyStrings e allowEmpty (strs.take countStrings.toNat)
            ⟨1, [.alloc 0 (countStrings.toNat * sizeofPointer)]⟩ = answer at hstarts hholds hok ⊢
          obtain ⟨⟨strings, ok⟩, m⟩ := answer
          have hfreed : (m.freeAll strings).Holds [0] := hholds.freeAll hstarts
          cases ok with
          | false =>
              apply iff_of_true ((hfreed.free hstart).clean_iff.mpr rfl)
              rintro ⟨-, -, hfalse⟩
              cases hfalse
          | true =>
              simp only [myEnqueue_true, myEnqueue_false, clearPendingBuffer, and_true, hgives.2]
              exact clean_unless_left hfreed (ignoreBF proxyId)

end Functions

section Profiles

variable {e : Env} {m : Ledger} {owned : List Nat}

theorem copyProfiles_cons_ok {srcs : List HidlString} {rest : List (List HidlString × Bool)}
    (hok : (copyStrings e false srcs m).1.2 = true) :
    copyProfiles e ((srcs, true) :: rest) m =
      (((copyStrings e false srcs m).1.1 ::
          (copyProfiles e rest (copyStrings e false srcs m).2).1.1,
        (copyProfiles e rest (copyStrings e false srcs m).2).1.2),
        (copyProfiles e rest (copyStrings e false srcs m).2).2) := by
  rw [copyProfiles]
  rcases hcopy : copyStrings e false srcs m with ⟨⟨fields, ok⟩, m'⟩
  rw [hcopy] at hok
  cases hok
  rfl

theorem copyProfiles_cons_failed {srcs : List HidlString} {valid : Bool}
    {rest : List (List HidlString × Bool)}
    (hfail : ((copyStrings e false srcs m).1.2 && valid) = false) :
    copyProfiles e ((srcs, valid) :: rest) m =
      (((copyStrings e false srcs m).1.1 :: rest.map (fun p => p.1.map (fun _ => none)), false),
        (copyStrings e false srcs m).2) := by
  rw [copyProfiles]
  rcases hcopy : copyStrings e false srcs m with ⟨⟨fields, ok⟩, m'⟩
  rw [hcopy] at hfail
  simp only [hfail]
  rfl

theorem nulls_flatten (rest : List (List HidlString × Bool)) :
    (rest.map (fun p => p.1.map (fun _ => (none : Option Pointer)))).flatten =
      (rest.flatMap Prod.fst).map (fun _ => none) := by
  rw [List.map_flatMap, List.flatMap_def]

/-- Whether or not a profile fails, the strings that were copied are owned. -/
theorem copyProfiles_holds (h : m.Holds owned) (sources : List (List HidlString × Bool)) :
    Starts (copyProfiles e sources m).1.1.flatten ∧
      (copyProfiles e sources m).2.Holds
        (blocks (copyProfiles e sources m).1.1.flatten ++ owned) := by
  induction sources generalizing m owned with
  | nil => exact ⟨starts_nil, h⟩
  | cons source rest ih =>
      obtain ⟨srcs, valid⟩ := source
      obtain ⟨hstart, hcopy⟩ := copyStrings_holds (e := e) h false srcs
      cases hok : (copyStrings e false srcs m).1.2 && valid with
      | true =>
          rw [Bool.and_eq_true] at hok
          rw [hok.2, copyProfiles_cons_ok hok.1]
          obtain ⟨hstarts, hrest⟩ := ih hcopy
          simp only [List.flatten_cons]
          refine ⟨starts_append.mpr ⟨hstart, hstarts⟩, hrest.perm ?_⟩
          rw [blocks_append, ← List.append_assoc]
          exact List.perm_append_comm.append_right owned
      | false =>
          rw [copyProfiles_cons_failed hok]
          simp only [List.flatten_cons]
          rw [nulls_flatten, blocks_append, blocks_nulls, List.append_nil]
          exact ⟨starts_append.mpr ⟨hstart, starts_nulls _⟩, hcopy⟩

theorem copyProfiles_length (sources : List (List HidlString × Bool)) (numfields : Nat)
    (hsources : ∀ source ∈ sources, source.1.length = numfields) (m : Ledger) :
    ∀ fields ∈ (copyProfiles e sources m).1.1, fields.length = numfields := by
  induction sources generalizing m with
  | nil =>
      intro fields hfields
      cases hfields
  | cons source rest ih =>
      obtain ⟨srcs, valid⟩ := source
      have hsrcs : srcs.length = numfields := hsources _ List.mem_cons_self
      have hrest : ∀ source ∈ rest, source.1.length = numfields :=
        fun source hsource => hsources source (List.mem_cons_of_mem _ hsource)
      intro fields hfields
      cases hok : (copyStrings e false srcs m).1.2 && valid with
      | true =>
          rw [Bool.and_eq_true] at hok
          rw [hok.2, copyProfiles_cons_ok hok.1] at hfields
          rcases List.mem_cons.mp hfields with rfl | hfields
          · rw [copyStrings_length, hsrcs]
          · exact ih hrest _ fields hfields
      | false =>
          rw [copyProfiles_cons_failed hok] at hfields
          rcases List.mem_cons.mp hfields with rfl | hfields
          · rw [copyStrings_length, hsrcs]
          · obtain ⟨source, hsource, rfl⟩ := List.mem_map.mp hfields
            rw [List.length_map, hrest source hsource]

/-- All profiles are copied when each call of the allocator gives a block. -/
theorem copyProfiles_ok_iff (sources : List (List HidlString)) (m : Ledger) :
    (copyProfiles e (sources.map (fun srcs => (srcs, true))) m).1.2 = true ↔
      GivenFrom e m.calls (sources.map (copies false)).sum := by
  induction sources generalizing m with
  | nil => exact iff_of_true rfl (givenFrom_zero m.calls)
  | cons srcs rest ih =>
      obtain ⟨hfirst, hcalls⟩ := copyStrings_ok_iff (e := e) false srcs m
      rw [List.map_cons, List.map_cons, List.sum_cons, givenFrom_add]
      cases hok : (copyStrings e false srcs m).1.2 with
      | true =>
          rw [copyProfiles_cons_ok hok, ih, hcalls hok]
          exact (and_iff_right (hfirst.mp hok)).symm
      | false =>
          rw [copyProfiles_cons_failed (by rw [hok]; rfl)]
          refine iff_of_false Bool.false_ne_true ?_
          rintro ⟨hgiven, -⟩
          rw [hfirst.mpr hgiven] at hok
          cases hok

/-- Field by field, the strings are those of the profiles. -/
theorem fields_perm (profiles : List (List (Option Pointer))) (numfields : Nat)
    (hlength : ∀ fields ∈ profiles, fields.length = numfields) :
    ((List.range numfields).flatMap (fun i =>
      profiles.map (fun fields => fields[i]?.join))).Perm profiles.flatten := by
  induction profiles with
  | nil => simp
  | cons fields rest ih =>
      have hfields : fields.length = numfields := hlength fields List.mem_cons_self
      have hsame : (List.range numfields).map (fun i => fields[i]?.join) = fields := by
        apply List.ext_getElem
        · simp [hfields]
        · intro i hi hi'
          simp [hi']
      have hrest := ih (fun fields hmem => hlength fields (List.mem_cons_of_mem _ hmem))
      rw [List.flatten_cons]
      simp only [List.map_cons]
      apply (List.map_append_flatMap_perm _ _ _).symm.trans
      rw [hsame]
      exact hrest.append_left fields

/-- `freeSetDataProfileData` frees all that was made for the profiles. -/
theorem free_profiles_clean {profiles : List (List (Option Pointer))} {numfields : Nat}
    (hlength : ∀ fields ∈ profiles, fields.length = numfields) (hstarts : Starts profiles.flatten)
    (hholds : m.Holds (blocks profiles.flatten ++ [1, 0])) :
    (freeSetDataProfileData numfields profiles ⟨0, 0⟩ ⟨1, 0⟩ m).Clean := by
  have hperm := fields_perm profiles numfields hlength
  unfold freeSetDataProfileData
  generalize (List.range numfields).flatMap (fun i =>
    profiles.map (fun fields => fields[i]?.join)) = strings at hperm ⊢
  have hall : (m.freeAll strings).Holds [1, 0] :=
    (hholds.perm ((blocks_perm hperm.symm).append_right [1, 0])).freeAll
      (hstarts.perm hperm.symm)
  have hfirst : ((m.freeAll strings).free (some ⟨0, 0⟩)).Holds [1] :=
    (hall.perm (List.Perm.swap 0 1 [])).free (starts_start 0)
  have hboth : (((m.freeAll strings).free (some ⟨0, 0⟩)).free (some ⟨1, 0⟩)).Holds [] :=
    hfirst.free (starts_start 1)
  exact hboth.clean_iff.mpr rfl

/-- The state in front of the loop over the profiles. -/
def profilesStart (size : Nat) (n : Nat) : Ledger :=
  ⟨2, [.alloc 0 (n * size), .alloc 1 (n * sizeofPointer)]⟩

theorem profilesStart_holds (size n : Nat) : (profilesStart size n).Holds [1, 0] := by
  refine ⟨[1, 0], rfl, .refl _, ?_⟩
  intro b hb
  simp only [List.mem_cons, List.not_mem_nil, or_false] at hb
  simp only [profilesStart]
  omega

/-- Where something fails everything is freed, so that it depends on what is done with
the profiles. -/
theorem setProfiles_clean_iff (size numfields : Nat) (sources : List (List HidlString × Bool))
    (hsources : ∀ source ∈ sources, source.1.length = numfields)
    (send : Pointer → Pointer → List (List (Option Pointer)) → Ledger → Ledger) :
    (setProfiles e size numfields sources send {}).Clean ↔
      (AllGiven e 2 → (copyProfiles e sources (profilesStart size sources.length)).1.2 = true →
        (send ⟨0, 0⟩ ⟨1, 0⟩ (copyProfiles e sources (profilesStart size sources.length)).1.1
          (copyProfiles e sources (profilesStart size sources.length)).2).Clean) := by
  have htwo : AllGiven e (1 + 1) ↔ e.gives 0 = true ∧ e.gives (0 + 1) = true := by
    rw [allGiven_iff, givenFrom_add, givenFrom_one, givenFrom_one]
  rw [htwo]
  unfold setProfiles
  cases hzero : e.gives 0 with
  | false =>
      rw [Ledger.calloc_refused _ hzero]
      apply iff_of_true
      · exact rfl
      · rintro ⟨hfalse, -⟩
        cases hfalse
  | true =>
      rw [Ledger.calloc_given _ hzero]
      simp only
      cases hone : e.gives 1 with
      | false =>
          rw [Ledger.calloc_refused _ hone]
          apply iff_of_true
          · exact rfl
          · rintro ⟨-, hfalse⟩
            cases hfalse
      | true =>
          rw [Ledger.calloc_given _ hone]
          have hlength := copyProfiles_length (e := e) sources numfields hsources
            (profilesStart size sources.length)
          obtain ⟨hstarts, hholds⟩ := copyProfiles_holds (e := e)
            (profilesStart_holds size sources.length) sources
          have hstart : (⟨2, [.alloc 0 (sources.length * size)] ++
              [.alloc 1 (sources.length * sizeofPointer)]⟩ : Ledger) =
            profilesStart size sources.length := rfl
          simp only [List.nil_append]
          rw [hstart]
          generalize copyProfiles e sources (profilesStart size sources.length) =
            answer at hlength hstarts hholds ⊢
          obtain ⟨⟨profiles, ok⟩, m⟩ := answer
          cases ok with
          | false =>
              apply iff_of_true (free_profiles_clean hlength hstarts hholds)
              intro _ hfalse
              cases hfalse
          | true => simp

theorem clear_broken (profiles : List (Pointer × List (Option Pointer))) (h : m.Broken) :
    (clearPendingBuffer (.dataProf profiles) m).Broken := by
  unfold clearPendingBuffer
  induction profiles generalizing m with
  | nil => exact h
  | cons dp rest ih => exact ih ((h.freeAll dp.2).free (some dp.1))

theorem clear_second_broken {first second : Pointer × List (Option Pointer)}
    (rest : List (Pointer × List (Option Pointer))) (h : second.1.offset ≠ 0) :
    (clearPendingBuffer (.dataProf (first :: second :: rest)) m).Broken :=
  clear_broken rest (Ledger.broken_free_interior _ h)

/-- `FMT_DATAPROF` never clears all: the array of pointers stays, and with two profiles or
more a pointer into the block of the profiles is freed. -/
theorem clear_profiles_not_clean {profiles : List (List (Option Pointer))}
    (hstarts : Starts profiles.flatten)
    (hholds : m.Holds (blocks profiles.flatten ++ [1, 0])) :
    ¬ (clearPendingBuffer (.dataProf (profileEntries e ⟨0, 0⟩ profiles)) m).Clean := by
  cases profiles with
  | nil =>
      rw [show clearPendingBuffer (.dataProf (profileEntries e ⟨0, 0⟩ [])) m = m from rfl,
        hholds.clean_iff]
      exact List.cons_ne_nil _ _
  | cons fields rest =>
      cases rest with
      | nil =>
          rw [List.flatten_singleton] at hstarts hholds
          have hall : (m.freeAll fields).Holds [1, 0] := hholds.freeAll hstarts
          have hfirst : ((m.freeAll fields).free (some ⟨0, 0⟩)).Holds [1] :=
            (hall.perm (List.Perm.swap 0 1 [])).free (starts_start 0)
          have hrun : clearPendingBuffer (.dataProf (profileEntries e ⟨0, 0⟩ [fields])) m =
              (m.freeAll fields).free (some ⟨0, 0⟩) := rfl
          rw [hrun, hfirst.clean_iff]
          exact List.cons_ne_nil _ _
      | cons others rest =>
          apply Ledger.Broken.not_clean
          have hoffset : 0 + 1 * sizeofDataProfileInfo ≠ 0 := by decide
          exact clear_second_broken _ hoffset

/-- From version 15 on everything is freed; up to version 14 nothing is left only where the
profiles do not get as far as `my_enqueue`. -/
theorem setDataProfile_clean_iff (profiles : List DataProfileInfo) (isRoaming : Bool) :
    (setDataProfile e profiles isRoaming {}).Clean ↔ ¬ LeavesProfiles e profiles isRoaming := by
  unfold setDataProfile LeavesProfiles
  cases hpRI : e.pRI with
  | none => exact iff_of_true rfl (fun h => h.1 rfl)
  | some proxyId =>
      simp only
      split_ifs with hversion
      · have hsources : ∀ source ∈ profiles.map (fun p => (p.strings isRoaming, true)),
            source.1.length = 4 := by
          intro source hsource
          obtain ⟨p, -, rfl⟩ := List.mem_map.mp hsource
          rfl
        rw [setProfiles_clean_iff _ _ _ hsources]
        have hstart := profilesStart_holds sizeofDataProfileInfo
          (profiles.map (fun p => (p.strings isRoaming, true))).length
        obtain ⟨hstarts, hholds⟩ := copyProfiles_holds (e := e) hstart
          (profiles.map (fun p => (p.strings isRoaming, true)))
        have hnever := clear_profiles_not_clean (e := e) hstarts hholds
        have hok := copyProfiles_ok_iff (e := e) (profiles.map (fun p => p.strings isRoaming))
          (profilesStart sizeofDataProfileInfo
            (profiles.map (fun p => (p.strings isRoaming, true))).length)
        rw [List.map_map, List.map_map] at hok
        have hboth : AllGiven e (2 +
              (profiles.map (fun p => copies false (p.strings isRoaming))).sum) ↔
            AllGiven e 2 ∧
              GivenFrom e 2 (profiles.map (fun p => copies false (p.strings isRoaming))).sum := by
          rw [allGiven_iff, allGiven_iff, givenFrom_add]
        rw [hboth]
        constructor
        · rintro hclean ⟨-, -, hfirst, hall⟩
          exact hnever (hclean hfirst (hok.mpr hall))
        · intro hstays hfirst hcopied
          exact absurd ⟨Option.some_ne_none proxyId, hversion, hfirst, hok.mp hcopied⟩ hstays
      · have hsources : ∀ source ∈ profiles.map (fun p => (p.stringsV15, p.mvnoKnown)),
            source.1.length = 6 := by
          intro source hsource
          obtain ⟨p, -, rfl⟩ := List.mem_map.mp hsource
          rfl
        rw [setProfiles_clean_iff _ _ _ hsources]
        have hstart := profilesStart_holds sizeofDataProfileInfoV15
          (profiles.map (fun p => (p.stringsV15, p.mvnoKnown))).length
        obtain ⟨hstarts, hholds⟩ := copyProfiles_holds (e := e) hstart
          (profiles.map (fun p => (p.stringsV15, p.mvnoKnown)))
        have hlength := copyProfiles_length (e := e)
          (profiles.map (fun p => (p.stringsV15, p.mvnoKnown))) 6 hsources
          (profilesStart sizeofDataProfileInfoV15
            (profiles.map (fun p => (p.stringsV15, p.mvnoKnown))).length)
        apply iff_of_true
        · intro _ _
          exact free_profiles_clean hlength hstarts hholds
        · rintro ⟨-, hold, -⟩
          exact hversion hold

end Profiles

section AttachApn

variable {e : Env} {m : Ledger} {owned : List Nat}

theorem fillEmpty_holds {strings : List (Option Pointer)} (hstarts : Starts strings)
    (h : m.Holds (blocks strings ++ owned)) :
    Starts (fillEmpty e strings m).1 ∧
      (fillEmpty e strings m).2.Holds (blocks (fillEmpty e strings m).1 ++ owned) := by
  induction strings generalizing m owned with
  | nil => exact ⟨starts_nil, h⟩
  | cons p strings ih =>
      obtain ⟨hstart, hrest⟩ := starts_append.mp (show Starts ([p] ++ strings) from hstarts)
      cases p with
      | some p =>
          have hmoved := h.perm (List.perm_append_comm_assoc [p.block] (blocks strings) owned)
          obtain ⟨hfilled, hholds⟩ := ih hrest hmoved
          rw [fillEmpty]
          refine ⟨starts_append.mpr ⟨hstart, hfilled⟩, hholds.perm ?_⟩
          rw [← List.append_assoc]
          exact List.perm_append_comm.append_right owned
      | none =>
          obtain ⟨hnew, hcalloc⟩ := h.calloc e.gives 1
          rw [blocks_none] at hcalloc
          have hmoved := hcalloc.perm (List.perm_append_comm_assoc _ (blocks strings) owned)
          obtain ⟨hfilled, hholds⟩ := ih hrest hmoved
          have hfill : fillEmpty e (none :: strings) m =
              ((m.calloc e.gives 1).1 :: (fillEmpty e strings (m.calloc e.gives 1).2).1,
                (fillEmpty e strings (m.calloc e.gives 1).2).2) := rfl
          have hsplit := blocks_append [(m.calloc e.gives 1).1]
            (fillEmpty e strings (m.calloc e.gives 1).2).1
          rw [List.singleton_append] at hsplit
          rw [hfill]
          refine ⟨starts_append.mpr ⟨hnew, hfilled⟩, hholds.perm ?_⟩
          rw [hsplit]
          rw [← List.append_assoc]
          exact List.perm_append_comm.append_right owned

/-- Where a string fails those in front of it are freed, so that it depends on what
comes behind the copies. -/
theorem copied_clean (srcs : List HidlString)
    (next : List (Option Pointer) → Ledger → Option Ledger)
    (hnext : ∀ strings m', Starts strings → m'.Holds (blocks strings ++ []) →
      next strings m' = some m → m.Clean)
    (hreturns : (match copyStrings e false srcs {} with
      | ((strings, false), m') => some (m'.freeAll strings)
      | ((strings, true), m') => next strings m') = some m) : m.Clean := by
  obtain ⟨hstarts, hholds⟩ := copyStrings_holds (e := e) Ledger.holds_start false srcs
  generalize copyStrings e false srcs {} = answer at hstarts hholds hreturns
  obtain ⟨⟨strings, ok⟩, m'⟩ := answer
  cases ok with
  | false =>
      cases hreturns
      exact (hholds.freeAll hstarts).clean_iff.mpr rfl
  | true => exact hnext strings m' hstarts hholds hreturns

/-- One more block is freed with the strings. -/
theorem freeAll_concat_clean {strings : List (Option Pointer)} {p : Option Pointer}
    (hstarts : Starts strings) (hstart : Starts [p])
    (h : m.Holds (blocks [p] ++ (blocks strings ++ []))) :
    (m.freeAll (strings ++ [p])).Clean := by
  have hall : m.Holds (blocks (strings ++ [p]) ++ []) := by
    apply h.perm
    rw [blocks_append, List.append_nil, List.append_nil]
    exact List.perm_append_comm
  exact (hall.freeAll (starts_append.mpr ⟨hstarts, hstart⟩)).clean_iff.mpr rfl

theorem setInitialAttachApn_clean (profile : DataProfileInfo) (isRoaming : Bool)
    (hreturns : setInitialAttachApn e profile isRoaming {} = some m) : m.Clean := by
  unfold setInitialAttachApn at hreturns
  cases hpRI : e.pRI with
  | none =>
      rw [hpRI] at hreturns
      cases hreturns
      exact Ledger.holds_start.clean_iff.mpr rfl
  | some proxyId =>
      rw [hpRI] at hreturns
      simp only at hreturns
      by_cases hversion : e.version ≤ 14
      · rw [if_pos hversion] at hreturns
        apply copied_clean _ _ _ hreturns
        intro strings m₁ hstarts hholds hreturns
        obtain ⟨hfilled, hfilledholds⟩ := fillEmpty_holds (e := e) hstarts hholds
        generalize fillEmpty e strings m₁ = filled at hfilled hfilledholds hreturns
        obtain ⟨strings', m₂⟩ := filled
        obtain ⟨hstart, hcalloc⟩ := hfilledholds.calloc e.gives 8
        simp only at hreturns
        generalize m₂.calloc e.gives 8 = given at hstart hcalloc hreturns
        obtain ⟨operatorNumeric, m₃⟩ := given
        cases operatorNumeric with
        | none => cases hreturns
        | some operatorNumeric =>
            have hfound : operatorFound e = true := by
              by_contra hmissing
              simp only [hmissing] at hreturns
              cases hreturns
            simp only [hfound, if_true] at hreturns
            cases hreturns
            exact freeAll_concat_clean hfilled hstart hcalloc
      · rw [if_neg hversion] at hreturns
        apply copied_clean _ _ _ hreturns
        intro strings m₁ hstarts hholds hreturns
        by_cases hknown : profile.mvnoKnown = true
        · rw [if_pos hknown] at hreturns
          obtain ⟨hstart, hcopy⟩ := copy_holds (e := e) hholds false profile.mvnoMatchData
          have hfail := copy_failed (e := e) false profile.mvnoMatchData m₁
          generalize copyHidlStringToRil e false profile.mvnoMatchData m₁ =
            copied at hstart hcopy hfail hreturns
          obtain ⟨⟨mvnoMatchData, ok⟩, m₂⟩ := copied
          cases ok with
          | false =>
              cases hreturns
              have hnull : mvnoMatchData = none := hfail rfl
              rw [hnull] at hcopy
              have hkept : m₂.Holds (blocks strings ++ []) := hcopy
              exact (hkept.freeAll hstarts).clean_iff.mpr rfl
          | true =>
              cases hreturns
              exact freeAll_concat_clean hstarts hstart hcopy
        · rw [if_neg hknown] at hreturns
          cases hreturns
          exact (hholds.freeAll hstarts).clean_iff.mpr rfl

end AttachApn

/-- Which dispatches free what they have allocated, and nothing else. -/
theorem ownershipLaw_iff (e : Env) (d : Dispatch) : OwnershipLaw e d ↔ Freed e d := by
  have hsome : ∀ m : Ledger, (∀ m', some m = some m' → m'.Clean) ↔ m.Clean := by
    intro m
    constructor
    · intro hall
      exact hall m rfl
    · intro hclean m' heq
      cases heq
      exact hclean
  unfold OwnershipLaw
  cases d with
  | string str => exact (hsome _).trans (iff_of_true (dispatchString_clean str) trivial)
  | strings data => exact (hsome _).trans (dispatchStringsV_clean_iff false _ data)
  | stringsV allowEmpty strs =>
      exact (hsome _).trans (dispatchStringsV_clean_iff allowEmpty _ strs)
  | ints ints => exact (hsome _).trans (dispatchInts_clean_iff ints)
  | callForwardStatus number =>
      exact (hsome _).trans (iff_of_true (dispatchCallForwardStatus_clean number) trivial)
  | iccApdu data => exact (hsome _).trans (iff_of_true (dispatchIccApdu_clean data) trivial)
  | setDataProfile profiles isRoaming =>
      exact (hsome _).trans (setDataProfile_clean_iff profiles isRoaming)
  | setInitialAttachApn profile isRoaming =>
      exact iff_of_true (fun m hm => setInitialAttachApn_clean profile isRoaming hm) trivial

section Instances

/-- An allocator that always gives, and a command on that proxy. -/
def plentiful (proxyId : Proxy) (version : Int) : Env where
  gives := fun _ => true
  version := version
  pRI := some proxyId
  slotId := 0
  operatorNumeric := ""
  stale := fun _ => []

def emptyProfile : DataProfileInfo := ⟨[], [], [], [], [], [], true⟩

/-- On proxy 1 the arrays of strings and of numbers stay. Two profiles of version 14 leave
the array of pointers, and a pointer into the block of the profiles is freed. -/
theorem ownershipLaw_leaks :
    ¬ OwnershipLaw (plentiful .proxy1 14) (.strings [[48]]) ∧
      ¬ OwnershipLaw (plentiful .proxy1 14) (.ints [1]) ∧
      ¬ OwnershipLaw (plentiful .proxy2 14) (.setDataProfile [emptyProfile, emptyProfile] false) := by
  refine ⟨?_, ?_, ?_⟩
  · intro hlaw
    exact absurd (hlaw _ rfl) (by decide)
  · intro hlaw
    exact absurd (hlaw _ rfl) (by decide)
  · intro hlaw
    exact absurd (hlaw _ rfl) (by decide)

/-- The account of one string on proxy 1: the array is not freed. -/
example : (dispatchStrings (plentiful .proxy1 14) [[48]] {}).trace =
    [.alloc 0 8, .alloc 1 2, .free ⟨1, 0⟩] := by decide

end Instances

end MeizuM5c.Ril.Arguments
