import MeizuM5c.Legacy.JstringRoundTrip

/-!
`strdup8to16` on bytes that need not be UTF-8. One pass counts the units, with
a counter of the continuation bytes that are still expected, and another decodes
sequence by sequence. Where a sequence is broken they agree on the byte to go on
with, and every unit that the second pass writes has been counted by the first.
-/

namespace MeizuM5c.Legacy

def IsContinuation (c : UInt8) : Prop := c.toNat &&& 0xc0 = 0x80

/-- A NUL-terminated string, without the NUL, where `size_t` has `w` bits. No object
has more than `PTRDIFF_MAX` bytes. -/
structure CString (w : Nat) where
  bytes : List UInt8
  noNul : 0 ∉ bytes
  fits : bytes.length + 1 < 2 ^ (w - 1)

def CString.text {w : Nat} (s : CString w) : List UInt8 := s.bytes ++ [0]

section Law

variable {w : Nat}

/-- A decode step on what is left of the string moves forward, and not past the
terminator. -/
def StepsForward (rest : List UInt8) : Prop :=
  ∃ code after, getUtf32FromUtf8 (rest ++ [0]) = some (code, after ++ [0]) ∧
    after <:+ rest ∧ after.length < rest.length

/-- The loop ends with these units, which are no more than were counted, so that they
are written, with the final 0, inside of the units that were allocated. -/
structure Decodes (s : CString w) (len : Nat) (units : List UInt16) : Prop where
  counted : strlen8to16 w s.text = some len
  ends : ∀ fuel, s.bytes.length < fuel → decodeUnits fuel s.text = some units
  bounded : units.length ≤ len
  written : ∀ malloc, strdup8to16 w malloc (some s.text) =
    if len < SIZE_MAX w / 2 ∧ malloc (2 * (len + 1)) then some ⟨units ++ [0], units.length⟩
    else none

structure DecodeLaw (s : CString w) : Prop where
  step : ∀ rest, rest <:+ s.bytes → rest ≠ [] → StepsForward rest
  decodes : ∃ len units, Decodes s len units

/-- No continuation byte is the last of so many in a row that the counter leaves its
range; it starts with the number that the lead in front of them announces. -/
structure RunsFit (expected : Int) (bytes : List UInt8) : Prop where
  first : ∀ run after, bytes = run ++ after → (∀ c ∈ run, IsContinuation c) →
    INT_MIN + run.length ≤ expected
  behind : ∀ before lead run after, bytes = before ++ lead :: (run ++ after) →
    ¬ IsContinuation lead → (∀ c ∈ run, IsContinuation c) →
      INT_MIN + run.length ≤ (M5C_UTF8_SEQ_LENGTH lead.toNat : Int) - 1

end Law

section Runs

variable {expected : Int} {c : UInt8} {rest : List UInt8}

theorem runsFit_nil (h : INT_MIN ≤ expected) : RunsFit expected [] := by
  constructor
  · intro run after hsplit _
    obtain ⟨rfl, -⟩ := List.append_eq_nil_iff.mp hsplit.symm
    simpa using h
  · intro before lead run after hsplit
    cases before <;> cases hsplit

theorem RunsFit.lower (h : RunsFit expected rest) : INT_MIN ≤ expected := by
  simpa using h.first [] rest rfl (fun c hc => absurd hc List.not_mem_nil)

theorem runsFit_continuation (hc : IsContinuation c) :
    RunsFit expected (c :: rest) ↔ RunsFit (expected - 1) rest := by
  constructor
  · intro h
    constructor
    · intro run after hsplit hrun
      have hmore := h.first (c :: run) after (by rw [hsplit]; rfl)
        (List.forall_mem_cons.mpr ⟨hc, hrun⟩)
      rw [List.length_cons] at hmore
      omega
    · intro before lead run after hsplit
      exact h.behind (c :: before) lead run after (by rw [hsplit]; rfl)
  · intro h
    constructor
    · intro run after hsplit hrun
      cases run with
      | nil =>
          have hlower := h.lower
          simp only [List.length_nil]
          omega
      | cons b run =>
          obtain ⟨rfl, hrest⟩ := List.cons.inj hsplit
          have hless := h.first run after hrest (List.forall_mem_cons.mp hrun).2
          rw [List.length_cons]
          omega
    · intro before lead run after hsplit hlead
      cases before with
      | nil =>
          obtain ⟨rfl, -⟩ := List.cons.inj hsplit
          exact absurd hc hlead
      | cons b before => exact h.behind before lead run after (List.cons.inj hsplit).2 hlead

theorem runsFit_lead (hc : ¬ IsContinuation c) (hlower : INT_MIN ≤ expected) :
    RunsFit expected (c :: rest) ↔
      RunsFit ((M5C_UTF8_SEQ_LENGTH c.toNat : Int) - 1) rest := by
  constructor
  · intro h
    constructor
    · intro run after hsplit hrun
      exact h.behind [] c run after (by rw [hsplit]; rfl) hc hrun
    · intro before lead run after hsplit
      exact h.behind (c :: before) lead run after (by rw [hsplit]; rfl)
  · intro h
    constructor
    · intro run after hsplit hrun
      cases run with
      | nil => simpa using hlower
      | cons b run =>
          obtain ⟨rfl, -⟩ := List.cons.inj hsplit
          exact absurd (hrun c List.mem_cons_self) hc
    · intro before lead run after hsplit hlead hrun
      cases before with
      | nil =>
          obtain ⟨rfl, hrest⟩ := List.cons.inj hsplit
          exact h.first run after hrest hrun
      | cons b before => exact h.behind before lead run after (List.cons.inj hsplit).2 hlead hrun

end Runs

section Count

/-- The units that the first pass counts, without bound. -/
def countUnits : Int → List UInt8 → Nat
  | _, [] => 0
  | expected, c :: rest =>
      if c.toNat &&& 0xc0 = 0x80 then
        (if expected - 1 < 0 then 1 else 0) + countUnits (expected - 1) rest
      else
        let expected := (M5C_UTF8_SEQ_LENGTH c.toNat : Int) - 1
        (if expected = 3 then 2 else 1) + countUnits expected rest

theorem countUnits_le (expected : Int) (bytes : List UInt8) :
    countUnits expected bytes ≤ 2 * bytes.length := by
  induction bytes generalizing expected with
  | nil => exact Nat.le_refl 0
  | cons c rest ih =>
      have hcontinuation := ih (expected - 1)
      have hlead := ih ((M5C_UTF8_SEQ_LENGTH c.toNat : Int) - 1)
      simp only [countUnits, List.length_cons]
      split_ifs <;> omega

theorem toNat_ne_zero {c : UInt8} {rest : List UInt8} (hnul : 0 ∉ c :: rest) :
    ¬ c.toNat = 0 := by
  intro hzero
  have hc : c = 0 := UInt8.toNat_inj.mp hzero
  exact hnul (hc ▸ List.mem_cons_self)

/-- The first pass ends with the count as long as its `int` stays in range. -/
theorem strlen8to16From_eq_some_iff {w len n : Nat} {expected : Int} {bytes : List UInt8}
    (hnul : 0 ∉ bytes) (hlower : INT_MIN ≤ expected)
    (hfits : len + countUnits expected bytes < 2 ^ w) :
    strlen8to16From w len expected (bytes ++ [0]) = some n ↔
      RunsFit expected bytes ∧ len + countUnits expected bytes = n := by
  induction bytes generalizing len expected with
  | nil =>
      rw [List.nil_append, countUnits, Nat.add_zero]
      exact Option.some_inj.trans (and_iff_right (runsFit_nil hlower)).symm
  | cons c rest ih =>
      have hc := toNat_ne_zero hnul
      have hrest : 0 ∉ rest := fun hmem => hnul (List.mem_cons_of_mem c hmem)
      rw [List.cons_append]
      simp only [strlen8to16From, if_neg hc]
      by_cases hclass : c.toNat &&& 0xc0 = 0x80
      · rw [if_pos hclass, runsFit_continuation hclass]
        simp only [countUnits, if_pos hclass] at hfits ⊢
        by_cases hmin : expected = INT_MIN
        · rw [if_pos hmin]
          apply iff_of_false (Option.some_ne_none n).symm
          rintro ⟨hruns, -⟩
          have hlower' := hruns.lower
          omega
        · rw [if_neg hmin]
          by_cases hstray : expected - 1 < 0
          · rw [if_pos hstray] at hfits ⊢
            rw [Nat.mod_eq_of_lt (by omega), ih hrest (by omega) (by omega), if_pos hstray,
              Nat.add_assoc]
          · rw [if_neg hstray] at hfits ⊢
            rw [ih hrest (by omega) (by omega), if_neg hstray, Nat.zero_add]
      · rw [if_neg hclass, runsFit_lead hclass hlower]
        simp only [countUnits, if_neg hclass] at hfits ⊢
        have hnext : INT_MIN ≤ (M5C_UTF8_SEQ_LENGTH c.toNat : Int) - 1 := by
          unfold INT_MIN
          omega
        by_cases hpair : (M5C_UTF8_SEQ_LENGTH c.toNat : Int) - 1 = 3
        · rw [if_pos hpair] at hfits ⊢
          have hsum (k : Nat) : len + 1 + 1 + k = len + (2 + k) := by omega
          rw [Nat.mod_eq_of_lt (by omega : len + 1 < 2 ^ w), Nat.mod_eq_of_lt (by omega),
            ih hrest hnext (by omega), if_pos hpair, hsum]
        · rw [if_neg hpair] at hfits ⊢
          rw [Nat.mod_eq_of_lt (by omega), ih hrest hnext (by omega), if_neg hpair, Nat.add_assoc]

end Count

section Decoding

/-- Where a decode step begins: nothing more is expected, or no continuation byte
comes next. -/
def Ready (expected : Int) (bytes : List UInt8) : Prop :=
  expected ≤ 0 ∨ ∀ c rest, bytes = c :: rest → ¬ IsContinuation c

/-- The bytes behind a lead do not count, up to where the decoder goes on. -/
theorem getUtf32Rest_reads (more ret : Nat) (bytes : List UInt8) (hnul : 0 ∉ bytes) :
    ∃ code after, getUtf32Rest more ret (bytes ++ [0]) = some (code, after ++ [0]) ∧
      after <:+ bytes ∧
      ∃ expected, Ready expected after ∧ countUnits expected after = countUnits more bytes := by
  induction more generalizing ret bytes with
  | zero => exact ⟨ret, bytes, rfl, List.suffix_rfl, 0, .inl le_rfl, rfl⟩
  | succ more ih =>
      cases bytes with
      | nil =>
          exact ⟨M5C_UTF16_REPLACEMENT_CHAR, [], rfl, List.suffix_rfl, 0, .inl le_rfl, rfl⟩
      | cons c rest =>
          have hc := toNat_ne_zero hnul
          have hrest : 0 ∉ rest := fun hmem => hnul (List.mem_cons_of_mem c hmem)
          rw [List.cons_append]
          simp only [getUtf32Rest, if_neg hc]
          by_cases hclass : c.toNat &&& 0xc0 = 0x80
          · obtain ⟨code, after, hrun, hafter, expected, hready, hcount⟩ :=
              ih (((ret <<< 6) ||| (0x3f &&& c.toNat)) % 2 ^ 32) rest hrest
            rw [if_neg (not_not.mpr hclass), hrun]
            refine ⟨code, after, rfl, hafter.trans (List.suffix_cons c rest), expected, hready, ?_⟩
            have hexpected : ¬ ((more + 1 : Nat) : Int) - 1 < 0 := by omega
            have hleft : ((more + 1 : Nat) : Int) - 1 = more := by omega
            rw [hcount, countUnits, if_pos hclass, if_neg hexpected, hleft, Nat.zero_add]
          · rw [if_pos hclass]
            refine ⟨_, c :: rest, rfl, List.suffix_rfl, _, .inr ?_, rfl⟩
            intro b rest' hsplit
            obtain ⟨rfl, -⟩ := List.cons.inj hsplit
            exact hclass

/-- Up to two bytes behind a lead that keeps few enough bits make a single unit. -/
theorem getUtf32Rest_le {more ret code : Nat} {bytes after : List UInt8} (hmore : more ≤ 2)
    (hret : ret < 2 ^ (16 - 6 * more)) (hrun : getUtf32Rest more ret bytes = some (code, after)) :
    code ≤ 0xffff := by
  induction more generalizing ret bytes with
  | zero =>
      obtain ⟨rfl, -⟩ := Prod.mk.inj (Option.some.inj hrun)
      omega
  | succ more ih =>
      cases bytes with
      | nil => cases hrun
      | cons c rest =>
          have hreplaced : M5C_UTF16_REPLACEMENT_CHAR ≤ 0xffff := by decide
          simp only [getUtf32Rest] at hrun
          split_ifs at hrun
          · obtain ⟨rfl, -⟩ := Prod.mk.inj (Option.some.inj hrun)
            exact hreplaced
          · obtain ⟨rfl, -⟩ := Prod.mk.inj (Option.some.inj hrun)
            exact hreplaced
          · apply ih (by omega) _ hrun
            have hlow : 0x3f &&& c.toNat < 2 ^ 6 :=
              Nat.lt_of_le_of_lt Nat.and_le_left (by decide)
            have hpow : 2 ^ (16 - 6 * more) = 2 ^ (16 - 6 * (more + 1)) * 2 ^ 6 := by
              rw [← Nat.pow_add]
              congr 1
              omega
            apply Nat.lt_of_le_of_lt (Nat.mod_le _ _)
            rw [← Nat.shiftLeft_add_eq_or_of_lt hlow, Nat.shiftLeft_eq]
            omega

theorem length_utf16Units_le (code : Nat) : (utf16Units code).length ≤ 2 := by
  unfold utf16Units
  split_ifs <;> simp

theorem length_utf16Units_of_le {code : Nat} (h : code ≤ 0xffff) :
    (utf16Units code).length = 1 := by
  rw [utf16Units, if_pos h]
  rfl

/-- The length of a sequence is from 1 to 4, and a lead of up to three keeps what fits a
unit. -/
theorem lead_keeps_le (ch : Nat) (h : M5C_UTF8_SEQ_LENGTH ch ≤ 3) :
    ch &&& leaderMask (M5C_UTF8_SEQ_LENGTH ch) < 2 ^ (16 - 6 * (M5C_UTF8_SEQ_LENGTH ch - 1)) := by
  have hpos : 0 < M5C_UTF8_SEQ_LENGTH ch := Nat.succ_pos _
  apply Nat.lt_of_le_of_lt Nat.and_le_right
  generalize M5C_UTF8_SEQ_LENGTH ch = n at h hpos
  interval_cases n <;> decide

/-- One decode step reads at least a byte, and writes no more than was counted for what
it has read. -/
theorem getUtf32FromUtf8_reads {c : UInt8} {rest : List UInt8} (hnul : 0 ∉ c :: rest) :
    ∃ code after, getUtf32FromUtf8 (c :: rest ++ [0]) = some (code, after ++ [0]) ∧
      after <:+ rest ∧
      ∀ expected, Ready expected (c :: rest) → ∃ expected', Ready expected' after ∧
        (utf16Units code).length + countUnits expected' after ≤ countUnits expected (c :: rest) := by
  have hc := toNat_ne_zero hnul
  have hrest : 0 ∉ rest := fun hmem => hnul (List.mem_cons_of_mem c hmem)
  rw [List.cons_append]
  simp only [getUtf32FromUtf8, if_neg hc]
  by_cases hclass : c.toNat &&& 0xc0 = 0x80
  · rw [if_pos hclass]
    refine ⟨_, rest, rfl, List.suffix_rfl, ?_⟩
    intro expected hready
    have hstray : expected ≤ 0 := hready.resolve_right (fun h => h c rest rfl hclass)
    have hnegative : expected - 1 < 0 := by omega
    refine ⟨expected - 1, .inl hnegative.le, ?_⟩
    rw [countUnits, if_pos hclass, if_pos hnegative, length_utf16Units_of_le (by decide)]
  · rw [if_neg hclass]
    obtain ⟨code, after, hrun, hafter, expected', hready', hcount⟩ :=
      getUtf32Rest_reads (M5C_UTF8_SEQ_LENGTH c.toNat - 1)
        (c.toNat &&& leaderMask (M5C_UTF8_SEQ_LENGTH c.toNat)) rest hrest
    refine ⟨code, after, hrun, hafter, ?_⟩
    intro expected _
    refine ⟨expected', hready', ?_⟩
    have hpos : 0 < M5C_UTF8_SEQ_LENGTH c.toNat := Nat.succ_pos _
    have hmore : ((M5C_UTF8_SEQ_LENGTH c.toNat - 1 : Nat) : Int) =
        (M5C_UTF8_SEQ_LENGTH c.toNat : Int) - 1 := by omega
    rw [hcount, hmore]
    simp only [countUnits, if_neg hclass]
    by_cases hpair : (M5C_UTF8_SEQ_LENGTH c.toNat : Int) - 1 = 3
    · rw [if_pos hpair]
      exact Nat.add_le_add_right (length_utf16Units_le code) _
    · have hshort : M5C_UTF8_SEQ_LENGTH c.toNat ≤ 3 := by
        have hmask : M5C_UTF8_SEQ_LENGTH c.toNat ≤ 3 + 1 := Nat.succ_le_succ Nat.and_le_right
        omega
      have hcode := getUtf32Rest_le (by omega) (lead_keeps_le c.toNat hshort) hrun
      rw [if_neg hpair, length_utf16Units_of_le hcode]

theorem stepsForward {rest : List UInt8} (hnul : 0 ∉ rest) (hne : rest ≠ []) :
    StepsForward rest := by
  obtain ⟨c, rest, rfl⟩ := List.exists_cons_of_ne_nil hne
  obtain ⟨code, after, hrun, hafter, -⟩ := getUtf32FromUtf8_reads hnul
  exact ⟨code, after, hrun, hafter.trans (List.suffix_cons c rest),
    Nat.lt_succ_of_le hafter.length_le⟩

/-- The loop ends, with no more units than were counted from where it began. -/
theorem decodeUnits_ends (n : Nat) (bytes : List UInt8) (hlength : bytes.length ≤ n)
    (hnul : 0 ∉ bytes) :
    ∃ units, (∀ fuel, bytes.length < fuel → decodeUnits fuel (bytes ++ [0]) = some units) ∧
      ∀ expected, Ready expected bytes → units.length ≤ countUnits expected bytes := by
  induction n generalizing bytes with
  | zero =>
      have hnil : bytes = [] := List.length_eq_zero_iff.mp (by omega)
      rw [hnil]
      refine ⟨[], ?_, fun expected _ => Nat.le_refl 0⟩
      intro fuel hfuel
      obtain ⟨fuel, rfl⟩ := Nat.exists_eq_add_one.mpr hfuel
      rfl
  | succ n ih =>
      cases bytes with
      | nil => exact ih [] (Nat.zero_le n) hnul
      | cons c rest =>
          have hc := toNat_ne_zero hnul
          obtain ⟨code, after, hrun, hafter, hcount⟩ := getUtf32FromUtf8_reads hnul
          have hshorter := hafter.length_le
          rw [List.length_cons] at hlength
          have hafterNul : 0 ∉ after :=
            fun hmem => hnul (List.mem_cons_of_mem c (hafter.subset hmem))
          obtain ⟨units, hends, hbounded⟩ := ih after (by omega) hafterNul
          refine ⟨utf16Units code ++ units, ?_, ?_⟩
          · intro fuel hfuel
            rw [List.length_cons] at hfuel
            obtain ⟨fuel, rfl⟩ := Nat.exists_eq_add_one.mpr (Nat.zero_lt_of_lt hfuel)
            rw [List.cons_append] at hrun ⊢
            simp only [decodeUnits, if_neg hc, hrun, hends fuel (by omega),
              Option.bind_eq_bind, Option.bind_some, Option.pure_def]
          · intro expected hready
            obtain ⟨expected', hready', hle⟩ := hcount expected hready
            have hrest := hbounded expected' hready'
            rw [List.length_append]
            omega

end Decoding

section Main

variable {w : Nat}

/-- What is counted of a string in memory fits a `size_t`. -/
theorem CString.count_lt (s : CString w) : countUnits 0 s.bytes < 2 ^ w := by
  have hcount := countUnits_le 0 s.bytes
  have hfits := s.fits
  cases w with
  | zero => simp at hfits
  | succ w =>
      rw [Nat.add_sub_cancel] at hfits
      rw [Nat.pow_succ]
      omega

theorem CString.strlen_eq_some_iff (s : CString w) {len : Nat} :
    strlen8to16 w s.text = some len ↔ RunsFit 0 s.bytes ∧ countUnits 0 s.bytes = len := by
  have hcount := s.count_lt
  have hfrom := strlen8to16From_eq_some_iff (n := len) s.noNul (by decide : INT_MIN ≤ 0)
    (by omega : 0 + countUnits 0 s.bytes < 2 ^ w)
  rw [Nat.zero_add] at hfrom
  exact hfrom

theorem decodeLaw_of_runsFit (s : CString w) (hruns : RunsFit 0 s.bytes) : DecodeLaw s := by
  obtain ⟨units, hends, hbounded⟩ := decodeUnits_ends s.bytes.length s.bytes le_rfl s.noNul
  have hcounted : strlen8to16 w s.text = some (countUnits 0 s.bytes) :=
    s.strlen_eq_some_iff.mpr ⟨hruns, rfl⟩
  have hle : units.length ≤ countUnits 0 s.bytes := hbounded 0 (.inl le_rfl)
  constructor
  · intro rest hsuffix hne
    exact stepsForward (fun hmem => s.noNul (hsuffix.subset hmem)) hne
  · refine ⟨countUnits 0 s.bytes, units, hcounted, hends, hle, ?_⟩
    intro malloc
    have hunits : decodeUnits s.text.length s.text = some units := by
      apply hends
      simp [CString.text]
    simp only [strdup8to16, Option.bind_eq_bind, Option.bind_some, hcounted, hunits, if_pos hle]
    by_cases hsmall : countUnits 0 s.bytes < SIZE_MAX w / 2
    · simp [hsmall]
    · simp [hsmall]

/-- Any bytes are decoded safely, exactly as long as the counter of the first pass stays
in its range. -/
theorem decodeLaw_iff (w : Nat) (s : CString w) : DecodeLaw s ↔ RunsFit 0 s.bytes := by
  constructor
  · intro h
    obtain ⟨len, units, hdecodes⟩ := h.decodes
    exact (s.strlen_eq_some_iff.mp hdecodes.counted).1
  · exact decodeLaw_of_runsFit s

/-- A string of up to 2^31 bytes is too short for the counter. -/
theorem runsFit_of_length {bytes : List UInt8} (h : bytes.length ≤ 2147483648) :
    RunsFit 0 bytes := by
  have hmin : INT_MIN = -2147483648 := rfl
  constructor
  · intro run after hsplit _
    rw [hsplit, List.length_append] at h
    omega
  · intro before lead run after hsplit _ _
    rw [hsplit, List.length_append, List.length_cons, List.length_append] at h
    omega

/-- In a process of up to 32 bits no string is long enough. -/
theorem decodeLaw_narrow (hw : w ≤ 32) (s : CString w) : DecodeLaw s := by
  have hfits := s.fits
  have hpow : 2 ^ (w - 1) ≤ 2 ^ 31 := Nat.pow_le_pow_right (by decide) (by omega)
  have hlength : s.bytes.length ≤ 2147483648 := by omega
  exact decodeLaw_of_runsFit s (runsFit_of_length hlength)

/-- One continuation byte more than the counter has negative values: it leaves its range,
although each of them is decoded as a unit. -/
theorem decodeLaw_strays :
    ∃ s : CString 64, s.bytes = List.replicate 2147483649 0x80 ∧ ¬ DecodeLaw s := by
  have hnul : 0 ∉ List.replicate 2147483649 (0x80 : UInt8) := by
    intro hmem
    exact absurd (List.eq_of_mem_replicate hmem) (by decide)
  have hfits : (List.replicate 2147483649 (0x80 : UInt8)).length + 1 < 2 ^ (64 - 1) := by
    rw [List.length_replicate]
    decide
  let s : CString 64 := ⟨_, hnul, hfits⟩
  refine ⟨s, rfl, ?_⟩
  intro hlaw
  obtain ⟨len, units, hdecodes⟩ := hlaw.decodes
  have hruns : RunsFit 0 (List.replicate 2147483649 0x80) :=
    (s.strlen_eq_some_iff.mp hdecodes.counted).1
  have hcontinues : ∀ c ∈ List.replicate 2147483649 (0x80 : UInt8), IsContinuation c := by
    intro c hc
    rw [List.eq_of_mem_replicate hc]
    rfl
  have hlong := hruns.first _ [] (List.append_nil _).symm hcontinues
  rw [List.length_replicate] at hlong
  exact absurd hlong (by decide)

end Main

end MeizuM5c.Legacy
