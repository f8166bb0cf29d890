import MeizuM5c.Legacy.Jstring

/-!
What the encoder writes for one unit is a leader and up to two bytes behind it,
and the four functions are compared on that form. The round trip is then an
induction on the array.
-/

namespace MeizuM5c.Legacy

section UnitForms

/-- A byte that leads a sequence of `n` and keeps `t` under its mask. -/
def Leads (n t : Nat) (b : UInt8) : Prop :=
  b.toNat ≠ 0 ∧ b.toNat &&& 0xc0 ≠ 0x80 ∧ M5C_UTF8_SEQ_LENGTH b.toNat = n ∧
    b.toNat &&& leaderMask n = t

/-- A byte behind a leader that keeps `t` in its six lower bits. -/
def Continues (t : Nat) (b : UInt8) : Prop :=
  b.toNat ≠ 0 ∧ b.toNat &&& 0xc0 = 0x80 ∧ 0x3f &&& b.toNat = t

/-- The three forms that a unit takes in the encoded string. -/
inductive UnitForm (uic : Nat) : List UInt8 → Prop
  | one {b : UInt8} (hleader : Leads 1 uic b) : UnitForm uic [b]
  | two {b c : UInt8} (hleader : Leads 2 (uic >>> 6) b) (hlow : Continues (uic &&& 0x3f) c) :
      UnitForm uic [b, c]
  | three {b c d : UInt8} (hleader : Leads 3 (uic >>> 12) b)
      (hmiddle : Continues ((uic >>> 6) &&& 0x3f) c) (hlow : Continues (uic &&& 0x3f) d) :
      UnitForm uic [b, c, d]

private theorem leads_one : ∀ t < 128, 0 < t → Leads 1 t (UInt8.ofNat t) := by
  unfold Leads
  decide +kernel

private theorem leads_two : ∀ t < 32, Leads 2 t (UInt8.ofNat (t ||| 0xc0)) := by
  unfold Leads
  decide +kernel

private theorem leads_three : ∀ t < 16, Leads 3 t (UInt8.ofNat (t ||| 0xe0)) := by
  unfold Leads
  decide +kernel

private theorem continues_low_six (x : Nat) :
    Continues (x &&& 0x3f) (UInt8.ofNat ((x &&& 0x3f) ||| 0x80)) := by
  have hall : ∀ t < 64, Continues t (UInt8.ofNat (t ||| 0x80)) := by
    unfold Continues
    decide +kernel
  exact hall _ (Nat.lt_of_le_of_lt Nat.and_le_right (by decide))

/-- The encoder writes each unit in a form that fits it, and then the rest of the
array. The break at a unit 0 is never reached: that unit takes two bytes. -/
theorem strncpy16to8_cons (u : UInt16) (rest : List UInt16) :
    ∃ bytes, UnitForm u.toNat bytes ∧ bytes.length = unitSize u.toNat ∧
      strncpy16to8 (u :: rest) = bytes ++ strncpy16to8 rest := by
  have hu : u.toNat < 65536 := u.toNat_lt
  by_cases hthree : u.toNat > 0x07ff
  · refine ⟨_, .three (leads_three _ ?_) (continues_low_six (u.toNat >>> 6))
      (continues_low_six u.toNat), ?_, ?_⟩
    · rw [Nat.shiftRight_eq_div_pow]
      omega
    · simp [unitSize, hthree]
    · simp [strncpy16to8, hthree]
  · by_cases htwo : u.toNat > 0x7f ∨ u.toNat = 0
    · refine ⟨_, .two (leads_two _ ?_) (continues_low_six u.toNat), ?_, ?_⟩
      · rw [Nat.shiftRight_eq_div_pow]
        omega
      · simp [unitSize, hthree, htwo]
      · simp [strncpy16to8, hthree, htwo]
    · refine ⟨_, .one (leads_one u.toNat (by omega) (by omega)), ?_, ?_⟩
      · simp [unitSize, hthree, htwo]
      · have hnonzero : ¬u.toNat = 0 := fun hzero => htwo (.inr hzero)
        simp only [strncpy16to8, if_neg hthree, if_neg htwo, if_neg hnonzero,
          List.singleton_append]

theorem UnitForm.not_zero {uic : Nat} {bytes : List UInt8} (hform : UnitForm uic bytes) :
    (0 : UInt8) ∉ bytes := by
  have hne {b : UInt8} (hb : b.toNat ≠ 0) : (0 : UInt8) ≠ b := by
    rintro rfl
    exact hb rfl
  cases hform with
  | one hleader => simp [hne hleader.1]
  | two hleader hlow => simp [hne hleader.1, hne hlow.1]
  | three hleader hmiddle hlow => simp [hne hleader.1, hne hmiddle.1, hne hlow.1]

end UnitForms

section Decoding

private theorem join_low_six (x : Nat) : (x >>> 6) <<< 6 ||| (x &&& 0x3f) = x := by
  have hlow : x &&& 0x3f = x % 2 ^ 6 := Nat.and_two_pow_sub_one_eq_mod x 6
  rw [hlow, ← Nat.shiftLeft_add_eq_or_of_lt (Nat.mod_lt x (by decide)), Nat.shiftLeft_eq,
    Nat.shiftRight_eq_div_pow]
  omega

/-- One pass over a byte behind the leader appends its six bits. -/
private theorem getUtf32Rest_continues {more x : Nat} {b : UInt8} (s : List UInt8)
    (hx : x < 2 ^ 32) (hb : Continues (x &&& 0x3f) b) :
    getUtf32Rest (more + 1) (x >>> 6) (b :: s) = getUtf32Rest more x s := by
  obtain ⟨hnonzero, hclass, hbits⟩ := hb
  simp only [getUtf32Rest, if_neg hnonzero, hclass, ne_eq, not_true_eq_false, if_false, hbits,
    join_low_six, Nat.mod_eq_of_lt hx]

private theorem getUtf32FromUtf8_leads {n t : Nat} {b : UInt8} (s : List UInt8)
    (hb : Leads n t b) : getUtf32FromUtf8 (b :: s) = getUtf32Rest (n - 1) t s := by
  obtain ⟨hnonzero, hclass, hlength, hbits⟩ := hb
  simp only [getUtf32FromUtf8, if_neg hclass, hlength, hbits, if_neg hnonzero]

/-- The decoder reads back the unit, and stops right behind its bytes. -/
theorem UnitForm.decoded {uic : Nat} {bytes : List UInt8} (s : List UInt8)
    (huic : uic < 65536) (hform : UnitForm uic bytes) :
    getUtf32FromUtf8 (bytes ++ s) = some (uic, s) := by
  have hwhole : uic < 2 ^ 32 := by omega
  cases hform with
  | one hleader => exact getUtf32FromUtf8_leads s hleader
  | two hleader hlow =>
      rw [List.cons_append, getUtf32FromUtf8_leads _ hleader]
      exact getUtf32Rest_continues s hwhole hlow
  | three hleader hmiddle hlow =>
      have hupper : uic >>> 6 < 2 ^ 32 := by
        rw [Nat.shiftRight_eq_div_pow]
        omega
      have hsplit : uic >>> 12 = uic >>> 6 >>> 6 := Nat.shiftRight_add uic 6 6
      rw [List.cons_append, getUtf32FromUtf8_leads _ hleader, hsplit]
      exact (getUtf32Rest_continues _ hupper hmiddle).trans
        (getUtf32Rest_continues s hwhole hlow)

/-- The unit counts once, whatever the loop still expected before it. -/
theorem UnitForm.counted {w uic len : Nat} {expected : Int} {bytes : List UInt8}
    (s : List UInt8) (hlen : len + 1 < 2 ^ w) (hform : UnitForm uic bytes) :
    strlen8to16From w len expected (bytes ++ s) = strlen8to16From w (len + 1) 0 s := by
  have hleads {n t : Nat} {b : UInt8} (rest : List UInt8) (hn : n ≤ 3) (hb : Leads n t b) :
      strlen8to16From w len expected (b :: rest) =
        strlen8to16From w (len + 1) ((n : Int) - 1) rest := by
    obtain ⟨hnonzero, hclass, hlength, -⟩ := hb
    have hpair : ¬(n : Int) - 1 = 3 := by omega
    simp only [strlen8to16From, if_neg hnonzero, if_neg hclass, hlength, if_neg hpair,
      Nat.mod_eq_of_lt hlen]
  have hcontinues {t : Nat} {b : UInt8} {left : Int} (rest : List UInt8) (hleft : 0 < left)
      (hb : Continues t b) :
      strlen8to16From w (len + 1) left (b :: rest) =
        strlen8to16From w (len + 1) (left - 1) rest := by
    obtain ⟨hnonzero, hclass, -⟩ := hb
    have hexpected : ¬left - 1 < 0 := by omega
    have hrange : ¬left = INT_MIN := by
      unfold INT_MIN
      omega
    simp only [strlen8to16From, if_neg hnonzero, if_pos hclass, if_neg hrange, if_neg hexpected]
  cases hform with
  | one hleader => exact hleads s (by decide) hleader
  | two hleader hlow =>
      rw [List.cons_append, hleads _ (by decide) hleader]
      exact hcontinues s (by decide) hlow
  | three hleader hmiddle hlow =>
      rw [List.cons_append, hleads _ (by decide) hleader]
      exact (hcontinues _ (by decide) hmiddle).trans (hcontinues s (by decide) hlow)

end Decoding

section RoundTrip

/-- The size of the array in modified UTF-8, without bound. -/
def utf8Size (s : List UInt16) : Nat := (s.map fun u => unitSize u.toNat).sum

theorem unitSize_pos (uic : Nat) : 0 < unitSize uic := by
  unfold unitSize
  split_ifs <;> decide

theorem length_le_utf8Size (s : List UInt16) : s.length ≤ utf8Size s := by
  induction s with
  | nil => exact Nat.le_refl 0
  | cons u rest ih =>
      have hpos := unitSize_pos u.toNat
      simp only [utf8Size, List.map_cons, List.sum_cons, List.length_cons] at ih ⊢
      omega

/-- Below the limit the counter neither overflows nor saturates. -/
private theorem strnlen16to8From_eq {w : Nat} : ∀ (s : List UInt16) (utf8Len : Nat),
    utf8Len + utf8Size s < SIZE_MAX w - 1 →
      strnlen16to8From w utf8Len s = utf8Len + utf8Size s := by
  intro s
  induction s with
  | nil =>
      intro utf8Len hsize
      simp only [utf8Size, List.map_nil, List.sum_nil, Nat.add_zero] at hsize ⊢
      have hne : ¬utf8Len = SIZE_MAX w := by omega
      simp only [strnlen16to8From, if_neg hne]
  | cons u rest ih =>
      intro utf8Len hsize
      simp only [utf8Size, List.map_cons, List.sum_cons] at ih hsize ⊢
      have hsum : utf8Len + unitSize u.toNat < 2 ^ w := by
        unfold SIZE_MAX at hsize
        omega
      have hoverflow : ¬utf8Len + unitSize u.toNat < utf8Len := by omega
      simp only [strnlen16to8From, Nat.mod_eq_of_lt hsum, if_neg hoverflow]
      rw [ih _ (by omega)]
      omega

theorem strnlen16to8_eq {w : Nat} {s : List UInt16} (hsize : utf8Size s < SIZE_MAX w - 1) :
    strnlen16to8 w s = utf8Size s := by
  have hfrom : strnlen16to8From w 0 s = 0 + utf8Size s := strnlen16to8From_eq s 0 (by omega)
  rwa [Nat.zero_add] at hfrom

/-- The encoded string without its terminator: as long as counted, and free of
NUL. -/
theorem strncpy16to8_terminated (s : List UInt16) :
    ∃ bytes, strncpy16to8 s = bytes ++ [0] ∧ bytes.length = utf8Size s ∧
      (0 : UInt8) ∉ bytes := by
  induction s with
  | nil => exact ⟨[], rfl, rfl, List.not_mem_nil⟩
  | cons u rest ih =>
      obtain ⟨unit, hform, hlength, hcons⟩ := strncpy16to8_cons u rest
      obtain ⟨bytes, hbytes, hrest, hnul⟩ := ih
      refine ⟨unit ++ bytes, ?_, ?_, ?_⟩
      · rw [hcons, hbytes, List.append_assoc]
      · rw [List.length_append, hlength, hrest]
        simp only [utf8Size, List.map_cons, List.sum_cons]
      · rw [List.mem_append]
        rintro (hunit | hbytes)
        · exact hform.not_zero hunit
        · exact hnul hbytes

private theorem strlen8to16From_strncpy16to8 {w : Nat} : ∀ (s : List UInt16) (len : Nat)
    (expected : Int), len + s.length < 2 ^ w →
      strlen8to16From w len expected (strncpy16to8 s) = some (len + s.length) := by
  intro s
  induction s with
  | nil => exact fun len expected _ => rfl
  | cons u rest ih =>
      intro len expected hlen
      obtain ⟨unit, hform, -, hcons⟩ := strncpy16to8_cons u rest
      rw [List.length_cons] at hlen ⊢
      rw [hcons, hform.counted _ (by omega), ih (len + 1) 0 (by omega)]
      congr 1
      omega

private theorem utf16Units_unit (u : UInt16) : utf16Units u.toNat = [u] := by
  have hu : u.toNat ≤ 0xffff := Nat.le_of_lt_succ u.toNat_lt
  simp only [utf16Units, if_pos hu, UInt16.ofNat_toNat]

/-- Decoding gives the array back as soon as the fuel exceeds its length. -/
private theorem decodeUnits_strncpy16to8 : ∀ (s : List UInt16) (fuel : Nat), s.length < fuel →
    decodeUnits fuel (strncpy16to8 s) = some s := by
  intro s
  induction s with
  | nil =>
      intro fuel hfuel
      obtain ⟨fuel, rfl⟩ := Nat.exists_eq_add_one.mpr hfuel
      rfl
  | cons u rest ih =>
      intro fuel hfuel
      rw [List.length_cons] at hfuel
      obtain ⟨fuel, rfl⟩ := Nat.exists_eq_add_one.mpr (Nat.zero_lt_of_lt hfuel)
      obtain ⟨unit, hform, hlength, hcons⟩ := strncpy16to8_cons u rest
      have hcode := hform.decoded (strncpy16to8 rest) u.toNat_lt
      have hpos : 0 < unit.length := hlength ▸ unitSize_pos u.toNat
      obtain ⟨b, tail, rfl⟩ := List.exists_cons_of_length_pos hpos
      have hb : ¬b.toNat = 0 := by
        intro hzero
        have hnul : b = 0 := UInt8.toNat_inj.mp hzero
        exact hform.not_zero (hnul ▸ List.mem_cons_self)
      rw [hcons, List.cons_append]
      rw [List.cons_append] at hcode
      simp only [decodeUnits, if_neg hb, hcode, ih fuel (by omega), utf16Units_unit,
        Option.bind_eq_bind, Option.bind_some, Option.pure_def, List.singleton_append]

/-- `strncpy16to8` writes as many bytes as `strnlen16to8` counts, none of them
NUL, and a terminator. Unless an allocation fails, `strdup8to16` on the copy of
`strndup16to8` gives the units back. The array and its encoding are below the
limit of `size_t`. -/
theorem jstring_round_trip (w : Nat) (malloc : Nat → Bool) (s : List UInt16)
    (harray : 2 * s.length < SIZE_MAX w - 1) (hutf8 : utf8Size s < SIZE_MAX w - 1) :
    (∃ bytes, strncpy16to8 s = bytes ++ [0] ∧ bytes.length = strnlen16to8 w s ∧
      (0 : UInt8) ∉ bytes) ∧
    strdup8to16 w malloc (strndup16to8 w malloc (some s)) =
      if malloc (strnlen16to8 w s + 1) && malloc (2 * (s.length + 1)) then
        some ⟨s ++ [0], s.length⟩
      else none := by
  have hcount := strnlen16to8_eq hutf8
  obtain ⟨bytes, hbytes, hlength, hnul⟩ := strncpy16to8_terminated s
  refine ⟨⟨bytes, hbytes, by rw [hlength, hcount], hnul⟩, ?_⟩
  have hfits : ¬strnlen16to8 w s ≥ SIZE_MAX w - 1 := by omega
  simp only [strndup16to8, if_neg hfits]
  by_cases hfirst : malloc (strnlen16to8 w s + 1) = true
  · have hunits : strlen8to16 w (strncpy16to8 s) = some s.length := by
      have hbound : 0 + s.length < 2 ^ w := by
        unfold SIZE_MAX at harray
        omega
      have hfrom := strlen8to16From_strncpy16to8 s 0 0 hbound
      rwa [Nat.zero_add] at hfrom
    have hdecoded : decodeUnits (strncpy16to8 s).length (strncpy16to8 s) = some s := by
      apply decodeUnits_strncpy16to8
      rw [hbytes, List.length_append, hlength]
      exact Nat.lt_succ_of_le (length_le_utf8Size s)
    have hsmall : ¬s.length ≥ SIZE_MAX w / 2 := by omega
    simp only [hfirst, if_true, Bool.true_and, strdup8to16, Option.bind_eq_bind,
      Option.bind_some, hunits, if_neg hsmall, hdecoded, Nat.le_refl]
  · simp only [hfirst, if_false, Bool.false_and, strdup8to16, Option.bind_eq_bind,
      Option.bind_none, Bool.false_eq_true]

/-- A unit of each form, a unit 0 and an unpaired surrogate, on a 32-bit device. -/
theorem jstring_round_trip_units :
    strdup8to16 32 (fun _ => true)
      (strndup16to8 32 (fun _ => true) (some [0x41, 0, 0x430, 0xd800, 0xffff])) =
      some ⟨[0x41, 0, 0x430, 0xd800, 0xffff, 0], 5⟩ :=
  (jstring_round_trip 32 (fun _ => true) [0x41, 0, 0x430, 0xd800, 0xffff] (by decide)
    (by decide)).2

end RoundTrip

end MeizuM5c.Legacy
