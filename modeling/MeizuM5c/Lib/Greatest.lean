import Mathlib.Tactic
import Mathlib.Order.Bounds.Basic

/-!
Running maxima over the values that a partial reading gives of a list of
items. Each fold is characterised by `IsGreatest`, so its result depends on
the set of readings alone and not on the order of the items.
-/

namespace MeizuM5c.Lib

variable {τ α : Type*}

/-- The values that some item of the list reads as. -/
def readings (read : τ → Option α) (items : List τ) : Set α :=
  {v | ∃ t ∈ items, read t = some v}

theorem readings_cons (read : τ → Option α) (t : τ) (items : List τ) :
    readings read (t :: items) = {v | read t = some v} ∪ readings read items := by
  ext v
  simp [readings]

variable [LinearOrder α]

/-- A running maximum that starts from a value. -/
def maxFrom (read : τ → Option α) (first : α) (items : List τ) : α :=
  items.foldl (fun best t =>
    match read t with
    | some v => max best v
    | none => best) first

theorem maxFrom_isGreatest (read : τ → Option α) (first : α) (items : List τ) :
    IsGreatest ({first} ∪ readings read items) (maxFrom read first items) := by
  induction items generalizing first with
  | nil => simp [maxFrom, readings]
  | cons t items ih =>
      rw [readings_cons]
      cases hread : read t with
      | none =>
          have hstep : maxFrom read first (t :: items) = maxFrom read first items := by
            simp [maxFrom, hread]
          rw [hstep]
          simpa using ih first
      | some v =>
          have hstep : maxFrom read first (t :: items) =
              maxFrom read (max first v) items := by
            simp [maxFrom, hread]
          rw [hstep]
          obtain ⟨hmem, hupper⟩ := ih (max first v)
          have hmax : max first v ≤ maxFrom read (max first v) items :=
            hupper (by simp)
          refine ⟨?_, ?_⟩
          · rcases hmem with hfirst | hrest
            · rw [Set.mem_singleton_iff] at hfirst
              rcases max_choice first v with hc | hc
              · exact Or.inl (by rw [hfirst, hc]; rfl)
              · exact Or.inr (Or.inl (by rw [hfirst, hc]; rfl))
            · exact Or.inr (Or.inr hrest)
          · rintro x (hx | hx | hx)
            · rw [Set.mem_singleton_iff] at hx
              rw [hx]
              exact (le_max_left first v).trans hmax
            · have hvx : v = x := Option.some.inj hx
              rw [← hvx]
              exact (le_max_right first v).trans hmax
            · exact hupper (Or.inr hx)

/-- A running maximum that starts with nothing. -/
def maxOpt (read : τ → Option α) (items : List τ) : Option α :=
  items.foldl (fun best t =>
    match read t with
    | some v => some (match best with
        | some b => max b v
        | none => v)
    | none => best) none

private theorem maxOpt_from (read : τ → Option α) (first : α) (items : List τ) :
    items.foldl (fun best t =>
      match read t with
      | some v => some (match best with
          | some b => max b v
          | none => v)
      | none => best) (some first) = some (maxFrom read first items) := by
  induction items generalizing first with
  | nil => rfl
  | cons t items ih =>
      cases hread : read t with
      | none => simp only [List.foldl_cons, hread, ih, maxFrom]
      | some v => simp only [List.foldl_cons, hread, ih, maxFrom]

theorem maxOpt_cons_none (read : τ → Option α) {t : τ} (items : List τ)
    (h : read t = none) : maxOpt read (t :: items) = maxOpt read items := by
  simp [maxOpt, h]

theorem maxOpt_cons_some (read : τ → Option α) {t : τ} {v : α} (items : List τ)
    (h : read t = some v) : maxOpt read (t :: items) = some (maxFrom read v items) := by
  simp only [maxOpt, List.foldl_cons, h, maxOpt_from]

/-- The running maximum is the greatest reading, and exists exactly when some
item can be read. -/
theorem maxOpt_eq_some_iff (read : τ → Option α) (items : List τ) (m : α) :
    maxOpt read items = some m ↔ IsGreatest (readings read items) m := by
  induction items with
  | nil => simp [maxOpt, readings, IsGreatest]
  | cons t items ih =>
      rw [readings_cons]
      cases hread : read t with
      | none => simpa [maxOpt_cons_none read items hread] using ih
      | some v =>
          rw [maxOpt_cons_some read items hread, Option.some.injEq]
          have hgreatest := maxFrom_isGreatest read v items
          have hset : {x | some v = some x} = ({v} : Set α) := by
            ext x
            simp [eq_comm]
          rw [hset]
          exact ⟨fun h => h ▸ hgreatest, fun h => hgreatest.unique h⟩

theorem maxOpt_eq_none_iff (read : τ → Option α) (items : List τ) :
    maxOpt read items = none ↔ ∀ t ∈ items, read t = none := by
  induction items with
  | nil => simp [maxOpt]
  | cons t items ih =>
      cases hread : read t with
      | none => simpa [maxOpt_cons_none read items hread, hread] using ih
      | some v => simp [maxOpt_cons_some read items hread, hread]

/-- The running maxima depend on the readings alone. -/
theorem maxFrom_congr {read : τ → Option α} {items others : List τ} (first : α)
    (h : readings read items = readings read others) :
    maxFrom read first items = maxFrom read first others := by
  have hitems := maxFrom_isGreatest read first items
  rw [h] at hitems
  exact hitems.unique (maxFrom_isGreatest read first others)

theorem maxOpt_congr {read : τ → Option α} {items others : List τ}
    (h : readings read items = readings read others) :
    maxOpt read items = maxOpt read others := by
  ext m
  rw [maxOpt_eq_some_iff, maxOpt_eq_some_iff, h]

/-- A further item is merged into the maximum so far. -/
theorem maxOpt_concat (read : τ → Option α) (items : List τ) (t : τ) :
    maxOpt read (items ++ [t]) = (maxOpt read items).merge max (read t) := by
  unfold maxOpt
  rw [List.foldl_append, List.foldl_cons, List.foldl_nil]
  generalize List.foldl _ none items = best
  cases read t with
  | none => simp
  | some v => cases best <;> simp

instance merge_max_comm : Std.Commutative (Option.merge (max : α → α → α)) where
  comm := by
    intro a b
    cases a <;> cases b <;> simp [max_comm]

instance merge_max_assoc : Std.Associative (Option.merge (max : α → α → α)) where
  assoc := by
    intro a b c
    cases a <;> cases b <;> cases c <;> simp [max_assoc]

theorem maxOpt_append (read : τ → Option α) (items others : List τ) :
    maxOpt read (items ++ others) = (maxOpt read items).merge max (maxOpt read others) := by
  induction others using List.reverseRecOn with
  | nil => simp [maxOpt]
  | append_singleton others t ih =>
      rw [← List.append_assoc, maxOpt_concat, maxOpt_concat, ih, merge_max_assoc.assoc]

/-- An item in the middle is merged in like one at the end. -/
theorem maxOpt_insert (read : τ → Option α) (before after : List τ) (t : τ) :
    maxOpt read (before ++ t :: after) =
      (maxOpt read (before ++ after)).merge max (read t) := by
  have hone : maxOpt read [t] = read t := by
    cases hread : read t <;> simp [maxOpt, hread]
  rw [← List.singleton_append, maxOpt_append, maxOpt_append, maxOpt_append, hone,
    merge_max_assoc.assoc, merge_max_comm.comm (read t)]

theorem le_merge_max {a b : Option α} {v : α} (h : a = some v) :
    ∃ v', a.merge max b = some v' ∧ v ≤ v' := by
  rw [h]
  cases b with
  | none => exact ⟨v, rfl, le_refl v⟩
  | some y => exact ⟨max v y, rfl, le_max_left v y⟩

theorem le_foldl_min_iff (read : τ → α) (first d : α) (items : List τ) :
    d ≤ items.foldl (fun best t => min best (read t)) first ↔
      d ≤ first ∧ ∀ t ∈ items, d ≤ read t := by
  induction items generalizing first with
  | nil => simp
  | cons t items ih => simp [ih, and_assoc]

theorem lt_foldl_min_iff (read : τ → α) (first d : α) (items : List τ) :
    d < items.foldl (fun best t => min best (read t)) first ↔
      d < first ∧ ∀ t ∈ items, d < read t := by
  induction items generalizing first with
  | nil => simp
  | cons t items ih => simp [ih, and_assoc]

/-- Field-by-field maximum of two rows; a row that is too short is first
extended with `bot`. -/
def fieldMax (bot : α) : List α → List α → List α
  | best, [] => best
  | [], x :: row => max bot x :: fieldMax bot [] row
  | b :: best, x :: row => max b x :: fieldMax bot best row

/-- Rows of different lengths are merged field by field. -/
theorem fieldMax_getElem? (bot : α) (best row : List α) (i : Nat)
    (hrow : ∀ x ∈ row, bot ≤ x) :
    (fieldMax bot best row)[i]? = best[i]?.merge max row[i]? := by
  induction row generalizing best i with
  | nil => cases best <;> simp [fieldMax]
  | cons x row ih =>
      have htail : ∀ y ∈ row, bot ≤ y := fun y hy => hrow y (by simp [hy])
      have hx : max bot x = x := max_eq_right (hrow x (by simp))
      cases best with
      | nil =>
          cases i with
          | zero => simp [fieldMax, hx]
          | succ i => simpa [fieldMax] using ih [] i htail
      | cons b best =>
          cases i with
          | zero => simp [fieldMax]
          | succ i => simpa [fieldMax] using ih best i htail

/-- Each field of a folded table is the greatest entry of that column, and
the field exists exactly when some row reaches it. -/
theorem foldl_fieldMax_getElem? (bot : α) (parse : τ → List α) (items : List τ)
    (hbot : ∀ t ∈ items, ∀ x ∈ parse t, bot ≤ x) (i : Nat) :
    (items.foldl (fun best t => fieldMax bot best (parse t)) [])[i]? =
      maxOpt (fun t => (parse t)[i]?) items := by
  induction items using List.reverseRecOn with
  | nil => simp [maxOpt]
  | append_singleton items t ih =>
      have hfront : ∀ t' ∈ items, ∀ x ∈ parse t', bot ≤ x :=
        fun t' ht' => hbot t' (by simp [ht'])
      rw [List.foldl_append, List.foldl_cons, List.foldl_nil, maxOpt_concat,
        fieldMax_getElem? bot _ (parse t) i (hbot t (by simp)), ih hfront]

/-- Every field of a merged row is a field of one of the two. -/
theorem le_of_mem_fieldMax {bot : α} {best row : List α} (hbest : ∀ x ∈ best, bot ≤ x)
    (hrow : ∀ x ∈ row, bot ≤ x) : ∀ x ∈ fieldMax bot best row, bot ≤ x := by
  intro x hx
  obtain ⟨i, hi⟩ := List.mem_iff_getElem?.mp hx
  rw [fieldMax_getElem? bot best row i hrow] at hi
  cases hb : best[i]? with
  | none =>
      rw [hb, Option.merge_none_left] at hi
      exact hrow x (List.mem_of_getElem? hi)
  | some b =>
      have hle := hbest b (List.mem_of_getElem? hb)
      cases hr : row[i]? with
      | none =>
          rw [hb, hr, Option.merge_none_right] at hi
          cases hi
          exact hle
      | some y =>
          rw [hb, hr, Option.merge_some_some] at hi
          cases hi
          exact le_max_of_le_left hle

theorem fieldMax_comm {bot : α} {a b : List α} (ha : ∀ x ∈ a, bot ≤ x) (hb : ∀ x ∈ b, bot ≤ x) :
    fieldMax bot a b = fieldMax bot b a := by
  apply List.ext_getElem?
  intro i
  rw [fieldMax_getElem? bot a b i hb, fieldMax_getElem? bot b a i ha, merge_max_comm.comm]

theorem fieldMax_assoc {bot : α} {a b c : List α} (hb : ∀ x ∈ b, bot ≤ x)
    (hc : ∀ x ∈ c, bot ≤ x) :
    fieldMax bot (fieldMax bot a b) c = fieldMax bot a (fieldMax bot b c) := by
  apply List.ext_getElem?
  intro i
  rw [fieldMax_getElem? bot _ c i hc, fieldMax_getElem? bot a b i hb,
    fieldMax_getElem? bot a _ i (le_of_mem_fieldMax hb hc), fieldMax_getElem? bot b c i hc,
    merge_max_assoc.assoc]

end MeizuM5c.Lib
