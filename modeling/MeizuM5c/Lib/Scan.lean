import Mathlib.Tactic

/-!
Labelled half-open spans of a linear order, and the scan that merges two
ordered lists of spans. Each step of the scan cuts one piece off the front of
the lists; a piece says which span of either list covers it. What a list says
about a point is `lookup`, and the scan pairs the lookups of its two lists.
-/

namespace MeizuM5c.Lib

structure Span (T α : Type*) where
  lo : T
  hi : T
  item : α
deriving DecidableEq

section Spans

variable {T α : Type*} [LinearOrder T]

def Span.Has (s : Span T α) (x : T) : Prop := s.lo ≤ x ∧ x < s.hi

instance (s : Span T α) (x : T) : Decidable (s.Has x) := inferInstanceAs (Decidable (_ ∧ _))

/-- The label of the first span that covers a point. -/
def lookup : List (Span T α) → T → Option α
  | [], _ => none
  | s :: L, x => if s.Has x then some s.item else lookup L x

/-- Spans that follow each other without overlap; a span may be empty. -/
def Ordered (L : List (Span T α)) : Prop :=
  (∀ s ∈ L, s.lo ≤ s.hi) ∧ L.Pairwise (fun s t => s.hi ≤ t.lo)

/-- Every end and every label of the list has a property. -/
def Each (P : T → Prop) (Q : α → Prop) (L : List (Span T α)) : Prop :=
  ∀ s ∈ L, P s.lo ∧ P s.hi ∧ Q s.item

def IsEnd (L : List (Span T α)) (x : T) : Prop := ∃ s ∈ L, x = s.lo ∨ x = s.hi

theorem lookup_eq_none {L : List (Span T α)} {x : T} (h : ∀ s ∈ L, x < s.lo) :
    lookup L x = none := by
  induction L with
  | nil => rfl
  | cons s L ih =>
      have hs : ¬ s.Has x := fun hx => absurd (h s (by simp)) (not_lt.mpr hx.1)
      rw [lookup, if_neg hs]
      exact ih (fun t ht => h t (by simp [ht]))

theorem lookup_eq_some_iff {L : List (Span T α)} (h : Ordered L) {x : T} {a : α} :
    lookup L x = some a ↔ ∃ s ∈ L, s.Has x ∧ s.item = a := by
  induction L with
  | nil => simp [lookup]
  | cons s L ih =>
      have hL : Ordered L := ⟨fun t ht => h.1 t (by simp [ht]), (List.pairwise_cons.mp h.2).2⟩
      rw [lookup]
      split
      case isTrue hs =>
        constructor
        · intro ha
          exact ⟨s, by simp, hs, Option.some.inj ha⟩
        · rintro ⟨t, ht, htx, rfl⟩
          rcases List.mem_cons.mp ht with rfl | ht
          · rfl
          · have hst := (List.pairwise_cons.mp h.2).1 t ht
            exact absurd (hs.2.trans_le (hst.trans htx.1)) (lt_irrefl x)
      case isFalse hs =>
        rw [ih hL]
        constructor
        · rintro ⟨t, ht, hrest⟩
          exact ⟨t, by simp [ht], hrest⟩
        · rintro ⟨t, ht, htx, rfl⟩
          rcases List.mem_cons.mp ht with rfl | ht
          · exact absurd htx hs
          · exact ⟨t, ht, htx, rfl⟩

theorem lookup_singleton {s : Span T α} {x : T} {a : α} :
    lookup [s] x = some a ↔ s.Has x ∧ s.item = a := by
  rw [lookup, lookup]
  split
  case isTrue hx => simp [hx]
  case isFalse hx => simp [hx]

/-- A map that keeps the ends acts on the labels of the spans that are hit. -/
theorem lookup_map {β : Type*} {f : α → β} {g : Span T α → Span T β} {x : T}
    (hlo : ∀ s, (g s).lo = s.lo) (hhi : ∀ s, (g s).hi = s.hi)
    (hitem : ∀ s, s.Has x → (g s).item = f s.item) (L : List (Span T α)) :
    lookup (L.map g) x = (lookup L x).map f := by
  induction L with
  | nil => rfl
  | cons s L ih =>
      have hhas : (g s).Has x ↔ s.Has x := by rw [Span.Has, Span.Has, hlo, hhi]
      rw [List.map_cons, lookup, lookup, ih]
      by_cases hs : s.Has x
      · rw [if_pos hs, if_pos (hhas.mpr hs), hitem s hs]
        rfl
      · rw [if_neg hs, if_neg (fun h => hs (hhas.mp h))]

end Spans

section Taking

variable {T α : Type*} [LinearOrder T]

/-- How one list changes when a piece is cut off: it lies behind the piece, it
loses its first span, or it keeps the rest of that span. -/
inductive Take (lo hi : T) : List (Span T α) → Option α → List (Span T α) → Prop
  | keep {L : List (Span T α)} : (∀ s ∈ L, hi ≤ s.lo) → Take lo hi L none L
  | pop {s : Span T α} {L : List (Span T α)} :
      s.lo = lo → s.hi = hi → Take lo hi (s :: L) (some s.item) L
  | clip {s : Span T α} {L : List (Span T α)} :
      s.lo = lo → hi < s.hi → Take lo hi (s :: L) (some s.item) (⟨hi, s.hi, s.item⟩ :: L)

variable {lo hi : T} {L L' : List (Span T α)} {o : Option α}

theorem Take.ordered (h : Take lo hi L o L') (hL : Ordered L) : Ordered L' := by
  cases h with
  | keep _ => exact hL
  | pop _ _ => exact ⟨fun t ht => hL.1 t (by simp [ht]), (List.pairwise_cons.mp hL.2).2⟩
  | clip _ hhi =>
      obtain ⟨hfirst, hrest⟩ := List.pairwise_cons.mp hL.2
      refine ⟨?_, List.pairwise_cons.mpr ⟨hfirst, hrest⟩⟩
      intro t ht
      rcases List.mem_cons.mp ht with rfl | ht
      · exact hhi.le
      · exact hL.1 t (by simp [ht])

theorem Take.after (h : Take lo hi L o L') (hL : Ordered L) : ∀ s ∈ L', hi ≤ s.lo := by
  cases h with
  | keep hkeep => exact hkeep
  | pop _ hhi =>
      intro t ht
      rw [← hhi]
      exact (List.pairwise_cons.mp hL.2).1 t ht
  | clip _ hhi =>
      intro t ht
      rcases List.mem_cons.mp ht with rfl | ht
      · exact le_rfl
      · exact hhi.le.trans ((List.pairwise_cons.mp hL.2).1 t ht)

/-- The piece answers for the points it covers, the remaining list for all
others. -/
theorem Take.lookup (h : Take lo hi L o L') (hlohi : lo ≤ hi) (x : T) :
    Lib.lookup L x = if lo ≤ x ∧ x < hi then o else Lib.lookup L' x := by
  cases h with
  | keep hkeep =>
      split
      case isTrue hx => exact lookup_eq_none (fun s hs => hx.2.trans_le (hkeep s hs))
      case isFalse => rfl
  | pop hlo hhi =>
      subst hlo hhi
      rfl
  | @clip s L hlo hhi =>
      subst hlo
      rw [Lib.lookup, Lib.lookup]
      by_cases hx : s.lo ≤ x ∧ x < hi
      · rw [if_pos hx, if_pos (show s.Has x from ⟨hx.1, hx.2.trans hhi⟩)]
      · rw [if_neg hx]
        by_cases hs : s.Has x
        · have hpast : hi ≤ x := not_lt.mp (fun hlt => hx ⟨hs.1, hlt⟩)
          rw [if_pos hs, if_pos (show Span.Has (⟨hi, s.hi, s.item⟩ : Span T α) x from ⟨hpast, hs.2⟩)]
        · have hout : ¬ Span.Has (⟨hi, s.hi, s.item⟩ : Span T α) x :=
            fun hin => hs ⟨hlohi.trans hin.1, hin.2⟩
          rw [if_neg hs, if_neg hout]

theorem Take.lo_mem {a : α} (h : Take lo hi L (some a) L') : ∃ s ∈ L, s.lo = lo := by
  cases h with
  | @pop s L hlo _ => exact ⟨s, by simp, hlo⟩
  | @clip s L hlo _ => exact ⟨s, by simp, hlo⟩

theorem Take.each {P : T → Prop} {Q : α → Prop} (h : Take lo hi L o L') (hhi : P hi)
    (hL : Each P Q L) : Each P Q L' ∧ ∀ a, o = some a → Q a := by
  cases h with
  | keep _ => exact ⟨hL, fun a ha => by cases ha⟩
  | @pop s L _ _ =>
      refine ⟨fun t ht => hL t (by simp [ht]), ?_⟩
      rintro a ⟨⟩
      exact (hL s (by simp)).2.2
  | @clip s L _ _ =>
      have hs := hL s (by simp)
      constructor
      · intro t ht
        rcases List.mem_cons.mp ht with rfl | ht
        · exact ⟨hhi, hs.2⟩
        · exact hL t (by simp [ht])
      · rintro a ⟨⟩
        exact hs.2.2

end Taking

section Scanning

variable {T α β : Type*} [LinearOrder T]

/-- One step of the scan: the piece that is cut off and what is left of the
two lists. -/
structure ScanStep (T α β : Type*) where
  piece : Span T (Option α × Option β)
  left : List (Span T α)
  right : List (Span T β)

def scanStep : List (Span T α) → List (Span T β) → Option (ScanStep T α β)
  | [], [] => none
  | s :: L, [] => some ⟨⟨s.lo, s.hi, (some s.item, none)⟩, L, []⟩
  | [], t :: R => some ⟨⟨t.lo, t.hi, (none, some t.item)⟩, [], R⟩
  | s :: L, t :: R =>
      if s.lo < t.lo then
        if s.hi ≤ t.lo then some ⟨⟨s.lo, s.hi, (some s.item, none)⟩, L, t :: R⟩
        else some ⟨⟨s.lo, t.lo, (some s.item, none)⟩, ⟨t.lo, s.hi, s.item⟩ :: L, t :: R⟩
      else if t.lo < s.lo then
        if t.hi ≤ s.lo then some ⟨⟨t.lo, t.hi, (none, some t.item)⟩, s :: L, R⟩
        else some ⟨⟨t.lo, s.lo, (none, some t.item)⟩, s :: L, ⟨s.lo, t.hi, t.item⟩ :: R⟩
      else if s.hi < t.hi then
        some ⟨⟨s.lo, s.hi, (some s.item, some t.item)⟩, L, ⟨s.hi, t.hi, t.item⟩ :: R⟩
      else if t.hi < s.hi then
        some ⟨⟨s.lo, t.hi, (some s.item, some t.item)⟩, ⟨t.hi, s.hi, s.item⟩ :: L, R⟩
      else some ⟨⟨s.lo, s.hi, (some s.item, some t.item)⟩, L, R⟩

/-- Twice the spans that are left, and one more while the lists do not begin
at the same point. -/
def scanSize (L : List (Span T α)) (R : List (Span T β)) : Nat :=
  2 * (L.length + R.length) + if L.head?.map Span.lo = R.head?.map Span.lo then 0 else 1

private theorem scanSize_lt {L L' : List (Span T α)} {R R' : List (Span T β)}
    (h : L'.length + R'.length < L.length + R.length) : scanSize L' R' < scanSize L R := by
  unfold scanSize
  split <;> split <;> omega

private theorem scanSize_meet {s s' : Span T α} {t t' : Span T β} {L : List (Span T α)}
    {R : List (Span T β)} (h : s.lo ≠ t.lo) (h' : s'.lo = t'.lo) :
    scanSize (s' :: L) (t' :: R) < scanSize (s :: L) (t :: R) := by
  simp only [scanSize, List.head?_cons, Option.map_some, Option.some.injEq, h, h', if_true,
    if_false, List.length_cons]
  omega

theorem scanStep_size {L : List (Span T α)} {R : List (Span T β)} {st : ScanStep T α β}
    (h : scanStep L R = some st) : scanSize st.left st.right < scanSize L R := by
  unfold scanStep at h
  split at h
  case h_1 => cases h
  case h_2 =>
    cases h
    exact scanSize_lt (by simp)
  case h_3 =>
    cases h
    exact scanSize_lt (by simp)
  case h_4 s L t R =>
    -- Either a list loses a span, or the two begin at the same point now.
    split at h
    case isTrue hlt =>
      split at h
      · cases h
        exact scanSize_lt (by simp)
      · cases h
        exact scanSize_meet hlt.ne rfl
    case isFalse =>
      split at h
      case isTrue hlt =>
        split at h
        · cases h
          exact scanSize_lt (by simp)
        · cases h
          exact scanSize_meet hlt.ne' rfl
      case isFalse =>
        split at h
        · cases h
          exact scanSize_lt (by simp)
        · split at h
          · cases h
            exact scanSize_lt (by simp)
          · cases h
            exact scanSize_lt (by simp only [List.length_cons]; omega)

/-- The pieces of two lists, in order. -/
def scan (L : List (Span T α)) (R : List (Span T β)) : List (Span T (Option α × Option β)) :=
  match _h : scanStep L R with
  | none => []
  | some st => st.piece :: scan st.left st.right
termination_by scanSize L R
decreasing_by exact scanStep_size _h

theorem scan_nil {L : List (Span T α)} {R : List (Span T β)} (h : scanStep L R = none) :
    scan L R = [] := by
  rw [scan]
  split
  · rfl
  · rename_i st hst
    rw [h] at hst
    cases hst

theorem scan_cons {L : List (Span T α)} {R : List (Span T β)} {st : ScanStep T α β}
    (h : scanStep L R = some st) : scan L R = st.piece :: scan st.left st.right := by
  rw [scan]
  split
  · rename_i hst
    rw [h] at hst
    cases hst
  · rename_i st' hst
    rw [h] at hst
    cases hst
    rfl

theorem scanStep_of_scan {L : List (Span T α)} {R : List (Span T β)} {p : Span T (Option α × Option β)}
    {ps : List (Span T (Option α × Option β))} (h : scan L R = p :: ps) :
    ∃ st, scanStep L R = some st ∧ st.piece = p ∧ scan st.left st.right = ps := by
  cases hst : scanStep L R with
  | none =>
      rw [scan_nil hst] at h
      cases h
  | some st =>
      rw [scan_cons hst] at h
      cases h
      exact ⟨st, rfl, rfl, rfl⟩

/-- What a step does to either list, and the piece it cuts off. -/
structure StepSpec (L : List (Span T α)) (R : List (Span T β)) (st : ScanStep T α β) : Prop where
  left : Take st.piece.lo st.piece.hi L st.piece.item.1 st.left
  right : Take st.piece.lo st.piece.hi R st.piece.item.2 st.right
  covered : st.piece.item ≠ (none, none)
  le : st.piece.lo ≤ st.piece.hi
  isEnd : IsEnd L st.piece.hi ∨ IsEnd R st.piece.hi

theorem scanStep_spec {L : List (Span T α)} {R : List (Span T β)} {st : ScanStep T α β}
    (hL : Ordered L) (hR : Ordered R) (h : scanStep L R = some st) : StepSpec L R st := by
  unfold scanStep at h
  split at h
  case h_1 => cases h
  case h_2 s L =>
    cases h
    exact ⟨.pop rfl rfl, .keep (by simp), by simp, hL.1 s (by simp), .inl ⟨s, by simp, .inr rfl⟩⟩
  case h_3 t R =>
    cases h
    exact ⟨.keep (by simp), .pop rfl rfl, by simp, hR.1 t (by simp), .inr ⟨t, by simp, .inr rfl⟩⟩
  case h_4 s L t R =>
    have hs := hL.1 s (by simp)
    have ht := hR.1 t (by simp)
    have hsEnd : IsEnd (s :: L) s.hi ∨ IsEnd (t :: R) s.hi := .inl ⟨s, by simp, .inr rfl⟩
    have htEnd : IsEnd (s :: L) t.hi ∨ IsEnd (t :: R) t.hi := .inr ⟨t, by simp, .inr rfl⟩
    -- Everything behind the first span begins after it.
    have hbehindL : ∀ {x : T}, x ≤ s.lo → ∀ s' ∈ s :: L, x ≤ s'.lo := by
      intro x hx s' hs'
      rcases List.mem_cons.mp hs' with rfl | hs'
      · exact hx
      · exact (hx.trans hs).trans ((List.pairwise_cons.mp hL.2).1 s' hs')
    have hbehindR : ∀ {x : T}, x ≤ t.lo → ∀ t' ∈ t :: R, x ≤ t'.lo := by
      intro x hx t' ht'
      rcases List.mem_cons.mp ht' with rfl | ht'
      · exact hx
      · exact (hx.trans ht).trans ((List.pairwise_cons.mp hR.2).1 t' ht')
    split at h
    case isTrue hlt =>
      split at h
      case isTrue hhi =>
        cases h
        exact ⟨.pop rfl rfl, .keep (hbehindR hhi), by simp, hs, hsEnd⟩
      case isFalse hhi =>
        cases h
        exact ⟨.clip rfl (not_le.mp hhi), .keep (hbehindR le_rfl), by simp, hlt.le,
          .inr ⟨t, by simp, .inl rfl⟩⟩
    case isFalse hge =>
      split at h
      case isTrue hlt =>
        split at h
        case isTrue hhi =>
          cases h
          exact ⟨.keep (hbehindL hhi), .pop rfl rfl, by simp, ht, htEnd⟩
        case isFalse hhi =>
          cases h
          exact ⟨.keep (hbehindL le_rfl), .clip rfl (not_le.mp hhi), by simp, hlt.le,
            .inl ⟨s, by simp, .inl rfl⟩⟩
      case isFalse hle =>
        have hlo : t.lo = s.lo := le_antisymm (not_lt.mp hge) (not_lt.mp hle)
        split at h
        case isTrue hhi =>
          cases h
          exact ⟨.pop rfl rfl, .clip hlo hhi, by simp, hs, hsEnd⟩
        case isFalse hhi =>
          split at h
          case isTrue hhi' =>
            cases h
            exact ⟨.clip rfl hhi', .pop hlo rfl, by simp, hlo ▸ ht, htEnd⟩
          case isFalse hhi' =>
            cases h
            have heq : t.hi = s.hi := le_antisymm (not_lt.mp hhi) (not_lt.mp hhi')
            exact ⟨.pop rfl rfl, .pop hlo heq, by simp, hs, hsEnd⟩

/-- A piece begins where one of the lists does. -/
theorem StepSpec.begins {L : List (Span T α)} {R : List (Span T β)} {st : ScanStep T α β}
    (h : StepSpec L R st) :
    (∃ s ∈ L, s.lo = st.piece.lo) ∨ ∃ t ∈ R, t.lo = st.piece.lo := by
  have hleft := h.left
  have hright := h.right
  cases hl : st.piece.item.1 with
  | some a =>
      rw [hl] at hleft
      exact .inl hleft.lo_mem
  | none =>
      cases hr : st.piece.item.2 with
      | some b =>
          rw [hr] at hright
          exact .inr hright.lo_mem
      | none => exact absurd (Prod.ext hl hr) h.covered

theorem scan_eq_nil {L : List (Span T α)} {R : List (Span T β)} :
    scan L R = [] ↔ L = [] ∧ R = [] := by
  constructor
  · intro h
    cases hst : scanStep L R with
    | none =>
        match L, R, hst with
        | [], [], _ => exact ⟨rfl, rfl⟩
        | s :: L, t :: R, hst =>
            simp only [scanStep] at hst
            split_ifs at hst
    | some st =>
        rw [scan_cons hst] at h
        cases h
  · rintro ⟨rfl, rfl⟩
    exact scan_nil rfl

/-- The induction that every property of a scan uses. -/
theorem scan_induction
    {P : List (Span T α) → List (Span T β) → List (Span T (Option α × Option β)) → Prop}
    (hnil : P [] [] [])
    (hcons : ∀ L R st, Ordered L → Ordered R → StepSpec L R st →
      P st.left st.right (scan st.left st.right) →
        P L R (st.piece :: scan st.left st.right))
    {L : List (Span T α)} {R : List (Span T β)} (hL : Ordered L) (hR : Ordered R) :
    P L R (scan L R) := by
  induction hn : scanSize L R using Nat.strong_induction_on generalizing L R with
  | _ n ih =>
      cases h : scanStep L R with
      | none =>
          obtain ⟨rfl, rfl⟩ := scan_eq_nil.mp (scan_nil h)
          rw [scan_nil h]
          exact hnil
      | some st =>
          rw [scan_cons h]
          have hspec := scanStep_spec hL hR h
          apply hcons L R st hL hR hspec
          subst hn
          exact ih _ (scanStep_size h) (hspec.left.ordered hL) (hspec.right.ordered hR) rfl

/-- What two lookups at one point say together. -/
def pair : Option α → Option β → Option (Option α × Option β)
  | none, none => none
  | o, o' => some (o, o')

theorem pair_eq_none {o : Option α} {o' : Option β} : pair o o' = none ↔ o = none ∧ o' = none := by
  cases o <;> cases o' <;> simp [pair]

theorem eq_of_pair_eq_some {o : Option α} {o' : Option β} {item : Option α × Option β}
    (h : pair o o' = some item) : item = (o, o') := by
  cases o <;> cases o' <;> simp_all [pair]

private theorem pair_covered {o : Option α × Option β} (h : o ≠ (none, none)) :
    pair o.1 o.2 = some o := by
  obtain ⟨_ | a, _ | b⟩ := o
  · exact absurd rfl h
  · rfl
  · rfl
  · rfl

theorem lookup_scan {L : List (Span T α)} {R : List (Span T β)} (hL : Ordered L)
    (hR : Ordered R) (x : T) : lookup (scan L R) x = pair (lookup L x) (lookup R x) := by
  apply scan_induction (P := fun L R ps => lookup ps x = pair (lookup L x) (lookup R x)) _ _ hL hR
  · rfl
  · intro L R st hL hR hspec ih
    rw [lookup, hspec.left.lookup hspec.le x, hspec.right.lookup hspec.le x, ih]
    by_cases hx : st.piece.lo ≤ x ∧ x < st.piece.hi
    · rw [if_pos (show st.piece.Has x from hx), if_pos hx, if_pos hx]
      exact (pair_covered hspec.covered).symm
    · rw [if_neg (show ¬ st.piece.Has x from hx), if_neg hx, if_neg hx]

/-- The pieces are ordered and do not begin before the lists do. -/
theorem ordered_scan {L : List (Span T α)} {R : List (Span T β)} (hL : Ordered L)
    (hR : Ordered R) : Ordered (scan L R) ∧
      ∀ a, (∀ s ∈ L, a ≤ s.lo) → (∀ t ∈ R, a ≤ t.lo) → ∀ p ∈ scan L R, a ≤ p.lo := by
  apply scan_induction (P := fun L R ps => Ordered ps ∧
    ∀ a, (∀ s ∈ L, a ≤ s.lo) → (∀ t ∈ R, a ≤ t.lo) → ∀ p ∈ ps, a ≤ p.lo) _ _ hL hR
  · exact ⟨⟨by simp, List.Pairwise.nil⟩, by simp⟩
  · intro L R st hL hR hspec ih
    have hafter := ih.2 st.piece.hi (hspec.left.after hL) (hspec.right.after hR)
    constructor
    · refine ⟨?_, List.pairwise_cons.mpr ⟨hafter, ih.1.2⟩⟩
      intro p hp
      rcases List.mem_cons.mp hp with rfl | hp
      · exact hspec.le
      · exact ih.1.1 p hp
    · intro a haL haR
      have hfirst : a ≤ st.piece.lo := by
        rcases hspec.begins with ⟨s, hs, heq⟩ | ⟨t, ht, heq⟩
        · rw [← heq]
          exact haL s hs
        · rw [← heq]
          exact haR t ht
      intro p hp
      rcases List.mem_cons.mp hp with rfl | hp
      · exact hfirst
      · exact (hfirst.trans hspec.le).trans (hafter p hp)

theorem each_scan {P : T → Prop} {Q : α → Prop} {Q' : β → Prop} {L : List (Span T α)}
    {R : List (Span T β)} (hL : Ordered L) (hR : Ordered R) (hPL : Each P Q L)
    (hPR : Each P Q' R) :
    Each P (fun o => o ≠ (none, none) ∧ (∀ a, o.1 = some a → Q a) ∧ ∀ b, o.2 = some b → Q' b)
      (scan L R) := by
  apply scan_induction (P := fun L R ps => Each P Q L → Each P Q' R →
    Each P (fun o => o ≠ (none, none) ∧ (∀ a, o.1 = some a → Q a) ∧ ∀ b, o.2 = some b → Q' b) ps)
    _ _ hL hR hPL hPR
  · intro _ _ p hp
    cases hp
  · intro L R st hL hR hspec ih hPL hPR
    have hlo : P st.piece.lo := by
      rcases hspec.begins with ⟨s, hs, heq⟩ | ⟨t, ht, heq⟩
      · rw [← heq]
        exact (hPL s hs).1
      · rw [← heq]
        exact (hPR t ht).1
    have hhi : P st.piece.hi := by
      rcases hspec.isEnd with ⟨s, hs, heq | heq⟩ | ⟨t, ht, heq | heq⟩
      · rw [heq]
        exact (hPL s hs).1
      · rw [heq]
        exact (hPL s hs).2.1
      · rw [heq]
        exact (hPR t ht).1
      · rw [heq]
        exact (hPR t ht).2.1
    obtain ⟨hleft, hQ⟩ := hspec.left.each hhi hPL
    obtain ⟨hright, hQ'⟩ := hspec.right.each hhi hPR
    intro p hp
    rcases List.mem_cons.mp hp with rfl | hp
    · exact ⟨hlo, hhi, hspec.covered, hQ, hQ'⟩
    · exact ih hleft hright p hp

end Scanning

end MeizuM5c.Lib
