import MeizuM5c.Lib.Scan

/-!
Coalescing of labelled spans. A span that touches the last one of a list and
carries the same label extends it; any other span is appended. What the list
says about a point does not depend on this, and a list built so has no two
neighbours that could still be joined.
-/

namespace MeizuM5c.Lib

variable {T α : Type*} [LinearOrder T]

theorem lookup_append (L R : List (Span T α)) (x : T) :
    lookup (L ++ R) x = (lookup L x).or (lookup R x) := by
  induction L with
  | nil => simp [lookup]
  | cons s L ih =>
      rw [List.cons_append, lookup, lookup, ih]
      split <;> simp

/-- The last span and a further one can be joined. -/
def Joins (c b : Span T α) : Prop := c.hi = b.lo ∧ c.item = b.item

instance [DecidableEq α] (c b : Span T α) : Decidable (Joins c b) := inferInstanceAs (Decidable (_ ∧ _))

/-- Nonempty spans in order, no two neighbours of which can be joined. -/
structure Coalesced (D : List (Span T α)) : Prop where
  nonempty : ∀ s ∈ D, s.lo < s.hi
  ordered : D.Pairwise (fun s t => s.hi ≤ t.lo)
  apart : D.IsChain (fun s t => ¬ Joins s t)

theorem Coalesced.toOrdered {D : List (Span T α)} (h : Coalesced D) : Ordered D :=
  ⟨fun s hs => (h.nonempty s hs).le, h.ordered⟩

theorem Coalesced.nil : Coalesced ([] : List (Span T α)) :=
  ⟨by simp, List.Pairwise.nil, List.IsChain.nil⟩

/-- Not only neighbours: no two spans of the list can be joined. -/
theorem Coalesced.pairwise_apart {D : List (Span T α)} (h : Coalesced D) :
    D.Pairwise (fun s t => ¬ Joins s t) := by
  induction D with
  | nil => exact List.Pairwise.nil
  | cons s D ih =>
      obtain ⟨hfirst, hrest⟩ := List.pairwise_cons.mp h.ordered
      have hD : Coalesced D :=
        ⟨fun t ht => h.nonempty t (by simp [ht]), hrest, h.apart.tail⟩
      refine List.pairwise_cons.mpr ⟨?_, ih hD⟩
      intro u hu hjoin
      cases D with
      | nil => cases hu
      | cons t D =>
          rcases List.mem_cons.mp hu with rfl | hu
          · exact (List.isChain_cons_cons.mp h.apart).1 hjoin
          · -- A span in between leaves no room for the two to touch.
            have htu := (List.pairwise_cons.mp hrest).1 u hu
            have hst := hfirst t (by simp)
            exact absurd ((hst.trans_lt (h.nonempty t (by simp))).trans_le htu) hjoin.1.not_lt

/-- The first span begins the list. -/
theorem Coalesced.head_lo_le {D : List (Span T α)} (h : Coalesced D) (hne : D ≠ []) :
    ∀ s ∈ D, (D.head hne).lo ≤ s.lo := by
  intro s hs
  obtain ⟨c, D, rfl⟩ := List.exists_cons_of_ne_nil hne
  rcases List.mem_cons.mp hs with rfl | hs
  · exact le_rfl
  · exact (h.nonempty c (by simp)).le.trans ((List.pairwise_cons.mp h.ordered).1 s hs)

/-- The last span ends the list. -/
theorem Coalesced.le_getLast_hi {D : List (Span T α)} (h : Coalesced D) (hne : D ≠ []) :
    ∀ s ∈ D, s.hi ≤ (D.getLast hne).hi := by
  intro s hs
  obtain ⟨D, c, rfl⟩ := (List.eq_nil_or_concat' D).resolve_left hne
  rw [List.getLast_concat]
  rcases List.mem_append.mp hs with hs | hs
  · have hsc := (List.pairwise_append.mp h.ordered).2.2 s hs c (by simp)
    exact hsc.trans (h.nonempty c (by simp)).le
  · rw [List.mem_singleton.mp hs]

variable [DecidableEq α]

def push (D : List (Span T α)) (b : Span T α) : List (Span T α) :=
  match D.getLast? with
  | none => [b]
  | some c => if Joins c b then D.dropLast ++ [⟨c.lo, b.hi, c.item⟩] else D ++ [b]

@[simp] theorem push_nil (b : Span T α) : push [] b = [b] := rfl

theorem push_join {D : List (Span T α)} {b c : Span T α} (h : Joins c b) :
    push (D ++ [c]) b = D ++ [⟨c.lo, b.hi, c.item⟩] := by
  simp [push, h]

theorem push_append {D : List (Span T α)} {b c : Span T α} (h : ¬ Joins c b) :
    push (D ++ [c]) b = D ++ [c] ++ [b] := by
  simp [push, h]

theorem Coalesced.push {D : List (Span T α)} {b : Span T α} (h : Coalesced D) (hb : b.lo < b.hi)
    (hafter : ∀ s ∈ D, s.hi ≤ b.lo) : Coalesced (push D b) := by
  rcases List.eq_nil_or_concat' D with rfl | ⟨D, c, rfl⟩
  · exact ⟨by simpa using hb, by simp, by simp⟩
  · have hc := h.nonempty c (by simp)
    have hcb := hafter c (by simp)
    obtain ⟨hD, -, hDc⟩ := List.pairwise_append.mp h.ordered
    by_cases hjoin : Joins c b
    · rw [push_join hjoin]
      constructor
      · intro s hs
        rcases List.mem_append.mp hs with hs | hs
        · exact h.nonempty s (by simp [hs])
        · rw [List.mem_singleton.mp hs]
          exact hc.trans_le (hcb.trans hb.le)
      · refine List.pairwise_append.mpr ⟨hD, by simp, ?_⟩
        intro s hs t ht
        rw [List.mem_singleton.mp ht]
        exact hDc s hs c (by simp)
      · -- The joined span begins where the last one did, with its label.
        have hapart := h.apart
        rw [List.isChain_append] at hapart ⊢
        refine ⟨hapart.1, by simp, ?_⟩
        intro s hs t ht hst
        obtain rfl : t = ⟨c.lo, b.hi, c.item⟩ := by simpa using ht.symm
        exact hapart.2.2 s hs c (by simp) hst
    · rw [push_append hjoin]
      constructor
      · intro s hs
        rcases List.mem_append.mp hs with hs | hs
        · exact h.nonempty s hs
        · rw [List.mem_singleton.mp hs]
          exact hb
      · refine List.pairwise_append.mpr ⟨h.ordered, by simp, ?_⟩
        intro s hs t ht
        rw [List.mem_singleton.mp ht]
        exact hafter s hs
      · rw [List.isChain_append]
        refine ⟨h.apart, by simp, ?_⟩
        intro s hs t ht
        obtain rfl : s = c := by simpa using hs.symm
        obtain rfl : t = b := by simpa using ht.symm
        exact hjoin

theorem lookup_push {D : List (Span T α)} {b : Span T α} (hD : ∀ s ∈ D, s.lo ≤ s.hi)
    (hb : b.lo ≤ b.hi) (x : T) : lookup (push D b) x = lookup (D ++ [b]) x := by
  rcases List.eq_nil_or_concat' D with rfl | ⟨D, c, rfl⟩
  · rfl
  · by_cases hjoin : Joins c b
    · rw [push_join hjoin, List.append_assoc, lookup_append, lookup_append]
      congr 1
      have hc := hD c (by simp)
      obtain ⟨hmeet, hitem⟩ := hjoin
      simp only [List.singleton_append, lookup]
      by_cases hx : Span.Has (⟨c.lo, b.hi, c.item⟩ : Span T α) x
      · rw [if_pos hx]
        by_cases hxc : x < c.hi
        · rw [if_pos (show c.Has x from ⟨hx.1, hxc⟩)]
        · have hxb : b.Has x := ⟨hmeet ▸ not_lt.mp hxc, hx.2⟩
          rw [if_neg (fun h : c.Has x => hxc h.2), if_pos hxb, hitem]
      · have hxc : ¬ c.Has x := fun h => hx ⟨h.1, h.2.trans_le (hmeet ▸ hb)⟩
        have hxb : ¬ b.Has x := fun h => hx ⟨hc.trans (hmeet ▸ h.1), h.2⟩
        rw [if_neg hx, if_neg hxc, if_neg hxb]
    · rw [push_append hjoin]

/-- The ends and labels of a list are those that were pushed. -/
theorem Each.push {P : T → Prop} {Q : α → Prop} {D : List (Span T α)} {b : Span T α}
    (hD : Each P Q D) (hb : P b.lo ∧ P b.hi ∧ Q b.item) : Each P Q (push D b) := by
  rcases List.eq_nil_or_concat' D with rfl | ⟨D, c, rfl⟩
  · simpa [Each] using hb
  · have hc := hD c (by simp)
    by_cases hjoin : Joins c b
    · rw [push_join hjoin]
      intro s hs
      rcases List.mem_append.mp hs with hs | hs
      · exact hD s (by simp [hs])
      · rw [List.mem_singleton.mp hs]
        exact ⟨hc.1, hb.2.1, hc.2.2⟩
    · rw [push_append hjoin]
      intro s hs
      rcases List.mem_append.mp hs with hs | hs
      · exact hD s hs
      · rw [List.mem_singleton.mp hs]
        exact hb

theorem push_hi_le {D : List (Span T α)} {b : Span T α} {y : T} (hD : ∀ s ∈ D, s.hi ≤ y)
    (hb : b.hi ≤ y) : ∀ s ∈ push D b, s.hi ≤ y := by
  rcases List.eq_nil_or_concat' D with rfl | ⟨D, c, rfl⟩
  · simpa using hb
  · by_cases hjoin : Joins c b
    · rw [push_join hjoin]
      intro s hs
      rcases List.mem_append.mp hs with hs | hs
      · exact hD s (by simp [hs])
      · rw [List.mem_singleton.mp hs]
        exact hb
    · rw [push_append hjoin]
      intro s hs
      rcases List.mem_append.mp hs with hs | hs
      · exact hD s hs
      · rw [List.mem_singleton.mp hs]
        exact hb

def coalesce (L : List (Span T α)) : List (Span T α) := L.foldl push []

theorem foldl_push {L D : List (Span T α)} (hD : Coalesced D) (hL : ∀ s ∈ L, s.lo < s.hi)
    (hordered : (D ++ L).Pairwise (fun s t => s.hi ≤ t.lo)) :
    Coalesced (L.foldl push D) ∧ ∀ x, lookup (L.foldl push D) x = lookup (D ++ L) x := by
  induction L generalizing D with
  | nil => exact ⟨hD, fun x => by rw [List.append_nil]; rfl⟩
  | cons b L ih =>
      have hb := hL b (by simp)
      obtain ⟨-, hrest, hafter⟩ := List.pairwise_append.mp hordered
      obtain ⟨hfirst, hL'⟩ := List.pairwise_cons.mp hrest
      have hpush := hD.push hb (fun s hs => hafter s hs b (by simp))
      have hnext : (push D b ++ L).Pairwise (fun s t => s.hi ≤ t.lo) := by
        refine List.pairwise_append.mpr ⟨hpush.ordered, hL', ?_⟩
        intro s hs t ht
        exact push_hi_le (fun s hs => hafter s hs t (by simp [ht])) (hfirst t ht) s hs
      obtain ⟨hcoalesced, hlookup⟩ := ih hpush (fun s hs => hL s (by simp [hs])) hnext
      refine ⟨hcoalesced, fun x => ?_⟩
      have hle : ∀ s ∈ D, s.lo ≤ s.hi := fun s hs => (hD.nonempty s hs).le
      rw [List.foldl_cons, hlookup x, lookup_append, lookup_push hle hb.le, ← lookup_append,
        List.append_assoc, List.singleton_append]

theorem coalesced_coalesce {L : List (Span T α)} (hL : ∀ s ∈ L, s.lo < s.hi)
    (hordered : L.Pairwise (fun s t => s.hi ≤ t.lo)) : Coalesced (coalesce L) :=
  (foldl_push Coalesced.nil hL hordered).1

theorem lookup_coalesce {L : List (Span T α)} (hL : ∀ s ∈ L, s.lo < s.hi)
    (hordered : L.Pairwise (fun s t => s.hi ≤ t.lo)) (x : T) :
    lookup (coalesce L) x = lookup L x :=
  (foldl_push Coalesced.nil hL hordered).2 x

theorem Each.foldl_push {P : T → Prop} {Q : α → Prop} {L D : List (Span T α)} (hD : Each P Q D)
    (hL : Each P Q L) : Each P Q (L.foldl Lib.push D) := by
  induction L generalizing D with
  | nil => exact hD
  | cons b L ih => exact ih (hD.push (hL b (by simp))) (fun s hs => hL s (by simp [hs]))

theorem Each.coalesce {P : T → Prop} {Q : α → Prop} {L : List (Span T α)} (hL : Each P Q L) :
    Each P Q (coalesce L) :=
  Each.foldl_push (fun s hs => by cases hs) hL

theorem push_ne_nil (D : List (Span T α)) (b : Span T α) : push D b ≠ [] := by
  rcases List.eq_nil_or_concat' D with rfl | ⟨D, c, rfl⟩
  · simp
  · by_cases hjoin : Joins c b
    · simp [push_join hjoin]
    · simp [push_append hjoin]

theorem foldl_push_eq_nil {L D : List (Span T α)} : L.foldl push D = [] ↔ D = [] ∧ L = [] := by
  induction L generalizing D with
  | nil => simp
  | cons b L ih => simp [ih, push_ne_nil]

end MeizuM5c.Lib
