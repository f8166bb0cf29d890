import Mathlib.Data.List.Dedup
import MeizuM5c.Lib.LastSome

/-!
The last entry of each key in a log, the newest first. The `n` newest of them can be
kept without the rest of the log: a new entry goes to the front, and what was there of
its key is dropped.
-/

namespace MeizuM5c.Lib

variable {α β κ : Type} [DecidableEq κ] (key : α → κ)

/-- The entries of other keys. -/
def dropKey (k : κ) (l : List α) : List α := l.filter (fun a => decide (key a ≠ k))

/-- The newest entry of each key, of a log with its newest entry in front. -/
def newest : List α → List α
  | [] => []
  | a :: older => a :: dropKey key (key a) (newest older)

def recent (log : List α) : List α := newest key log.reverse

variable {key} {k : κ} {a : α} {l log : List α}

theorem mem_dropKey : a ∈ dropKey key k l ↔ a ∈ l ∧ key a ≠ k := by
  simp [dropKey]

theorem dropKey_of_forall_ne (h : ∀ a ∈ l, key a ≠ k) : dropKey key k l = l := by
  apply List.filter_eq_self.mpr
  intro a ha
  exact decide_eq_true (h a ha)

theorem dropKey_cons : dropKey key k (a :: l) =
    if key a = k then dropKey key k l else a :: dropKey key k l := by
  unfold dropKey
  rw [List.filter_cons]
  by_cases hk : key a = k
  · simp [hk]
  · simp [hk]

/-- Of distinct keys only one is dropped. -/
theorem dropKey_append_cons {before after : List α}
    (hnodup : ((before ++ a :: after).map key).Nodup) :
    dropKey key (key a) (before ++ a :: after) = before ++ after := by
  rw [(List.perm_middle.map key).nodup_iff, List.map_cons, List.nodup_cons] at hnodup
  have hothers : ∀ b ∈ before ++ after, key b ≠ key a := by
    intro b hb heq
    exact hnodup.1 (heq ▸ List.mem_map_of_mem hb)
  rw [dropKey, List.filter_append, List.filter_cons_of_neg (by simp), ← List.filter_append]
  exact dropKey_of_forall_ne hothers

@[simp] theorem recent_nil : recent key ([] : List α) = [] := rfl

theorem recent_concat : recent key (log ++ [a]) = a :: dropKey key (key a) (recent key log) := by
  rw [recent, List.reverse_append]
  rfl

section Keys

theorem dedup_concat (ks : List κ) (k : κ) :
    (ks ++ [k]).dedup = ks.dedup.filter (fun k' => decide (k' ≠ k)) ++ [k] := by
  induction ks with
  | nil => rfl
  | cons k' ks ih =>
      rw [List.cons_append, List.dedup_cons, List.dedup_cons, ih]
      by_cases hk : k' = k
      · have hmem : k' ∈ ks ++ [k] := by simp [hk]
        rw [if_pos hmem]
        by_cases hks : k' ∈ ks
        · rw [if_pos hks]
        · rw [if_neg hks, List.filter_cons_of_neg (by simpa using hk)]
      · by_cases hks : k' ∈ ks
        · rw [if_pos (List.mem_append_left _ hks), if_pos hks]
        · have hmem : k' ∉ ks ++ [k] := by simp [hk, hks]
          rw [if_neg hmem, if_neg hks, List.filter_cons_of_pos (by simpa using hk),
            List.cons_append]

theorem map_key_dropKey : (dropKey key k l).map key =
    (l.map key).filter (fun k' => decide (k' ≠ k)) := by
  rw [List.filter_map]
  rfl

/-- The keys in the order of their last entries, the newest first. -/
theorem map_key_recent (log : List α) :
    (recent key log).map key = (log.map key).dedup.reverse := by
  induction log using List.reverseRecOn with
  | nil => rfl
  | append_singleton log a ih =>
      rw [recent_concat, List.map_cons, map_key_dropKey, ih, List.map_append, List.map_singleton,
        dedup_concat, List.reverse_append, List.filter_reverse]
      rfl

theorem nodup_recent (log : List α) : ((recent key log).map key).Nodup := by
  rw [map_key_recent, List.nodup_reverse]
  exact List.nodup_dedup _

/-- What depends on a key comes from the last entry of the key. -/
theorem lastSome_of_mem_recent {f : α → Option β} (hmem : a ∈ recent key log)
    (hf : ∀ b, key b ≠ key a → f b = none) (ha : f a ≠ none) : lastSome f log = f a := by
  induction log using List.reverseRecOn with
  | nil => cases hmem
  | append_singleton log b ih =>
      rw [recent_concat] at hmem
      rw [lastSome_append, lastSome_cons, lastSome_nil, Option.none_or]
      rcases List.mem_cons.mp hmem with rfl | hold
      · obtain ⟨x, hx⟩ := Option.ne_none_iff_exists'.mp ha
        rw [hx, Option.some_or]
      · obtain ⟨hold, hne⟩ := mem_dropKey.mp hold
        rw [hf b hne.symm, Option.none_or, ih hold]

end Keys

section Newest

/-- To keep the first `n` of distinct keys, no others are needed. -/
theorem take_dropKey (hnodup : (l.map key).Nodup) (n : Nat) :
    (dropKey key k l).take n = (dropKey key k (l.take (n + 1))).take n := by
  induction l generalizing n with
  | nil => rfl
  | cons a l ih =>
      rw [List.map_cons, List.nodup_cons] at hnodup
      rw [List.take_succ_cons, dropKey_cons, dropKey_cons]
      by_cases hk : key a = k
      · have hothers : ∀ b ∈ l, key b ≠ k := by
          intro b hb heq
          exact hnodup.1 (hk ▸ heq ▸ List.mem_map_of_mem hb)
        rw [if_pos hk, if_pos hk, dropKey_of_forall_ne hothers,
          dropKey_of_forall_ne (fun b hb => hothers b (List.mem_of_mem_take hb)),
          List.take_take, Nat.min_self]
      · rw [if_neg hk, if_neg hk]
        cases n with
        | zero => rfl
        | succ n => rw [List.take_succ_cons, List.take_succ_cons, ih hnodup.2]

theorem take_recent_concat (n : Nat) : (recent key (log ++ [a])).take n =
    (a :: dropKey key (key a) ((recent key log).take n)).take n := by
  rw [recent_concat]
  cases n with
  | zero => rfl
  | succ n => rw [List.take_succ_cons, List.take_succ_cons, take_dropKey (nodup_recent log)]

end Newest

end MeizuM5c.Lib
