import Mathlib.Tactic

/-!
Labelled transition systems and loops that thread a state. `Reachable` comes
with its one induction rule, and `Run.ends` bounds how long something can go on;
`visits` names the state in which a threaded loop reaches each element, so that
facts about one iteration become facts about every iteration.
-/

namespace MeizuM5c.Lib

section Reachability

variable {S A : Type*}

/-- The states that finitely many steps reach from an initial state. -/
inductive Reachable (start : S → Prop) (step : S → A → S → Prop) : S → Prop
  | init {s : S} : start s → Reachable start step s
  | step {s t : S} {a : A} : Reachable start step s → step s a t → Reachable start step t

/-- One more step, under its label. -/
theorem Reachable.next {start : S → Prop} {step : S → A → S → Prop} {s : S}
    (h : Reachable start step s) (a : A) {t : S} (hstep : step s a t) :
    Reachable start step t :=
  Reachable.step h hstep

/-- An invariant that holds initially and is kept by every step holds in
every reachable state. -/
theorem Reachable.invariant {start : S → Prop} {step : S → A → S → Prop}
    {P : S → Prop} (hstart : ∀ s, start s → P s)
    (hstep : ∀ s a t, P s → step s a t → P t)
    {s : S} (h : Reachable start step s) : P s := by
  induction h with
  | init hs => exact hstart _ hs
  | step _ hs ih => exact hstep _ _ _ ih hs

/-- A run with its labels, in their order. -/
inductive Run (step : S → A → S → Prop) : S → List A → S → Prop
  | nil (s : S) : Run step s [] s
  | cons {s t u : S} {a : A} {as : List A} : step s a t → Run step t as u → Run step s (a :: as) u

theorem Run.invariant {step : S → A → S → Prop} {P : S → Prop}
    (hstep : ∀ s a t, P s → step s a t → P t) {s t : S} {as : List A} (h : Run step s as t)
    (hs : P s) : P t := by
  induction h with
  | nil s => exact hs
  | cons hfirst _ ih => exact ih (hstep _ _ _ hs hfirst)

/-- A run from a reachable state stays within the reachable ones. -/
theorem Run.reachable {start : S → Prop} {step : S → A → S → Prop} {s t : S} {as : List A}
    (h : Run step s as t) (hs : Reachable start step s) : Reachable start step t := by
  induction h with
  | nil s => exact hs
  | cons hfirst _ ih => exact ih (hs.step hfirst)

/-- Where the steps are computed, a run is their fold. -/
theorem Run.of_foldlM {perform : S → A → Option S} {s t : S} {as : List A}
    (h : as.foldlM perform s = some t) : Run (fun s a t => perform s a = some t) s as t := by
  induction as generalizing s with
  | nil =>
      cases h
      exact .nil _
  | cons a as ih =>
      rw [List.foldlM_cons] at h
      obtain ⟨u, hfirst, hrest⟩ := Option.bind_eq_some_iff.mp h
      exact .cons hfirst (ih hrest)

/-- A run that lowers a rank with each of its own steps has no more of them than the rank
has room for. -/
theorem Run.count_le {step : S → A → S → Prop} {during : S → Prop} {own : A → Bool}
    {rank : S → Nat} (hstep : ∀ s a t, during s → step s a t →
      during t ∧ rank t + (if own a then 1 else 0) ≤ rank s)
    {s t : S} {as : List A} (h : Run step s as t) (hs : during s) :
    rank t + as.countP own ≤ rank s := by
  induction h with
  | nil s => simp
  | @cons s t u a as hfirst hrest ih =>
      obtain ⟨hgoing, hrank⟩ := hstep s a t hs hfirst
      have hcount := ih hgoing
      rw [List.countP_cons]
      omega

/-- What is going on comes to an end: each of its own steps lowers a rank, the other steps
do not raise it, and it does not start again. -/
theorem Run.ends {step : S → A → S → Prop} {during ended : S → Prop} {own : A → Bool}
    {rank : S → Nat} (hended : ∀ s a t, ended s → step s a t → ended t)
    (hstep : ∀ s a t, during s → step s a t →
      ended t ∨ (during t ∧ rank t + (if own a then 1 else 0) ≤ rank s))
    {s t : S} {as : List A} (h : Run step s as t) (hs : during s)
    (hcount : rank s < as.countP own) : ended t := by
  induction h with
  | nil s => simp at hcount
  | @cons s t u a as hfirst hrest ih =>
      rcases hstep s a t hs hfirst with hend | ⟨hgoing, hrank⟩
      · exact hrest.invariant hended hend
      · rw [List.countP_cons] at hcount
        apply ih hgoing
        omega

end Reachability

section Threading

variable {α β σ : Type*}

/-- A loop over a list whose body also reads and updates a threaded state. -/
def threadMap (body : α → σ → β × σ) : List α → σ → List β × σ
  | [], w => ([], w)
  | x :: xs, w =>
      let (y, w) := body x w
      let (ys, w) := threadMap body xs w
      (y :: ys, w)

/-- The elements of the loop, each with the state in which it is visited. -/
def visits (body : α → σ → β × σ) : List α → σ → List (α × σ)
  | [], _ => []
  | x :: xs, w => (x, w) :: visits body xs (body x w).2

theorem threadMap_fst (body : α → σ → β × σ) (xs : List α) (w : σ) :
    (threadMap body xs w).1 = (visits body xs w).map (fun v => (body v.1 v.2).1) := by
  induction xs generalizing w with
  | nil => rfl
  | cons x xs ih =>
      simp only [threadMap, visits, List.map_cons]
      rw [ih]

@[simp] theorem visits_map_fst (body : α → σ → β × σ) (xs : List α) (w : σ) :
    (visits body xs w).map Prod.fst = xs := by
  induction xs generalizing w with
  | nil => rfl
  | cons x xs ih => simp [visits, ih]

/-- A loop whose body only adds entries to a log makes the log of its visits. -/
theorem threadMap_logged {τ : Type*} {body : α → σ → β × σ}
    {logged : α → σ × List τ → β × σ × List τ} {entry : α → σ → Option τ}
    (h : ∀ x w log, logged x (w, log) =
      ((body x w).1, (body x w).2, log ++ (entry x w).toList)) (xs : List α) (w : σ)
    (log : List τ) :
    threadMap logged xs (w, log) = ((threadMap body xs w).1, (threadMap body xs w).2,
      log ++ (visits body xs w).filterMap (fun v => entry v.1 v.2)) := by
  induction xs generalizing w log with
  | nil => simp [threadMap, visits]
  | cons x xs ih =>
      simp only [threadMap, visits, h, ih, List.filterMap_cons]
      cases entry x w with
      | none => simp
      | some t => simp

/-- A property that the body establishes for every element in every state
holds of everything the loop produces. -/
theorem forall_mem_threadMap {body : α → σ → β × σ} {xs : List α} {P : β → Prop}
    (h : ∀ x ∈ xs, ∀ w, P (body x w).1) (w : σ) :
    ∀ y ∈ (threadMap body xs w).1, P y := by
  induction xs generalizing w with
  | nil => simp [threadMap]
  | cons x xs ih =>
      intro y hy
      simp only [threadMap, List.mem_cons] at hy
      rcases hy with rfl | hy
      · exact h x (by simp) w
      · exact ih (fun x' hx' => h x' (by simp [hx'])) _ y hy

/-- A property of the state that the body keeps holds at every visit, and
after the loop. -/
theorem visits_kept {body : α → σ → β × σ} {P : σ → Prop} {xs : List α}
    (h : ∀ x ∈ xs, ∀ w, P w → P (body x w).2) {w : σ} (hw : P w) :
    (∀ v ∈ visits body xs w, P v.2) ∧ P (threadMap body xs w).2 := by
  induction xs generalizing w with
  | nil => exact ⟨nofun, hw⟩
  | cons x xs ih =>
      have hbody := h x List.mem_cons_self w hw
      obtain ⟨hvisits, hlast⟩ := ih (fun y hy => h y (List.mem_cons_of_mem x hy)) hbody
      exact ⟨List.forall_mem_cons.mpr ⟨hw, hvisits⟩, hlast⟩

end Threading

end MeizuM5c.Lib
