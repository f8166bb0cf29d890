import MeizuM5c.Power.EngineRun

/-!
What each operation of the engine leaves of the request of one source.
-/

namespace MeizuM5c.Power

open Lib

namespace EngineOp

variable {σ : Type} (fs : Fs σ)

theorem find?_dropExpired_eq_some_iff (requests : OrdMap String Request) (now : Time)
    (source : String) (r : Request) :
    (Engine.dropExpired requests now).find? source = some r ↔
      requests.find? source = some r ∧ Deadline.atTime now < r.untilTime := by
  simp [Engine.dropExpired, OrdMap.find?_filter_eq_some_iff]

theorem find?_dropExpired_of_none {requests : OrdMap String Request} {source : String}
    (h : requests.find? source = none) (now : Time) :
    (Engine.dropExpired requests now).find? source = none := by
  cases hfound : (Engine.dropExpired requests now).find? source with
  | none => rfl
  | some r =>
      rw [((find?_dropExpired_eq_some_iff requests now source r).mp hfound).1] at h
      cases h

/-- An operation that calls `applyLocked` leaves the live requests of the
state in which it calls it. -/
theorem exec_mRequests_of_calls {op : EngineOp} {e e' : Engine} {now : Time} (w : σ)
    (h : op.calls e = some (e', now)) :
    (op.exec fs (e, w)).1.mRequests = Engine.dropExpired e'.mRequests now := by
  rw [exec_of_calls fs w h]
  rfl

theorem exec_mRequests_of_not_calls {op : EngineOp} {e : Engine} (w : σ)
    (h : op.calls e = none) : (op.exec fs (e, w)).1.mRequests = e.mRequests := by
  rcases exec_of_not_calls fs w h with hsame | ⟨name, durationMs, hpulse⟩
  · rw [hsame]
  · rw [hpulse]
    rfl

/-- Only `setRequest` for a source makes or changes a request of it. -/
theorem exec_find?_some (op : EngineOp) (s : Engine × σ) {source : String} {r : Request}
    (hop : ∀ values untilTime extend now, op ≠ .setRequest source values untilTime extend now)
    (h : (op.exec fs s).1.mRequests.find? source = some r) :
    s.1.mRequests.find? source = some r := by
  obtain ⟨e, w⟩ := s
  cases hcalls : op.calls e with
  | none =>
      rw [exec_mRequests_of_not_calls fs w hcalls] at h
      exact h
  | some call =>
      obtain ⟨e', now⟩ := call
      rw [exec_mRequests_of_calls fs w hcalls, find?_dropExpired_eq_some_iff] at h
      obtain ⟨hfound, -⟩ := h
      cases op with
      | reset now =>
          cases hcalls
          cases hfound
      | setRequest other values untilTime extend now =>
          cases hcalls
          have hne : source ≠ other := by
            rintro rfl
            exact hop values untilTime extend now rfl
          rw [OrdMap.find?_insert_of_ne _ _ hne] at hfound
          exact hfound
      | clearRequest other now =>
          simp only [calls] at hcalls
          split at hcalls
          · cases hcalls
          · cases hcalls
            by_cases heq : source = other
            · rw [heq, OrdMap.find?_erase_self] at hfound
              cases hfound
            · rw [OrdMap.find?_erase_of_ne _ heq] at hfound
              exact hfound
      | clearAll now =>
          simp only [calls] at hcalls
          split at hcalls
          · cases hcalls
          · cases hcalls
            cases hfound
      | pulse name durationMs => cases hcalls
      | apply now =>
          cases hcalls
          exact hfound

theorem exec_find?_of_none (op : EngineOp) (s : Engine × σ) {source : String}
    (hop : ∀ values untilTime extend now, op ≠ .setRequest source values untilTime extend now)
    (h : s.1.mRequests.find? source = none) :
    (op.exec fs s).1.mRequests.find? source = none := by
  cases hfound : (op.exec fs s).1.mRequests.find? source with
  | none => rfl
  | some r =>
      rw [exec_find?_some fs op s hop hfound] at h
      cases h

theorem exec_clearRequest_find? (source : String) (now : Time) (s : Engine × σ) :
    ((EngineOp.clearRequest source now).exec fs s).1.mRequests.find? source = none := by
  obtain ⟨e, w⟩ := s
  by_cases hfound : e.mRequests.find? source = none
  · have hcalls : (EngineOp.clearRequest source now).calls e = none := if_pos hfound
    rw [exec_mRequests_of_not_calls fs w hcalls]
    exact hfound
  · have hcalls : (EngineOp.clearRequest source now).calls e =
        some ({ e with mRequests := e.mRequests.erase source }, now) := if_neg hfound
    rw [exec_mRequests_of_calls fs w hcalls]
    exact find?_dropExpired_of_none (OrdMap.find?_erase_self _ _) now

theorem exec_clearAll_find? (source : String) (now : Time) (s : Engine × σ) :
    ((EngineOp.clearAll now).exec fs s).1.mRequests.find? source = none := by
  obtain ⟨e, w⟩ := s
  by_cases hempty : e.mRequests.isEmpty = true
  · have hcalls : (EngineOp.clearAll now).calls e = none := if_pos hempty
    rw [exec_mRequests_of_not_calls fs w hcalls, OrdMap.find?_eq_none_iff]
    rw [OrdMap.isEmpty_iff] at hempty
    simp [hempty]
  · have hcalls : (EngineOp.clearAll now).calls e =
        some ({ e with mRequests := OrdMap.empty }, now) := if_neg hempty
    rw [exec_mRequests_of_calls fs w hcalls]
    exact find?_dropExpired_of_none rfl now

/-- A request is in force until the deadline that is stored with it, and not
at all when that has passed. -/
theorem exec_setRequest_stored (source : String) (values : ValueMap) (untilTime : Deadline)
    (extend : Bool) (now : Time) (e : Engine) (w : σ) :
    ((EngineOp.setRequest source values untilTime extend now).exec fs
        (e, w)).1.mRequests.find? source =
      if Deadline.atTime now < Engine.extendedUntil e.mRequests source untilTime extend now then
        some ⟨values, Engine.extendedUntil e.mRequests source untilTime extend now⟩
      else none := by
  rw [exec_mRequests_of_calls fs w rfl]
  split_ifs with hlive
  · rw [find?_dropExpired_eq_some_iff]
    exact ⟨OrdMap.find?_insert_self _ _ _, hlive⟩
  · cases hfound : (Engine.dropExpired (e.mRequests.insert source ⟨values,
        Engine.extendedUntil e.mRequests source untilTime extend now⟩) now).find? source with
    | none => rfl
    | some r =>
        rw [find?_dropExpired_eq_some_iff, OrdMap.find?_insert_self] at hfound
        obtain ⟨hr, hlive'⟩ := hfound
        cases hr
        exact absurd hlive' hlive

/-- A request that does not extend an earlier one has its own deadline. -/
theorem exec_setRequest_find? (source : String) (values : ValueMap) (untilTime : Deadline)
    (now : Time) (s : Engine × σ) :
    ((EngineOp.setRequest source values untilTime false now).exec fs s).1.mRequests.find?
        source =
      if Deadline.atTime now < untilTime then some ⟨values, untilTime⟩ else none := by
  have hextend : Engine.extendedUntil s.1.mRequests source untilTime false now = untilTime := by
    unfold Engine.extendedUntil
    split <;> simp
  rw [exec_setRequest_stored, hextend]

end EngineOp

end MeizuM5c.Power
