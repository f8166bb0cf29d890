import MeizuM5c.Ril.EventRings

/-!
The table of watched descriptors, and the set of descriptors and the bound that are passed
to `select`.
-/

namespace MeizuM5c.Ril.Events

open Lib

/-- The descriptor that a slot of the table watches. -/
def fdAt (s : State) (i : Fin MAX_FD_EVENTS) : Option Int :=
  (s.watchTable i).bind (fun a => (s.mem a).map RilEvent.fd)

/-- Each watched event knows its slot, and no other event thinks that it is in the table.
Each slot watches a descriptor of its own; `select` is asked for these, and its bound is one
above the highest. -/
structure Watches (s : State) : Prop where
  client : ∀ i a, s.watchTable i = some a → ∃ n, a = .event n
  event : ∀ i a, s.watchTable i = some a →
    ∃ e, s.mem a = some e ∧ e.index = ((i : Nat) : Int) ∧ fits e.fd = true
  index : ∀ n e, s.mem (.event n) = some e →
    e.index = -1 ∨ ∃ i : Fin MAX_FD_EVENTS, e.index = ((i : Nat) : Int) ∧
      s.watchTable i = some (.event n)
  distinct : ∀ i j fd, fdAt s i = some fd → fdAt s j = some fd → i = j
  readFds : ∀ fd, fd ∈ s.readFds ↔ ∃ i, fdAt s i = some fd
  below : ∀ fd ∈ s.readFds, fd < s.nfds
  highest : s.nfds ≤ 1 ∨ s.nfds - 1 ∈ s.readFds

section Table

variable {s s' : State} {i j : Fin MAX_FD_EVENTS} {a b : Address} {e : RilEvent} {fd : Int}

theorem fdAt_eq (ha : s.watchTable i = some a) (he : s.mem a = some e) :
    fdAt s i = some e.fd := by
  unfold fdAt
  rw [ha, Option.bind_some, he]
  rfl

theorem fdAt_eq_some (h : fdAt s i = some fd) :
    ∃ a e, s.watchTable i = some a ∧ s.mem a = some e ∧ e.fd = fd := by
  obtain ⟨a, ha, hmap⟩ := Option.bind_eq_some_iff.mp h
  obtain ⟨e, he, hfd⟩ := Option.map_eq_some_iff.mp hmap
  exact ⟨a, e, ha, he, hfd⟩

/-- An event is in one slot. -/
theorem Watches.slot_unique (h : Watches s) (hi : s.watchTable i = some a)
    (hj : s.watchTable j = some a) : i = j := by
  obtain ⟨e, he, hindex, -⟩ := h.event i a hi
  obtain ⟨f, hf, hindex', -⟩ := h.event j a hj
  rw [Option.some.inj (hf.symm.trans he), hindex] at hindex'
  apply Fin.ext
  exact_mod_cast hindex'

theorem fits_bounds (h : fits fd = true) : 0 ≤ fd ∧ fd < FD_SETSIZE := by
  simpa [fits] using h

theorem Watches.nonneg (h : Watches s) (hfd : fd ∈ s.readFds) : 0 ≤ fd := by
  obtain ⟨i, hi⟩ := (h.readFds fd).mp hfd
  obtain ⟨a, e, ha, he, rfl⟩ := fdAt_eq_some hi
  obtain ⟨f, hf, -, hfits⟩ := h.event i a ha
  rw [Option.some.inj (hf.symm.trans he)] at hfits
  exact (fits_bounds hfits).1

/-- What changes no watched event, and no index, keeps the table. -/
theorem Watches.frame (h : Watches s) (htable : s'.watchTable = s.watchTable)
    (hset : s'.readFds = s.readFds) (hnfds : s'.nfds = s.nfds)
    (hwatched : ∀ i a, s.watchTable i = some a →
      (s'.mem a).map RilEvent.unlinked = (s.mem a).map RilEvent.unlinked)
    (hindex : ∀ n e', s'.mem (.event n) = some e' →
      e'.index = -1 ∨ ∃ e, s.mem (.event n) = some e ∧ e.index = e'.index) : Watches s' := by
  have hfdAt : fdAt s' = fdAt s := by
    funext i
    unfold fdAt
    rw [htable]
    cases ha : s.watchTable i with
    | none => rfl
    | some a =>
        have hmap := congrArg (Option.map RilEvent.fd) (hwatched i a ha)
        rw [Option.map_map, Option.map_map] at hmap
        exact hmap
  refine ⟨?_, ?_, ?_, ?_, ?_, ?_, ?_⟩
  · rw [htable]
    exact h.client
  · intro i a ha
    rw [htable] at ha
    obtain ⟨e, he, hi, hfits⟩ := h.event i a ha
    have hmap := hwatched i a ha
    rw [he, Option.map_some] at hmap
    obtain ⟨e', he', hsame⟩ := Option.map_eq_some_iff.mp hmap
    obtain ⟨hfd, hindex, -⟩ := unlinked_eq hsame
    exact ⟨e', he', hindex.trans hi, hfd ▸ hfits⟩
  · intro n e' he'
    rcases hindex n e' he' with hfree | ⟨e, he, heq⟩
    · exact .inl hfree
    · rw [← heq, htable]
      exact h.index n e he
  · rw [hfdAt]
    exact h.distinct
  · rw [hfdAt, hset]
    exact h.readFds
  · rw [hset, hnfds]
    exact h.below
  · rw [hset, hnfds]
    exact h.highest

theorem Watches.sameData (h : Watches s) {mem : Memory} (hsame : SameData s.mem mem) :
    Watches { s with mem } := by
  refine h.frame ?_ ?_ ?_ ?_ ?_
  · rfl
  · rfl
  · rfl
  · exact fun i a _ => hsame a
  · intro n e' he'
    obtain ⟨e, he, hdata⟩ := hsame.symm.event he'
    exact .inr ⟨e, he, (unlinked_eq hdata).2.1⟩

end Table

section Highest

variable {m : Memory} {slots : List (Option Address)}

/-- The highest descriptor is above the others, and in the table unless it is the start. -/
theorem highestFd_eq (h : ∀ a, some a ∈ slots → ∃ e, m a = some e) (n : Int) :
    ∃ r, highestFd m slots n = some r ∧ n ≤ r ∧
      (∀ a e, some a ∈ slots → m a = some e → e.fd ≤ r) ∧
      (r = n ∨ ∃ a e, some a ∈ slots ∧ m a = some e ∧ e.fd = r) := by
  induction slots generalizing n with
  | nil => exact ⟨n, rfl, le_refl n, fun a e ha => absurd ha List.not_mem_nil, .inl rfl⟩
  | cons slot slots ih =>
      have hrest : ∀ a, some a ∈ slots → ∃ e, m a = some e :=
        fun a ha => h a (List.mem_cons_of_mem slot ha)
      cases slot with
      | none =>
          obtain ⟨r, hr, hn, hall, hone⟩ := ih hrest n
          refine ⟨r, hr, hn, ?_, ?_⟩
          · intro a e ha
            exact hall a e (by simpa using ha)
          · rcases hone with hone | ⟨a, e, ha, he⟩
            · exact .inl hone
            · exact .inr ⟨a, e, List.mem_cons_of_mem _ ha, he⟩
      | some rev =>
          obtain ⟨f, hf⟩ := h rev List.mem_cons_self
          obtain ⟨r, hr, hn, hall, hone⟩ := ih hrest (if f.fd > n then f.fd else n)
          have hbounds : f.fd ≤ r ∧ n ≤ r := by
            split_ifs at hn <;> omega
          refine ⟨r, ?_, hbounds.2, ?_, ?_⟩
          · rw [highestFd, Option.bind_eq_bind, hf, Option.bind_some]
            exact hr
          · intro a e ha he
            rcases List.mem_cons.mp ha with ha | ha
            · rw [Option.some.inj ha] at he
              rw [Option.some.inj (he.symm.trans hf)]
              exact hbounds.1
            · exact hall a e ha he
          · rcases hone with hone | ⟨a, e, ha, he⟩
            · split_ifs at hone with hgt
              · exact .inr ⟨rev, f, List.mem_cons_self, hf, hone.symm⟩
              · exact .inl hone
            · exact .inr ⟨a, e, List.mem_cons_of_mem _ ha, he⟩

theorem mem_slots {s : State} {slot : Option Address} :
    slot ∈ s.slots ↔ ∃ i, s.watchTable i = slot := by
  unfold State.slots
  simp

end Highest

section Remove

variable {s : State} {i j : Fin MAX_FD_EVENTS} {a : Address} {e : RilEvent}

/-- The state without the watch in a slot, but for the bound. -/
def State.unwatch (s : State) (i : Fin MAX_FD_EVENTS) (a : Address) (e : RilEvent) (nfds : Int) :
    State where
  mem := Function.update s.mem a (some { e with index := -1 })
  readFds := s.readFds.erase e.fd
  nfds
  watchTable := Function.update s.watchTable i none

theorem fdAt_unwatch (h : Watches s) (ha : s.watchTable i = some a) (nfds : Int)
    (j : Fin MAX_FD_EVENTS) : fdAt (s.unwatch i a e nfds) j = if j = i then none else fdAt s j := by
  unfold fdAt State.unwatch
  simp only
  split_ifs with hj
  · rw [hj, Function.update_self]
    rfl
  · rw [Function.update_of_ne hj]
    cases hb : s.watchTable j with
    | none => rfl
    | some b =>
        have hne : b ≠ a := by
          intro heq
          rw [heq] at hb
          exact hj (h.slot_unique hb ha)
        rw [Option.bind_some, Option.bind_some, Function.update_of_ne hne]

theorem mem_unwatch (h : Watches s) (ha : s.watchTable i = some a) (he : s.mem a = some e)
    (nfds fd : Int) :
    fd ∈ (s.unwatch i a e nfds).readFds ↔ ∃ j, fdAt (s.unwatch i a e nfds) j = some fd := by
  have hi : fdAt s i = some e.fd := fdAt_eq ha he
  change fd ∈ s.readFds.erase e.fd ↔ _
  rw [Finset.mem_erase, h.readFds]
  constructor
  · rintro ⟨hne, j, hj⟩
    refine ⟨j, ?_⟩
    have hji : j ≠ i := by
      intro heq
      rw [heq, hi] at hj
      exact hne (Option.some.inj hj).symm
    rw [fdAt_unwatch h ha, if_neg hji]
    exact hj
  · rintro ⟨j, hj⟩
    rw [fdAt_unwatch h ha] at hj
    split_ifs at hj with hji
    refine ⟨?_, j, hj⟩
    intro heq
    rw [heq] at hj
    exact hji (h.distinct j i e.fd hj hi)

/-- Whatever bound is left, if it is one. -/
theorem watches_unwatch (h : Watches s) (ha : s.watchTable i = some a) (he : s.mem a = some e)
    {nfds : Int} (hbelow : ∀ fd ∈ (s.unwatch i a e nfds).readFds, fd < nfds)
    (hhighest : nfds ≤ 1 ∨ nfds - 1 ∈ (s.unwatch i a e nfds).readFds) :
    Watches (s.unwatch i a e nfds) := by
  refine ⟨?_, ?_, ?_, ?_, mem_unwatch h ha he nfds, hbelow, hhighest⟩
  · intro j b hb
    simp only [State.unwatch] at hb
    by_cases hj : j = i
    · rw [hj, Function.update_self] at hb
      cases hb
    · rw [Function.update_of_ne hj] at hb
      exact h.client j b hb
  · intro j b hb
    simp only [State.unwatch] at hb ⊢
    by_cases hj : j = i
    · rw [hj, Function.update_self] at hb
      cases hb
    · rw [Function.update_of_ne hj] at hb
      have hne : b ≠ a := by
        intro heq
        rw [heq] at hb
        exact hj (h.slot_unique hb ha)
      rw [Function.update_of_ne hne]
      exact h.event j b hb
  · intro n f hf
    simp only [State.unwatch] at hf ⊢
    by_cases hn : Address.event n = a
    · rw [hn, Function.update_self] at hf
      exact .inl (congrArg RilEvent.index (Option.some.inj hf)).symm
    · rw [Function.update_of_ne hn] at hf
      rcases h.index n f hf with hfree | ⟨j, hindex, hj⟩
      · exact .inl hfree
      · refine .inr ⟨j, hindex, ?_⟩
        have hji : j ≠ i := by
          intro heq
          rw [heq, ha] at hj
          exact hn (Option.some.inj hj).symm
        rw [Function.update_of_ne hji]
        exact hj
  · intro j k fd hj hk
    rw [fdAt_unwatch h ha] at hj hk
    split_ifs at hj hk
    exact h.distinct j k fd hj hk

/-- The table without one of its events. -/
theorem removeWatch_eq (h : Watches s) (ha : s.watchTable i = some a) (he : s.mem a = some e) :
    ∃ nfds, removeWatch a i s = some (s.unwatch i a e nfds) ∧ Watches (s.unwatch i a e nfds) := by
  obtain ⟨e', he', -, hfits⟩ := h.event i a ha
  rw [Option.some.inj (he'.symm.trans he)] at hfits
  have hclr : fdClr e.fd s.readFds = some (s.readFds.erase e.fd) := if_pos hfits
  have hmem := mem_unwatch h ha he
  have hrun : removeWatch a i s =
      if e.fd + 1 = s.nfds then
        (highestFd (s.unwatch i a e 0).mem (s.unwatch i a e 0).slots 0).bind
          (fun n => some (s.unwatch i a e (n + 1)))
      else some (s.unwatch i a e s.nfds) := by
    unfold removeWatch
    simp only [Option.bind_eq_bind, write_eq he, Option.bind_some, Function.update_self, hclr]
    rfl
  rw [hrun]
  split_ifs with hlast
  · have hslots : ∀ b, some b ∈ (s.unwatch i a e 0).slots →
        ∃ f, (s.unwatch i a e 0).mem b = some f := by
      intro b hb
      obtain ⟨j, hj⟩ := mem_slots.mp hb
      simp only [State.unwatch] at hj ⊢
      by_cases hji : j = i
      · rw [hji, Function.update_self] at hj
        cases hj
      · rw [Function.update_of_ne hji] at hj
        by_cases hba : b = a
        · rw [hba, Function.update_self]
          exact ⟨_, rfl⟩
        · rw [Function.update_of_ne hba]
          obtain ⟨f, hf, -⟩ := h.event j b hj
          exact ⟨f, hf⟩
    obtain ⟨n, hn, hstart, hall, hone⟩ := highestFd_eq hslots 0
    refine ⟨n + 1, ?_, ?_⟩
    · rw [hn, Option.bind_some]
    · apply watches_unwatch h ha he
      · intro fd hfd
        obtain ⟨j, hj⟩ := (hmem (n + 1) fd).mp hfd
        obtain ⟨b, f, hb, hf, rfl⟩ := fdAt_eq_some hj
        have hle : f.fd ≤ n := hall b f (mem_slots.mpr ⟨j, hb⟩) hf
        omega
      · rcases hone with hone | ⟨b, f, hb, hf, hfd⟩
        · left
          omega
        · right
          obtain ⟨j, hj⟩ := mem_slots.mp hb
          rw [hmem, Int.add_sub_cancel, ← hfd]
          exact ⟨j, fdAt_eq hj hf⟩
  · refine ⟨s.nfds, rfl, ?_⟩
    apply watches_unwatch h ha he
    · intro fd hfd
      exact h.below fd (Finset.mem_of_mem_erase hfd)
    · rcases h.highest with hone | hhighest
      · exact .inl hone
      · right
        apply Finset.mem_erase.mpr
        exact ⟨by omega, hhighest⟩

end Remove

section Add

variable {s : State} {i : Fin MAX_FD_EVENTS} {a : Address} {e : RilEvent}

/-- The state with a watch in a slot that was free. -/
def State.watch (s : State) (i : Fin MAX_FD_EVENTS) (a : Address) (e : RilEvent) : State where
  mem := Function.update s.mem a (some { e with index := ((i : Nat) : Int) })
  readFds := insert e.fd s.readFds
  nfds := if e.fd ≥ s.nfds then e.fd + 1 else s.nfds
  watchTable := Function.update s.watchTable i (some a)

theorem freeSlot_eq_some (h : freeSlot s = some i) : s.watchTable i = none := by
  have hfound := List.find?_some h
  simpa using hfound

theorem freeSlot_eq_none : freeSlot s = none ↔ ∀ i, s.watchTable i ≠ none := by
  unfold freeSlot
  rw [List.find?_eq_none]
  simp

/-- In a full table an event is not watched, and nobody is told. -/
theorem rilEventAdd_full (h : freeSlot s = none) : rilEventAdd a s = some s := by
  unfold rilEventAdd
  rw [h]

theorem fdAt_watch (hout : ∀ j, s.watchTable j ≠ some a)
    (j : Fin MAX_FD_EVENTS) :
    fdAt (s.watch i a e) j = if j = i then some e.fd else fdAt s j := by
  unfold fdAt State.watch
  simp only
  split_ifs with hj
  · rw [hj, Function.update_self, Option.bind_some, Function.update_self]
    rfl
  · rw [Function.update_of_ne hj]
    cases hb : s.watchTable j with
    | none => rfl
    | some b =>
        have hne : b ≠ a := by
          intro heq
          rw [heq] at hb
          exact hout j hb
        rw [Option.bind_some, Option.bind_some, Function.update_of_ne hne]

/-- An event that is not watched, with a descriptor that no other watches. -/
theorem rilEventAdd_eq {n : Nat} (h : Watches s) (hfree : freeSlot s = some i)
    (ha : a = .event n) (he : s.mem a = some e) (hfits : fits e.fd = true)
    (hout : ∀ j, s.watchTable j ≠ some a) (hnew : ∀ j, fdAt s j ≠ some e.fd) :
    rilEventAdd a s = some (s.watch i a e) ∧ Watches (s.watch i a e) := by
  have hnone := freeSlot_eq_some hfree
  have hset : fdSet e.fd s.readFds = some (insert e.fd s.readFds) := if_pos hfits
  have hfdAt : ∀ j, fdAt (s.watch i a e) j = if j = i then some e.fd else fdAt s j :=
    fdAt_watch hout
  have hfdi : fdAt s i = none := by
    unfold fdAt
    rw [hnone]
    rfl
  constructor
  · unfold rilEventAdd
    rw [hfree]
    simp only [Option.bind_eq_bind, write_eq he, Option.bind_some, Function.update_self, hset]
    rfl
  · refine ⟨?_, ?_, ?_, ?_, ?_, ?_, ?_⟩
    · intro j b hb
      simp only [State.watch] at hb
      by_cases hj : j = i
      · rw [hj, Function.update_self] at hb
        exact ⟨n, (Option.some.inj hb).symm.trans ha⟩
      · rw [Function.update_of_ne hj] at hb
        exact h.client j b hb
    · intro j b hb
      simp only [State.watch] at hb ⊢
      by_cases hj : j = i
      · rw [hj, Function.update_self] at hb
        rw [← Option.some.inj hb, Function.update_self, hj]
        exact ⟨_, rfl, rfl, hfits⟩
      · rw [Function.update_of_ne hj] at hb
        have hne : b ≠ a := by
          intro heq
          rw [heq] at hb
          exact hout j hb
        rw [Function.update_of_ne hne]
        exact h.event j b hb
    · intro n f hf
      simp only [State.watch] at hf ⊢
      by_cases hn : Address.event n = a
      · rw [hn, Function.update_self] at hf
        right
        refine ⟨i, (congrArg RilEvent.index (Option.some.inj hf)).symm, ?_⟩
        rw [Function.update_self, hn]
      · rw [Function.update_of_ne hn] at hf
        rcases h.index n f hf with hunwatched | ⟨j, hindex, hj⟩
        · exact .inl hunwatched
        · refine .inr ⟨j, hindex, ?_⟩
          have hji : j ≠ i := by
            intro heq
            rw [heq, hnone] at hj
            cases hj
          rw [Function.update_of_ne hji]
          exact hj
    · intro j k fd hj hk
      rw [hfdAt] at hj hk
      split_ifs at hj hk with hji hki hki
      · rw [hji, hki]
      · rw [← hj] at hk
        exact absurd hk (hnew k)
      · rw [← hk] at hj
        exact absurd hj (hnew j)
      · exact h.distinct j k fd hj hk
    · intro fd
      change fd ∈ insert e.fd s.readFds ↔ _
      rw [Finset.mem_insert, h.readFds]
      constructor
      · rintro (rfl | ⟨j, hj⟩)
        · exact ⟨i, by rw [hfdAt, if_pos rfl]⟩
        · have hji : j ≠ i := by
            intro heq
            rw [heq, hfdi] at hj
            cases hj
          exact ⟨j, by rw [hfdAt, if_neg hji, hj]⟩
      · rintro ⟨j, hj⟩
        rw [hfdAt] at hj
        split_ifs at hj with hji
        · exact .inl (Option.some.inj hj).symm
        · exact .inr ⟨j, hj⟩
    · intro fd hfd
      simp only [State.watch] at hfd ⊢
      rcases Finset.mem_insert.mp hfd with rfl | hfd
      · split_ifs <;> omega
      · have hlt := h.below fd hfd
        split_ifs <;> omega
    · simp only [State.watch, Finset.mem_insert]
      split_ifs with hge
      · right
        left
        omega
      · rcases h.highest with hone | hhighest
        · exact .inl hone
        · exact .inr (.inr hhighest)

end Add

section Delete

variable {s : State} {n : Nat} {e : RilEvent}

/-- An event that is not watched is left alone. -/
theorem rilEventDel_eq (h : Watches s) (he : s.mem (.event n) = some e) :
    ∃ s', rilEventDel (.event n) s = some s' ∧ Watches s' ∧
      (s' = s ∧ (∀ i, s.watchTable i ≠ some (.event n)) ∨
        ∃ i nfds, s.watchTable i = some (.event n) ∧ s' = s.unwatch i (.event n) e nfds) := by
  unfold rilEventDel
  rw [he, Option.bind_eq_bind, Option.bind_some]
  rcases h.index n e he with hindex | ⟨i, hindex, hi⟩
  · refine ⟨s, ?_, h, .inl ⟨rfl, ?_⟩⟩
    · rw [dif_neg (by omega)]
    · intro i hi
      obtain ⟨f, hf, hfindex, -⟩ := h.event i _ hi
      rw [Option.some.inj (hf.symm.trans he), hindex] at hfindex
      omega
  · obtain ⟨nfds, hremove, hwatches⟩ := removeWatch_eq h hi he
    refine ⟨_, ?_, hwatches, .inr ⟨i, nfds, hi, rfl⟩⟩
    have hlt := i.isLt
    rw [dif_pos (by omega)]
    have hslot : (⟨e.index.toNat, by omega⟩ : Fin MAX_FD_EVENTS) = i := by
      apply Fin.ext
      simp only
      omega
    rw [hslot]
    exact hremove

end Delete

section Ready

/-- What an event keeps, wherever it is put. -/
def RilEvent.fixed (e : RilEvent) : RilEvent := { e.unlinked with index := 0 }

def SameFixed (m m' : Memory) : Prop :=
  ∀ a, (m' a).map RilEvent.fixed = (m a).map RilEvent.fixed

def fdOf (m : Memory) (a : Address) : Int := ((m a).map RilEvent.fd).getD (-1)

def persistOf (m : Memory) (a : Address) : Bool := ((m a).map RilEvent.persist).getD false

/-- The event in a slot whose descriptor is ready. -/
def readyAt (s : State) (rfds : Finset Int) (i : Fin MAX_FD_EVENTS) : Option Address :=
  (s.watchTable i).filter (fun a => decide (fdOf s.mem a ∈ rfds))

/-- The watched events that are ready, in the order of their slots. -/
def readyList (s : State) (rfds : Finset Int) : List Address :=
  (List.finRange MAX_FD_EVENTS).filterMap (readyAt s rfds)

variable {m m' m'' : Memory} {s : State} {rfds : Finset Int} {i : Fin MAX_FD_EVENTS}
  {a : Address} {e : RilEvent} {timers pending : List Address}

theorem fixed_eq {e e' : RilEvent} (h : e'.fixed = e.fixed) :
    e'.fd = e.fd ∧ e'.persist = e.persist ∧ e'.timeout = e.timeout ∧ e'.func = e.func ∧
      e'.param = e.param := by
  cases e
  cases e'
  simpa [RilEvent.fixed, RilEvent.unlinked] using h

theorem SameFixed.refl (m : Memory) : SameFixed m m := fun _ => rfl

theorem SameFixed.trans (h : SameFixed m m') (h' : SameFixed m' m'') : SameFixed m m'' :=
  fun a => (h' a).trans (h a)

theorem SameData.fixed (h : SameData m m') : SameFixed m m' := by
  intro a
  have hmap := congrArg (Option.map RilEvent.fixed) (h a)
  rw [Option.map_map, Option.map_map] at hmap
  exact hmap

theorem SameFixed.event (h : SameFixed m m') (ha : m a = some e) :
    ∃ e', m' a = some e' ∧ e'.fixed = e.fixed := by
  have hmap := h a
  rw [ha, Option.map_some] at hmap
  exact Option.map_eq_some_iff.mp hmap

theorem SameFixed.symm (h : SameFixed m m') : SameFixed m' m := fun a => (h a).symm

theorem sameFixed_index (h : m a = some e) (index : Int) :
    SameFixed m (Function.update m a (some { e with index })) := by
  intro b
  by_cases hb : b = a
  · rw [hb, Function.update_self, h]
    rfl
  · rw [Function.update_of_ne hb]

theorem fdOf_eq (h : m a = some e) : fdOf m a = e.fd := by
  unfold fdOf
  rw [h]
  rfl

theorem persistOf_eq (h : m a = some e) : persistOf m a = e.persist := by
  unfold persistOf
  rw [h]
  rfl

theorem SameFixed.fdOf (h : SameFixed m m') : fdOf m' = fdOf m := by
  funext a
  have hmap := congrArg (Option.map RilEvent.fd) (h a)
  rw [Option.map_map, Option.map_map] at hmap
  exact congrArg (fun fd : Option Int => fd.getD (-1)) hmap

theorem SameFixed.persistOf (h : SameFixed m m') : persistOf m' = persistOf m := by
  funext a
  have hmap := congrArg (Option.map RilEvent.persist) (h a)
  rw [Option.map_map, Option.map_map] at hmap
  exact congrArg (fun persist : Option Bool => persist.getD false) hmap

theorem readyAt_eq_some :
    readyAt s rfds i = some a ↔ s.watchTable i = some a ∧ fdOf s.mem a ∈ rfds := by
  unfold readyAt
  rw [Option.filter_eq_some_iff, decide_eq_true_eq]

/-- What becomes of a slot when the table is gone through. -/
def slotAfter (s : State) (rfds : Finset Int) (slots : List (Fin MAX_FD_EVENTS))
    (i : Fin MAX_FD_EVENTS) : Option Address :=
  if i ∈ slots ∧ ((readyAt s rfds i).any (fun a => !persistOf s.mem a)) then none
  else s.watchTable i

theorem readReadies_stop {n : Int} (hn : ¬ n > 0) (slots : List (Fin MAX_FD_EVENTS)) :
    readReadies rfds slots n s = some ([], s) := by
  cases slots with
  | nil => rfl
  | cons i slots => rw [readReadies, if_neg hn]

/-- A slot without a ready event is passed over. -/
theorem readReadies_skip (hw : Watches s) (hi : readyAt s rfds i = none)
    (slots : List (Fin MAX_FD_EVENTS)) (n : Int) :
    readReadies rfds (i :: slots) n s = readReadies rfds slots n s := by
  by_cases hn : n > 0
  · rw [readReadies, if_pos hn]
    cases ha : s.watchTable i with
    | none => rfl
    | some a =>
        obtain ⟨e, he, -, hfits⟩ := hw.event i a ha
        have hout : e.fd ∉ rfds := by
          intro hin
          rw [← fdOf_eq he] at hin
          rw [readyAt_eq_some.mpr ⟨ha, hin⟩] at hi
          cases hi
        have hisset : fdIsset e.fd rfds = some false := by
          unfold fdIsset
          rw [if_pos hfits, decide_eq_false hout]
        simp only [Option.bind_eq_bind, he, Option.bind_some, hisset, Bool.false_eq_true, if_false]
  · rw [readReadies_stop hn, readReadies_stop hn]

/-- The state once a ready event has been moved. -/
theorem readReadies_move {n : Int} (hw : Watches s)
    (hr : Rings s.mem .pendingList pending .timerList timers) (hi : readyAt s rfds i = some a)
    (hidle : nextOf s.mem a = none) (hn : n > 0) (slots : List (Fin MAX_FD_EVENTS)) :
    ∃ s', Watches s' ∧ Rings s'.mem .pendingList (pending ++ [a]) .timerList timers ∧
      s'.watchTable = Function.update s.watchTable i (if persistOf s.mem a then some a else none) ∧
      SameFixed s.mem s'.mem ∧
      readReadies rfds (i :: slots) n s =
        (readReadies rfds slots (n - 1) s').map (fun r => (a :: r.1, r.2)) := by
  obtain ⟨ha, hin⟩ := readyAt_eq_some.mp hi
  obtain ⟨e, he, -, hfits⟩ := hw.event i a ha
  rw [fdOf_eq he] at hin
  have hisset : fdIsset e.fd rfds = some true := by
    unfold fdIsset
    rw [if_pos hfits, decide_eq_true hin]
  have hempty : Rings s.mem .pendingList (pending ++ []) .timerList timers := by
    rw [List.append_nil]
    exact hr
  obtain ⟨mem, hadd, hrings, hsame⟩ := hempty.insert hidle ⟨e, he⟩
  obtain ⟨e', he', hdata⟩ := hsame.event he
  have hpersist : e'.persist = persistOf s.mem a := by
    rw [(unlinked_eq hdata).2.2.1, persistOf_eq he]
  have hwatches : Watches { s with mem } := hw.sameData hsame
  have hrun (t : State) (ht : (if e'.persist = false then removeWatch a i { s with mem }
      else some { s with mem }) = some t) : readReadies rfds (i :: slots) n s =
        (readReadies rfds slots (n - 1) t).map (fun r => (a :: r.1, r.2)) := by
    rw [readReadies, if_pos hn, ha]
    simp only [Option.bind_eq_bind, he, Option.bind_some, hisset, if_true]
    rw [show addToList a .pendingList s.mem = some mem from hadd]
    have hfixed : e.persist = e'.persist := (unlinked_eq hdata).2.2.1.symm
    simp only [Option.bind_some, hfixed]
    split_ifs at ht ⊢ with hp
    · rw [ht, Option.bind_some]
      cases readReadies rfds slots (n - 1) t with
      | none => rfl
      | some r => rfl
    · rw [Option.some.inj ht]
      cases readReadies rfds slots (n - 1) t with
      | none => rfl
      | some r => rfl
  cases hp : e'.persist with
  | true =>
      rw [← hpersist, hp]
      refine ⟨{ s with mem }, hwatches, hrings, ?_, hsame.fixed, hrun _ ?_⟩
      · rw [if_pos rfl]
        exact (Function.update_eq_self_iff.mpr ha.symm).symm
      · rw [hp]
        rfl
  | false =>
      obtain ⟨nfds, hremove, hwatches'⟩ := removeWatch_eq hwatches ha he'
      rw [← hpersist, hp]
      refine ⟨_, hwatches', ?_, ?_, ?_, hrun _ ?_⟩
      · apply hrings.congr
        · rw [State.unwatch, nextOf_update]
          exact Function.update_eq_self_iff.mpr (nextOf_of_some he').symm
        · rw [State.unwatch, prevOf_update]
          exact Function.update_eq_self_iff.mpr (prevOf_of_some he').symm
      · rfl
      · exact hsame.fixed.trans (sameFixed_index he' (-1))
      · rw [if_pos hp]
        exact hremove

/-- The watched events that are ready are moved, in the order of their slots, as long as
`select` has counted each of them. -/
theorem readReadies_eq {slots : List (Fin MAX_FD_EVENTS)} {n : Int} (hw : Watches s)
    (hr : Rings s.mem .pendingList pending .timerList timers) (hnodup : slots.Nodup)
    (hidle : ∀ i ∈ slots, ∀ a, s.watchTable i = some a → nextOf s.mem a = none)
    (hn : ((slots.filterMap (readyAt s rfds)).length : Int) ≤ n) :
    ∃ s', readReadies rfds slots n s = some (slots.filterMap (readyAt s rfds), s') ∧
      Watches s' ∧
      Rings s'.mem .pendingList (pending ++ slots.filterMap (readyAt s rfds)) .timerList timers ∧
      s'.watchTable = slotAfter s rfds slots ∧ SameFixed s.mem s'.mem := by
  induction slots generalizing s pending n with
  | nil =>
      refine ⟨s, rfl, hw, ?_, ?_, SameFixed.refl s.mem⟩
      · rw [List.filterMap_nil, List.append_nil]
        exact hr
      · funext i
        unfold slotAfter
        rw [if_neg (fun h => List.not_mem_nil h.1)]
  | cons i slots ih =>
      obtain ⟨hi, hnodup⟩ := List.nodup_cons.mp hnodup
      cases hready : readyAt s rfds i with
      | none =>
          rw [List.filterMap_cons_none hready] at hn ⊢
          rw [readReadies_skip hw hready]
          obtain ⟨s', hrun, hw', hr', htable, hfixed⟩ :=
            ih hw hr hnodup (fun j hj => hidle j (List.mem_cons_of_mem i hj)) hn
          refine ⟨s', hrun, hw', hr', ?_, hfixed⟩
          rw [htable]
          funext j
          unfold slotAfter
          by_cases hj : j = i
          · rw [hj, hready]
            simp
          · simp [hj]
      | some a =>
          obtain ⟨ha, -⟩ := readyAt_eq_some.mp hready
          rw [List.filterMap_cons_some hready, List.length_cons] at hn
          rw [List.filterMap_cons_some hready]
          have hidlea := hidle i List.mem_cons_self a ha
          have hpositive : n > 0 := by omega
          obtain ⟨t, hwt, hrt, htable, hfixed, hrun⟩ :=
            readReadies_move hw hr hready hidlea hpositive slots
          have hother : ∀ j ∈ slots, t.watchTable j = s.watchTable j := by
            intro j hj
            have hji : j ≠ i := fun heq => hi (heq ▸ hj)
            rw [htable, Function.update_of_ne hji]
          have hreadyAt : ∀ j ∈ slots, readyAt t rfds j = readyAt s rfds j := by
            intro j hj
            unfold readyAt
            rw [hother j hj, hfixed.fdOf]
          have hsame : slots.filterMap (readyAt t rfds) = slots.filterMap (readyAt s rfds) :=
            List.filterMap_congr hreadyAt
          have hidlet : ∀ j ∈ slots, ∀ b, t.watchTable j = some b → nextOf t.mem b = none := by
            intro j hj b hb
            rw [hother j hj] at hb
            have hba : b ≠ a := by
              intro heq
              rw [heq] at hb
              exact hi (hw.slot_unique ha hb ▸ hj)
            have hout := hidle j (List.mem_cons_of_mem i hj) b hb
            have hpending := hr.notMem_of_idle hout
            have htimers := hr.symm.notMem_of_idle hout
            apply hrt.idle b
            · simp only [List.mem_cons, List.mem_append, List.not_mem_nil, or_false] at hpending ⊢
              tauto
            · exact htimers
          have hcount : ((slots.filterMap (readyAt t rfds)).length : Int) ≤ n - 1 := by
            rw [hsame]
            omega
          obtain ⟨s', hrest, hw', hr', htable', hfixed'⟩ := ih hwt hrt hnodup hidlet hcount
          rw [hsame] at hrest hr'
          refine ⟨s', ?_, hw', ?_, ?_, hfixed.trans hfixed'⟩
          · rw [hrun, hrest]
            rfl
          · rwa [List.append_assoc, List.singleton_append] at hr'
          · rw [htable']
            funext j
            unfold slotAfter
            by_cases hj : j = i
            · rw [hj, if_neg (fun h => hi h.1), htable, Function.update_self, hready]
              cases hp : persistOf s.mem a with
              | true => simp [hp, ha]
              | false => simp [hp]
            · by_cases hmem : j ∈ slots
              · rw [hreadyAt j hmem, hfixed.persistOf, hother j hmem]
                simp [hj]
              · rw [htable, Function.update_of_ne hj]
                simp [hj, hmem]

theorem readyAt_fdAt {fd : Int} (h : Watches s)
    (hi : (readyAt s rfds i).map (fdOf s.mem) = some fd) : fdAt s i = some fd ∧ fd ∈ rfds := by
  obtain ⟨a, ha, rfl⟩ := Option.map_eq_some_iff.mp hi
  obtain ⟨hwatched, hin⟩ := readyAt_eq_some.mp ha
  obtain ⟨e, he, -⟩ := h.event i a hwatched
  refine ⟨?_, hin⟩
  rw [fdOf_eq he]
  exact fdAt_eq hwatched he

/-- Each descriptor in a set makes one event ready at most. -/
theorem ready_length_le (h : Watches s) (rfds : Finset Int) :
    (readyList s rfds).length ≤ rfds.card := by
  have hmap : (readyList s rfds).map (fdOf s.mem) =
      (List.finRange MAX_FD_EVENTS).filterMap (fun i => (readyAt s rfds i).map (fdOf s.mem)) :=
    List.map_filterMap ..
  have hnodup : ((readyList s rfds).map (fdOf s.mem)).Nodup := by
    rw [hmap]
    apply (List.nodup_finRange MAX_FD_EVENTS).filterMap
    intro i j fd hi hj
    exact h.distinct i j fd (readyAt_fdAt h hi).1 (readyAt_fdAt h hj).1
  rw [← List.length_map (f := fdOf s.mem), ← List.toFinset_card_of_nodup hnodup]
  apply Finset.card_le_card
  intro fd hfd
  rw [List.mem_toFinset, hmap, List.mem_filterMap] at hfd
  obtain ⟨i, -, hi⟩ := hfd
  exact (readyAt_fdAt h hi).2

end Ready

end MeizuM5c.Ril.Events
