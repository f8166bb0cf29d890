import Mathlib.Data.List.Sort
import MeizuM5c.Ril.Events

/-!
What the functions of the two rings do to the lists of events that the rings hold, and
that they follow no pointer that leads nowhere.
-/

namespace MeizuM5c.Ril.Events

open Lib

def nextOf (m : Memory) (a : Address) : Option Address := (m a).bind RilEvent.next

def prevOf (m : Memory) (a : Address) : Option Address := (m a).bind RilEvent.prev

/-- An event without its links. -/
def RilEvent.unlinked (e : RilEvent) : RilEvent := { e with next := none, prev := none }

theorem unlinked_eq {e e' : RilEvent} (h : e'.unlinked = e.unlinked) :
    e'.fd = e.fd ∧ e'.index = e.index ∧ e'.persist = e.persist ∧ e'.timeout = e.timeout ∧
      e'.func = e.func ∧ e'.param = e.param := by
  cases e
  cases e'
  simpa [RilEvent.unlinked] using h

/-- Nothing but links has changed. -/
def SameData (m m' : Memory) : Prop :=
  ∀ a, (m' a).map RilEvent.unlinked = (m a).map RilEvent.unlinked

section Memory

variable {m m' m'' : Memory} {a b : Address} {e : RilEvent} {change : RilEvent → RilEvent}

theorem write_eq (h : m a = some e) : m.write a change = some (Function.update m a (some (change e))) := by
  unfold Memory.write
  rw [h]
  rfl

theorem nextOf_update (m : Memory) (a : Address) (e : RilEvent) :
    nextOf (Function.update m a (some e)) = Function.update (nextOf m) a e.next := by
  funext b
  unfold nextOf
  by_cases hb : b = a
  · rw [hb, Function.update_self, Function.update_self]
    rfl
  · rw [Function.update_of_ne hb, Function.update_of_ne hb]

theorem prevOf_update (m : Memory) (a : Address) (e : RilEvent) :
    prevOf (Function.update m a (some e)) = Function.update (prevOf m) a e.prev := by
  funext b
  unfold prevOf
  by_cases hb : b = a
  · rw [hb, Function.update_self, Function.update_self]
    rfl
  · rw [Function.update_of_ne hb, Function.update_of_ne hb]

theorem nextOf_eq_some (h : nextOf m a = some b) : ∃ e, m a = some e ∧ e.next = some b :=
  Option.bind_eq_some_iff.mp h

theorem prevOf_eq_some (h : prevOf m a = some b) : ∃ e, m a = some e ∧ e.prev = some b :=
  Option.bind_eq_some_iff.mp h

theorem nextOf_of_some (h : m a = some e) : nextOf m a = e.next := by
  unfold nextOf
  rw [h]
  rfl

theorem prevOf_of_some (h : m a = some e) : prevOf m a = e.prev := by
  unfold prevOf
  rw [h]
  rfl

theorem SameData.refl (m : Memory) : SameData m m := fun _ => rfl

theorem SameData.trans (h : SameData m m') (h' : SameData m' m'') : SameData m m'' :=
  fun a => (h' a).trans (h a)

/-- The event is still there, with what it held. -/
theorem SameData.event (h : SameData m m') (ha : m a = some e) :
    ∃ e', m' a = some e' ∧ e'.unlinked = e.unlinked := by
  have hmap := h a
  rw [ha, Option.map_some] at hmap
  exact Option.map_eq_some_iff.mp hmap

theorem SameData.exists (h : SameData m m') (ha : ∃ e, m a = some e) : ∃ e, m' a = some e := by
  obtain ⟨e, he⟩ := ha
  obtain ⟨e', he', -⟩ := h.event he
  exact ⟨e', he'⟩

theorem SameData.symm (h : SameData m m') : SameData m' m := fun a => (h a).symm

theorem sameData_update (h : m a = some e) {e' : RilEvent} (hsame : e'.unlinked = e.unlinked) :
    SameData m (Function.update m a (some e')) := by
  intro b
  by_cases hb : b = a
  · rw [hb, Function.update_self, h, Option.map_some, Option.map_some, hsame]
  · rw [Function.update_of_ne hb]

/-- A pointer to the next event is changed. -/
theorem write_next (h : ∃ e, m a = some e) (x : Option Address) :
    ∃ m', m.write a (fun e => { e with next := x }) = some m' ∧
      nextOf m' = Function.update (nextOf m) a x ∧ prevOf m' = prevOf m ∧ SameData m m' := by
  obtain ⟨e, he⟩ := h
  refine ⟨_, write_eq he, nextOf_update m a _, ?_, sameData_update he rfl⟩
  rw [prevOf_update, ← prevOf_of_some he, Function.update_eq_self]

theorem write_prev (h : ∃ e, m a = some e) (x : Option Address) :
    ∃ m', m.write a (fun e => { e with prev := x }) = some m' ∧
      nextOf m' = nextOf m ∧ prevOf m' = Function.update (prevOf m) a x ∧ SameData m m' := by
  obtain ⟨e, he⟩ := h
  refine ⟨_, write_eq he, ?_, prevOf_update m a _, sameData_update he rfl⟩
  rw [nextOf_update, ← nextOf_of_some he, Function.update_eq_self]

end Memory

section Functions

variable {m : Memory} {head a : Address} {l₁ l₂ : List Address}

theorem addToList_eq (h : Ring (nextOf m) (prevOf m) head (l₁ ++ l₂))
    (hev : ∃ e, m a = some e) :
    ∃ m', addToList a (l₂.headD head) m = some m' ∧
      nextOf m' = Function.update (Function.update (nextOf m) a (some (l₂.headD head)))
        (l₁.getLastD head) (some a) ∧
      prevOf m' = Function.update (Function.update (prevOf m) a (some (l₁.getLastD head)))
        (l₂.headD head) (some a) ∧
      SameData m m' := by
  obtain ⟨hnext, hprev⟩ := h.seam
  generalize l₁.getLastD head = before at *
  generalize l₂.headD head = list at *
  obtain ⟨p, hp, -⟩ := nextOf_eq_some hnext
  obtain ⟨c, hc, -⟩ := prevOf_eq_some hprev
  obtain ⟨m₁, hwrite₁, hnext₁, hprev₁, hsame₁⟩ := write_next hev (some list)
  obtain ⟨m₂, hwrite₂, hnext₂, hprev₂, hsame₂⟩ :=
    write_prev (hsame₁.exists hev) (some before)
  have hsame₁₂ := hsame₁.trans hsame₂
  obtain ⟨m₃, hwrite₃, hnext₃, hprev₃, hsame₃⟩ :=
    write_next (hsame₁₂.exists ⟨p, hp⟩) (some a)
  have hsame₁₃ := hsame₁₂.trans hsame₃
  obtain ⟨m₄, hwrite₄, hnext₄, hprev₄, hsame₄⟩ :=
    write_prev (hsame₁₃.exists ⟨c, hc⟩) (some a)
  obtain ⟨c₁, hc₁, hc₁prev⟩ := prevOf_eq_some ((congrFun hprev₁ list).trans hprev)
  refine ⟨m₄, ?_, ?_, ?_, hsame₁₃.trans hsame₄⟩
  · unfold addToList
    simp only [Option.bind_eq_bind, hwrite₁, Option.bind_some, hc₁, hc₁prev, hwrite₂, hwrite₃,
      hwrite₄]
  · rw [hnext₄, hnext₃, hnext₂, hnext₁]
  · rw [hprev₄, hprev₃, hprev₂, hprev₁]

theorem removeFromList_eq (h : Ring (nextOf m) (prevOf m) head (l₁ ++ a :: l₂)) :
    ∃ m', removeFromList a m = some m' ∧
      nextOf m' = Function.update (Function.update (nextOf m) (l₁.getLastD head)
        (some (l₂.headD head))) a none ∧
      prevOf m' = Function.update (Function.update (prevOf m) (l₂.headD head)
        (some (l₁.getLastD head))) a none ∧
      SameData m m' := by
  have ha := (nodup_remove h.nodup).2
  have hbefore : a ≠ l₁.getLastD head := fun heq => ha (heq ▸ getLastD_mem_append)
  have hafter : a ≠ l₂.headD head := fun heq => ha (heq ▸ headD_mem_append)
  obtain ⟨⟨hp, hprev⟩, hnext, hc⟩ := h.element
  generalize l₁.getLastD head = before at *
  generalize l₂.headD head = after at *
  obtain ⟨p, hmp, -⟩ := nextOf_eq_some hp
  obtain ⟨c, hmc, -⟩ := prevOf_eq_some hc
  obtain ⟨e, he, henext⟩ := nextOf_eq_some hnext
  have heprev : e.prev = some before := (prevOf_of_some he).symm.trans hprev
  obtain ⟨m₁, hwrite₁, hnext₁, hprev₁, hsame₁⟩ := write_prev ⟨c, hmc⟩ (some before)
  obtain ⟨m₂, hwrite₂, hnext₂, hprev₂, hsame₂⟩ :=
    write_next (hsame₁.exists ⟨p, hmp⟩) (some after)
  have hsame₁₂ := hsame₁.trans hsame₂
  obtain ⟨m₃, hwrite₃, hnext₃, hprev₃, hsame₃⟩ := write_next (hsame₁₂.exists ⟨e, he⟩) none
  have hsame₁₃ := hsame₁₂.trans hsame₃
  obtain ⟨m₄, hwrite₄, hnext₄, hprev₄, hsame₄⟩ := write_prev (hsame₁₃.exists ⟨e, he⟩) none
  -- the first write is to another event, so its links are read again as they were
  obtain ⟨e₁, he₁, he₁next⟩ := nextOf_eq_some ((congrFun hnext₁ a).trans hnext)
  have he₁prev : e₁.prev = some before := by
    rw [← prevOf_of_some he₁, hprev₁, Function.update_of_ne hafter]
    exact hprev
  refine ⟨m₄, ?_, ?_, ?_, hsame₁₃.trans hsame₄⟩
  · unfold removeFromList
    simp only [Option.bind_eq_bind, he, henext, heprev, Option.bind_some, hwrite₁, he₁, he₁next,
      he₁prev, hwrite₂, hwrite₃, hwrite₄]
  · rw [hnext₄, hnext₃, hnext₂, hnext₁]
  · rw [hprev₄, hprev₃, hprev₂, hprev₁]

end Functions

/-- Two rings without a common event, and the events in neither, which have no links. -/
structure Rings (m : Memory) (head : Address) (l : List Address) (other : Address)
    (k : List Address) : Prop where
  ring : Ring (nextOf m) (prevOf m) head l
  beside : Ring (nextOf m) (prevOf m) other k
  apart : ∀ a ∈ head :: l, a ∉ other :: k
  idle : ∀ a, a ∉ head :: l → a ∉ other :: k → nextOf m a = none

namespace Rings

variable {m m' : Memory} {head other a : Address} {l l₁ l₂ k : List Address}

theorem symm (h : Rings m head l other k) : Rings m other k head l := by
  refine ⟨h.beside, h.ring, ?_, ?_⟩
  · exact fun a ha hother => h.apart a hother ha
  · exact fun a ha hother => h.idle a hother ha

theorem congr (h : Rings m head l other k) (hnext : nextOf m' = nextOf m)
    (hprev : prevOf m' = prevOf m) : Rings m' head l other k := by
  refine ⟨?_, ?_, h.apart, ?_⟩
  · rw [hnext, hprev]
    exact h.ring
  · rw [hnext, hprev]
    exact h.beside
  · rw [hnext]
    exact h.idle

/-- The events of a ring are there, and have links. -/
theorem exists_next (h : Rings m head l other k) (ha : a ∈ head :: l) : ∃ b, nextOf m a = some b := by
  rcases List.mem_cons.mp ha with rfl | ha
  · exact ⟨_, h.ring.next_head⟩
  · obtain ⟨l₁, l₂, rfl⟩ := List.append_of_mem ha
    exact ⟨_, h.ring.element.2.1⟩

theorem exists_event (h : Rings m head l other k) (ha : a ∈ head :: l) : ∃ e, m a = some e := by
  obtain ⟨b, hb⟩ := h.exists_next ha
  obtain ⟨e, he, -⟩ := nextOf_eq_some hb
  exact ⟨e, he⟩

theorem notMem_of_idle (h : Rings m head l other k) (hidle : nextOf m a = none) :
    a ∉ head :: l := by
  intro ha
  obtain ⟨b, hb⟩ := h.exists_next ha
  rw [hidle] at hb
  cases hb

theorem insert (h : Rings m head (l₁ ++ l₂) other k) (hidle : nextOf m a = none)
    (hev : ∃ e, m a = some e) :
    ∃ m', addToList a (l₂.headD head) m = some m' ∧ Rings m' head (l₁ ++ a :: l₂) other k ∧
      SameData m m' := by
  obtain ⟨m', hadd, hnext, hprev, hsame⟩ := addToList_eq h.ring hev
  have ha := h.notMem_of_idle hidle
  have hother := h.symm.notMem_of_idle hidle
  have hapart : ∀ b ∈ other :: k, b ≠ l₁.getLastD head ∧ b ≠ l₂.headD head ∧ b ≠ a := by
    intro b hb
    refine ⟨?_, ?_, ?_⟩
    · exact fun heq => h.apart b (heq ▸ getLastD_mem_append) hb
    · exact fun heq => h.apart b (heq ▸ headD_mem_append) hb
    · exact fun heq => hother (heq ▸ hb)
  refine ⟨m', hadd, ⟨?_, ?_, ?_, ?_⟩, hsame⟩
  · rw [hnext, hprev]
    exact h.ring.insert ha
  · apply h.beside.congr
    · intro b hb
      rw [hnext, Function.update_of_ne (hapart b hb).1, Function.update_of_ne (hapart b hb).2.2]
    · intro b hb
      rw [hprev, Function.update_of_ne (hapart b hb).2.1, Function.update_of_ne (hapart b hb).2.2]
  · intro b hb
    by_cases hba : b = a
    · rw [hba]
      exact hother
    · apply h.apart b
      simp only [List.mem_cons, List.mem_append] at hb ⊢
      tauto
  · intro b hb hbother
    have hbl : b ∉ head :: (l₁ ++ l₂) ∧ b ≠ a := by
      simp only [List.mem_cons, List.mem_append] at hb ⊢
      tauto
    have hbefore : b ≠ l₁.getLastD head := fun heq => hbl.1 (heq ▸ getLastD_mem_append)
    rw [hnext, Function.update_of_ne hbefore, Function.update_of_ne hbl.2]
    exact h.idle b hbl.1 hbother

theorem remove (h : Rings m head (l₁ ++ a :: l₂) other k) :
    ∃ m', removeFromList a m = some m' ∧ Rings m' head (l₁ ++ l₂) other k ∧
      nextOf m' a = none ∧ SameData m m' := by
  obtain ⟨m', hremove, hnext, hprev, hsame⟩ := removeFromList_eq h.ring
  have hmem : ∀ b ∈ head :: (l₁ ++ l₂), b ∈ head :: (l₁ ++ a :: l₂) := by
    intro b hb
    simp only [List.mem_cons, List.mem_append] at hb ⊢
    tauto
  have ha : a ∈ head :: (l₁ ++ a :: l₂) := by simp
  have hapart : ∀ b ∈ other :: k, b ≠ l₁.getLastD head ∧ b ≠ l₂.headD head ∧ b ≠ a := by
    intro b hb
    refine ⟨?_, ?_, ?_⟩
    · exact fun heq => h.apart b (heq ▸ hmem _ getLastD_mem_append) hb
    · exact fun heq => h.apart b (heq ▸ hmem _ headD_mem_append) hb
    · exact fun heq => h.apart b (heq ▸ ha) hb
  have hout : nextOf m' a = none := by rw [hnext, Function.update_self]
  refine ⟨m', hremove, ⟨?_, ?_, ?_, ?_⟩, hout, hsame⟩
  · rw [hnext, hprev]
    exact h.ring.remove none none
  · apply h.beside.congr
    · intro b hb
      rw [hnext, Function.update_of_ne (hapart b hb).2.2, Function.update_of_ne (hapart b hb).1]
    · intro b hb
      rw [hprev, Function.update_of_ne (hapart b hb).2.2, Function.update_of_ne (hapart b hb).2.1]
  · exact fun b hb => h.apart b (hmem b hb)
  · intro b hb hbother
    by_cases hba : b = a
    · rw [hba]
      exact hout
    · have hbl : b ∉ head :: (l₁ ++ a :: l₂) := by
        simp only [List.mem_cons, List.mem_append] at hb ⊢
        tauto
      have hbefore : b ≠ l₁.getLastD head :=
        fun heq => hbl (hmem b (heq ▸ getLastD_mem_append))
      rw [hnext, Function.update_of_ne hba, Function.update_of_ne hbefore]
      exact h.idle b hbl hbother

/-- The first event of a ring is moved behind the last of the other. -/
theorem move (h : Rings m head (a :: l) other k) :
    ∃ m₁ m', removeFromList a m = some m₁ ∧ addToList a other m₁ = some m' ∧
      Rings m' head l other (k ++ [a]) ∧ SameData m m' := by
  obtain ⟨e, he⟩ := h.exists_event (List.mem_cons_of_mem head List.mem_cons_self)
  obtain ⟨m₁, hremove, hrings₁, hidle, hsame₁⟩ :=
    Rings.remove (show Rings m head ([] ++ a :: l) other k from h)
  have hother : Rings m₁ other (k ++ []) head l := by
    rw [List.append_nil]
    exact hrings₁.symm
  obtain ⟨m', hadd, hrings', hsame'⟩ := hother.insert hidle (hsame₁.exists ⟨e, he⟩)
  exact ⟨m₁, m', hremove, hadd, hrings'.symm, hsame₁.trans hsame'⟩

end Rings

section Deadlines

/-- Seconds first. -/
def Timeval.key (t : Timeval) : Int ×ₗ Int := toLex (t.sec, t.usec)

theorem Timeval.key_injective : Function.Injective Timeval.key := by
  intro a b h
  have hpair : (a.sec, a.usec) = (b.sec, b.usec) := toLex_inj.mp h
  cases a
  cases b
  cases hpair
  rfl

instance : LinearOrder Timeval := LinearOrder.lift' Timeval.key Timeval.key_injective

theorem Timeval.lt_iff {a b : Timeval} :
    a < b ↔ a.sec < b.sec ∨ a.sec = b.sec ∧ a.usec < b.usec := Prod.Lex.toLex_lt_toLex

theorem timercmp_less {a b : Timeval} : timercmp a b less = true ↔ a < b := by
  rw [Timeval.lt_iff]
  unfold timercmp less
  split_ifs with h
  · simp [h]
  · simp only [decide_eq_true_eq, h, false_and, or_false]

theorem timercmp_greater {a b : Timeval} : timercmp a b greater = true ↔ b < a := by
  rw [Timeval.lt_iff]
  unfold timercmp greater
  split_ifs with h
  · simp [h]
  · simp only [decide_eq_true_eq, gt_iff_lt, Ne.symm h, false_and, or_false]

def deadline (m : Memory) (a : Address) : Timeval := ((m a).map RilEvent.timeout).getD ⟨0, 0⟩

theorem deadline_eq {m : Memory} {a : Address} {e : RilEvent} (h : m a = some e) :
    deadline m a = e.timeout := by
  unfold deadline
  rw [h]
  rfl

theorem SameData.deadline {m m' : Memory} (h : SameData m m') : deadline m' = deadline m := by
  funext a
  have hmap := congrArg (Option.map RilEvent.timeout) (h a)
  rw [Option.map_map, Option.map_map] at hmap
  exact congrArg (fun t : Option Timeval => t.getD ⟨0, 0⟩) hmap

/-- A timer is due when the clock is past its deadline. -/
def due (m : Memory) (now : Timeval) (a : Address) : Bool := decide (deadline m a < now)

def NotLater (m : Memory) (a b : Address) : Prop := deadline m a ≤ deadline m b

instance (m : Memory) : DecidableRel (NotLater m) := fun _ _ => inferInstanceAs (Decidable (_ ≤ _))

instance (m : Memory) : IsTrans Address (NotLater m) := ⟨fun _ _ _ => le_trans⟩

instance (m : Memory) : Std.Total (NotLater m) := ⟨fun a b => le_total (deadline m a) (deadline m b)⟩

end Deadlines

section Prefixes

variable {α : Type} {p q : α → Bool} {l : List α}

theorem takeWhile_congr (h : ∀ a ∈ l, p a = q a) : l.takeWhile p = l.takeWhile q := by
  induction l with
  | nil => rfl
  | cons a l ih =>
      rw [List.takeWhile_cons, List.takeWhile_cons, h a List.mem_cons_self,
        ih (fun b hb => h b (List.mem_cons_of_mem a hb))]

theorem dropWhile_congr (h : ∀ a ∈ l, p a = q a) : l.dropWhile p = l.dropWhile q := by
  induction l with
  | nil => rfl
  | cons a l ih =>
      rw [List.dropWhile_cons, List.dropWhile_cons, h a List.mem_cons_self,
        ih (fun b hb => h b (List.mem_cons_of_mem a hb))]

/-- A new timer goes in front of the first that is not earlier. -/
theorem orderedInsert_eq {m mem : Memory} {ev : Address} {timers : List Address}
    (hsame : ∀ a ∈ timers, deadline mem a = deadline m a) :
    timers.takeWhile (due m (deadline mem ev)) ++ ev :: timers.dropWhile (due m (deadline mem ev)) =
      timers.orderedInsert (NotLater mem) ev := by
  have hdue : ∀ a ∈ timers, due m (deadline mem ev) a = decide (¬ NotLater mem ev a) := by
    intro a ha
    apply decide_eq_decide.mpr
    rw [← hsame a ha]
    exact not_le.symm
  rw [List.orderedInsert_eq_take_drop, takeWhile_congr hdue, dropWhile_congr hdue]

end Prefixes

section Walks

variable {m : Memory} {timers pending : List Address}

theorem ne_head (h : Rings m .timerList timers .pendingList pending) {a : Address}
    (ha : a ∈ timers) : a ≠ .timerList :=
  fun heq => (List.nodup_cons.mp h.ring.nodup).1 (heq ▸ ha)

/-- The timers in front that are due are moved, in their order. -/
theorem expire_eq {now : Timeval} {fuel : Nat}
    (h : Rings m .timerList timers .pendingList pending) (hfuel : timers.length < fuel) :
    ∃ m', expire now fuel (timers.headD .timerList) m =
        some (timers.takeWhile (due m now), m') ∧
      Rings m' .timerList (timers.dropWhile (due m now)) .pendingList
        (pending ++ timers.takeWhile (due m now)) ∧ SameData m m' := by
  induction timers generalizing m pending fuel with
  | nil =>
      obtain ⟨fuel, rfl⟩ := Nat.exists_eq_add_one_of_ne_zero (Nat.ne_zero_of_lt hfuel)
      refine ⟨m, rfl, ?_, SameData.refl m⟩
      rw [List.takeWhile_nil, List.append_nil]
      exact h
  | cons a timers ih =>
      obtain ⟨fuel, rfl⟩ := Nat.exists_eq_add_one_of_ne_zero (Nat.ne_zero_of_lt hfuel)
      have hlen : timers.length < fuel := by simpa using hfuel
      obtain ⟨b, hb⟩ := h.exists_next (List.mem_cons_of_mem _ List.mem_cons_self)
      obtain ⟨e, he, henext⟩ := nextOf_eq_some hb
      have hnext : e.next = some (timers.headD .timerList) := by
        rw [← nextOf_of_some he]
        exact (show Ring (nextOf m) (prevOf m) .timerList ([] ++ a :: timers) from h.ring).element.2.1
      rw [List.headD_cons, expire, if_neg (ne_head h List.mem_cons_self)]
      by_cases hdue : deadline m a < now
      · have hcmp : timercmp now e.timeout greater = true := by
          rw [timercmp_greater, ← deadline_eq he]
          exact hdue
        obtain ⟨m₁, m₂, hremove, hadd, hrings, hsame⟩ := h.move
        obtain ⟨m', hrest, hrings', hsame'⟩ := ih hrings hlen
        have hdue' : due m₂ now = due m now := by
          funext c
          unfold due
          rw [hsame.deadline]
        rw [hdue'] at hrest hrings'
        have htrue : due m now a = true := decide_eq_true hdue
        refine ⟨m', ?_, ?_, hsame.trans hsame'⟩
        · simp only [Option.bind_eq_bind, he, Option.bind_some, hcmp, if_true, hnext, hremove,
            hadd, hrest]
          rw [List.takeWhile_cons_of_pos htrue]
        · rw [List.takeWhile_cons_of_pos htrue, List.dropWhile_cons_of_pos htrue]
          rwa [List.append_assoc, List.singleton_append] at hrings'
      · have hcmp : ¬ timercmp now e.timeout greater = true := by
          rw [timercmp_greater, ← deadline_eq he]
          exact hdue
        have hfalse : ¬ due m now a = true := by simpa [due] using hdue
        refine ⟨m, ?_, ?_, SameData.refl m⟩
        · simp only [Option.bind_eq_bind, he, Option.bind_some, if_neg hcmp]
          rw [List.takeWhile_cons_of_neg hfalse]
        · rw [List.takeWhile_cons_of_neg hfalse, List.dropWhile_cons_of_neg hfalse,
            List.append_nil]
          exact h

/-- More fuel changes no result. -/
theorem expire_mono {now : Timeval} {fuel fuel' : Nat} {tev : Address}
    {r : List Address × Memory} (h : expire now fuel tev m = some r) (hle : fuel ≤ fuel') :
    expire now fuel' tev m = some r := by
  induction fuel generalizing fuel' tev m r with
  | zero => cases h
  | succ fuel ih =>
      obtain ⟨fuel', rfl⟩ := Nat.exists_eq_add_of_le' (Nat.le_trans (Nat.succ_pos fuel) hle)
      have hle' : fuel ≤ fuel' := Nat.le_of_succ_le_succ hle
      rw [expire] at h ⊢
      split_ifs at h ⊢ with htev
      · exact h
      · simp only [Option.bind_eq_bind, Option.bind_eq_some_iff] at h ⊢
        obtain ⟨e, he, h⟩ := h
        refine ⟨e, he, ?_⟩
        split_ifs at h ⊢ with hcmp
        · simp only [Option.bind_eq_some_iff] at h ⊢
          obtain ⟨next, hnext, m₁, hremove, m₂, hadd, ⟨moved, m'⟩, hrest, h⟩ := h
          exact ⟨next, hnext, m₁, hremove, m₂, hadd, (moved, m'), ih hrest hle', h⟩
        · exact h

/-- The search from the first timer on ends in front of the first that is not earlier. -/
theorem placeOf_eq {ev : Address} {e : RilEvent} {fuel : Nat}
    (h : Rings m .timerList timers .pendingList pending) (hev : m ev = some e)
    (hfuel : timers.length < fuel) {l₁ l₂ : List Address} (hsplit : timers = l₁ ++ l₂) :
    placeOf ev m fuel (l₂.headD .timerList) =
      some ((l₂.dropWhile (due m e.timeout)).headD .timerList) := by
  have hlen : l₂.length < fuel := by
    rw [hsplit, List.length_append] at hfuel
    omega
  clear hfuel
  induction l₂ generalizing l₁ fuel with
  | nil =>
      obtain ⟨fuel, rfl⟩ := Nat.exists_eq_add_one_of_ne_zero (Nat.ne_zero_of_lt hlen)
      obtain ⟨f, hf⟩ := h.exists_event List.mem_cons_self
      rw [List.headD_nil, placeOf]
      simp [hf, hev]
  | cons a l₂ ih =>
      obtain ⟨fuel, rfl⟩ := Nat.exists_eq_add_one_of_ne_zero (Nat.ne_zero_of_lt hlen)
      have hmem : a ∈ timers := by simp [hsplit]
      obtain ⟨f, hf⟩ := h.exists_event (List.mem_cons_of_mem _ hmem)
      have hring := h.ring
      rw [hsplit] at hring
      have hnext : f.next = some (l₂.headD .timerList) := by
        rw [← nextOf_of_some hf]
        exact hring.element.2.1
      rw [List.headD_cons, placeOf]
      simp only [Option.bind_eq_bind, hf, hev, Option.bind_some]
      by_cases hless : deadline m a < e.timeout
      · have hcmp : timercmp f.timeout e.timeout less = true ∧ a ≠ .timerList := by
          rw [timercmp_less, ← deadline_eq hf]
          exact ⟨hless, ne_head h hmem⟩
        have htrue : due m e.timeout a = true := decide_eq_true hless
        rw [if_pos hcmp, List.dropWhile_cons_of_pos htrue, hnext, Option.bind_some]
        have hsplit' : timers = (l₁ ++ [a]) ++ l₂ := by simp [hsplit]
        exact ih hsplit' (by simpa using hlen)
      · have hcmp : ¬ (timercmp f.timeout e.timeout less = true ∧ a ≠ .timerList) := by
          rw [timercmp_less, ← deadline_eq hf]
          exact fun hboth => hless hboth.1
        have hfalse : ¬ due m e.timeout a = true := by simpa [due] using hless
        rw [if_neg hcmp, List.dropWhile_cons_of_neg hfalse, List.headD_cons]

theorem placeOf_mono {ev list place : Address} {fuel fuel' : Nat}
    (h : placeOf ev m fuel list = some place) (hle : fuel ≤ fuel') :
    placeOf ev m fuel' list = some place := by
  induction fuel generalizing fuel' list with
  | zero => cases h
  | succ fuel ih =>
      obtain ⟨fuel', rfl⟩ := Nat.exists_eq_add_of_le' (Nat.le_trans (Nat.succ_pos fuel) hle)
      have hle' : fuel ≤ fuel' := Nat.le_of_succ_le_succ hle
      rw [placeOf] at h ⊢
      simp only [Option.bind_eq_bind, Option.bind_eq_some_iff] at h ⊢
      obtain ⟨l, hl, e, he, h⟩ := h
      refine ⟨l, hl, e, he, ?_⟩
      split_ifs at h ⊢ with hcmp
      · rw [Option.bind_eq_some_iff] at h ⊢
        obtain ⟨next, hnext, h⟩ := h
        exact ⟨next, hnext, ih h hle'⟩
      · exact h

end Walks

section Entries

variable {s s' : State} {timers pending : List Address}

theorem processTimeouts_eq (now : Timeval) {fuel : Nat}
    (h : Rings s.mem .timerList timers .pendingList pending) (hfuel : timers.length < fuel) :
    ∃ mem, processTimeouts fuel now s =
        some (timers.takeWhile (due s.mem now), { s with mem }) ∧
      Rings mem .timerList (timers.dropWhile (due s.mem now)) .pendingList
        (pending ++ timers.takeWhile (due s.mem now)) ∧ SameData s.mem mem := by
  obtain ⟨head, hhead, hnext⟩ := nextOf_eq_some h.ring.next_head
  obtain ⟨mem, hexpire, hrings, hsame⟩ := expire_eq h hfuel
  refine ⟨mem, ?_, hrings, hsame⟩
  unfold processTimeouts
  simp only [Option.bind_eq_bind, hhead, Option.bind_some, hnext, hexpire]

theorem processTimeouts_mono {now : Timeval} {fuel fuel' : Nat} {r : List Address × State}
    (h : processTimeouts fuel now s = some r) (hle : fuel ≤ fuel') :
    processTimeouts fuel' now s = some r := by
  unfold processTimeouts at h ⊢
  simp only [Option.bind_eq_bind, Option.bind_eq_some_iff] at h ⊢
  obtain ⟨head, hhead, tev, htev, ⟨moved, mem⟩, hexpire, h⟩ := h
  exact ⟨head, hhead, tev, htev, (moved, mem), expire_mono hexpire hle, h⟩

/-- The first pending event is called, and linked to nothing from then on. -/
theorem fireOne_eq {ev : Address} {e : RilEvent}
    (h : Rings s.mem .timerList timers .pendingList (ev :: pending)) (he : s.mem ev = some e) :
    ∃ mem, fireOne ev s = some (pending.headD .pendingList,
        ⟨ev, e.func, e.fd, e.param, e.timeout⟩, { s with mem }) ∧
      Rings mem .timerList timers .pendingList pending ∧ SameData s.mem mem := by
  have hring : Ring (nextOf s.mem) (prevOf s.mem) .pendingList ([] ++ ev :: pending) := h.beside
  have hnext : e.next = some (pending.headD .pendingList) := by
    rw [← nextOf_of_some he]
    exact hring.element.2.1
  obtain ⟨mem, hremove, hrings, -, hsame⟩ :=
    Rings.remove (show Rings s.mem .pendingList ([] ++ ev :: pending) .timerList timers from h.symm)
  obtain ⟨e', he', hdata⟩ := hsame.event he
  obtain ⟨hfd, -, -, htimeout, hfunc, hparam⟩ := unlinked_eq hdata
  refine ⟨mem, ?_, hrings.symm, hsame⟩
  unfold fireOne
  simp only [Option.bind_eq_bind, he, Option.bind_some, hnext, hremove, he', hfunc, hfd, hparam,
    htimeout]

/-- A timer is put in front of the first that is not earlier. -/
theorem rilTimerAdd_eq {ev : Address} {e : RilEvent} (tv now : Timeval) {fuel : Nat}
    (h : Rings s.mem .timerList timers .pendingList pending) (he : s.mem ev = some e)
    (hidle : nextOf s.mem ev = none) (hfuel : timers.length < fuel) :
    ∃ mem, rilTimerAdd fuel ev (some tv) now s = some { s with mem } ∧
      Rings mem .timerList (timers.orderedInsert (NotLater mem) ev) .pendingList pending ∧
      SameData (Function.update s.mem ev (some { e with fd := -1, timeout := timeradd now tv }))
        mem := by
  let m₁ : Memory := Function.update s.mem ev (some { e with fd := -1 })
  let m₂ : Memory :=
    Function.update s.mem ev (some { e with fd := -1, timeout := timeradd now tv })
  have hm₁ : m₁ ev = some { e with fd := -1 } := Function.update_self ..
  have hm₂ : m₂ ev = some { e with fd := -1, timeout := timeradd now tv } :=
    Function.update_self ..
  have hwrite : m₁.write ev (fun e => { e with timeout := timeradd now tv }) = some m₂ := by
    rw [write_eq hm₁]
    simp only [m₁, m₂, Function.update_idem]
  have hnext : nextOf m₂ = nextOf s.mem := by
    simp only [m₂, nextOf_update]
    rw [← nextOf_of_some he, Function.update_eq_self]
  have hprev : prevOf m₂ = prevOf s.mem := by
    simp only [m₂, prevOf_update]
    rw [← prevOf_of_some he, Function.update_eq_self]
  have hrings₂ : Rings m₂ .timerList timers .pendingList pending := h.congr hnext hprev
  have hidle₂ : nextOf m₂ ev = none := (congrFun hnext ev).trans hidle
  obtain ⟨head, hhead, hfirst⟩ := nextOf_eq_some h.ring.next_head
  have hplace : placeOf ev m₂ fuel (timers.headD .timerList) =
      some ((timers.dropWhile (due m₂ (timeradd now tv))).headD .timerList) :=
    placeOf_eq hrings₂ hm₂ hfuel (List.nil_append timers).symm
  have hsplit : Rings m₂ .timerList (timers.takeWhile (due m₂ (timeradd now tv)) ++
      timers.dropWhile (due m₂ (timeradd now tv))) .pendingList pending := by
    rw [List.takeWhile_append_dropWhile]
    exact hrings₂
  obtain ⟨mem, hadd, hrings, hsame⟩ := hsplit.insert hidle₂ ⟨_, hm₂⟩
  have hdeadline : deadline mem ev = timeradd now tv := by
    rw [hsame.deadline, deadline_eq hm₂]
  refine ⟨mem, ?_, ?_, hsame⟩
  · unfold rilTimerAdd
    simp only [Option.bind_eq_bind, hhead, Option.bind_some, hfirst, write_eq he]
    change (m₁.write ev _).bind _ = _
    simp only [hwrite, Option.bind_some, hplace, hadd]
  · rw [← hdeadline] at hrings
    rwa [orderedInsert_eq (fun a _ => congrFun hsame.deadline a)] at hrings

theorem rilTimerAdd_mono {ev : Address} {tv : Option Timeval} {now : Timeval} {fuel fuel' : Nat}
    (h : rilTimerAdd fuel ev tv now s = some s') (hle : fuel ≤ fuel') :
    rilTimerAdd fuel' ev tv now s = some s' := by
  cases tv with
  | none => exact h
  | some tv =>
      unfold rilTimerAdd at h ⊢
      simp only [Option.bind_eq_bind, Option.bind_eq_some_iff] at h ⊢
      obtain ⟨head, hhead, list, hlist, m₁, hm₁, m₂, hm₂, place, hplace, h⟩ := h
      exact ⟨head, hhead, list, hlist, m₁, hm₁, m₂, hm₂, place, placeOf_mono hplace hle, h⟩

end Entries

end MeizuM5c.Ril.Events
