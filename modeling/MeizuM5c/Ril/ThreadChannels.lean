import MeizuM5c.Lib.Block
import MeizuM5c.Lib.Recent

/-!
The table from threads to channels: `addThreadPid` puts the calling thread on top,
and `RIL_myProxyIdByThread` looks for it. The table holds the newest call of each of the
latest threads. The search for a thread reads an entry before it asks whether there is
one, so that it leaves the table when the thread is not in it.
-/

namespace MeizuM5c.Ril.Threads

open Lib

/-- For `SIM_COUNT` slots. -/
def MAX_RIL_CHANNELS (simCount : Nat) : Nat :=
  if simCount > 3 then 24
  else if simCount > 2 then 18
  else if simCount > 1 then 12
  else 6

structure ThreadProxyId where
  cid : Int
  pthread : Int
deriving DecidableEq, Repr

section Add

variable (simCount : Nat)

/-- The first loop of `addThreadPid` from entry `i`, with `left` entries up to the end. -/
def addIndex (threadPid : List ThreadProxyId) (tid : Int) : Nat → Nat → Except Fault Nat
  | 0, i => return i
  | left + 1, i => do
      let e ← load threadPid i
      if e.pthread ≠ 0 ∧ e.pthread ≠ tid then addIndex threadPid tid left (i + 1) else return i

/-- The second loop: the entries above the `j`-th move down. -/
def moveDown (threadPid : List ThreadProxyId) : Nat → Except Fault (List ThreadProxyId)
  | 0 => return threadPid
  | j + 1 => do
      let e ← load threadPid j
      let threadPid ← store threadPid (j + 1) e
      moveDown threadPid j

def addThreadPid (threadPid : List ThreadProxyId) (cid tid : Int) :
    Except Fault (List ThreadProxyId) := do
  let i ← addIndex threadPid tid (MAX_RIL_CHANNELS simCount) 0
  -- the last entry is dropped when all are taken
  let i := if i = MAX_RIL_CHANNELS simCount then MAX_RIL_CHANNELS simCount - 1 else i
  let threadPid ← moveDown threadPid i
  store threadPid 0 ⟨cid, tid⟩

/-- The loop of `RIL_myProxyIdByThread` from entry `i`, with `left` entries up to the
end: the entry is read first. -/
def threadIndex (threadPid : List ThreadProxyId) (self : Int) : Nat → Nat → Except Fault Nat
  | 0, i => do
      let _ ← load threadPid i
      return i
  | left + 1, i => do
      let e ← load threadPid i
      if e.pthread ≠ self then threadIndex threadPid self left (i + 1) else return i

/-- The channel that `RIL_myProxyIdByThread` logs and the one that it returns. -/
structure Lookup where
  cid : Int
  proxyId : Int
deriving DecidableEq

/-- `queried` is what `RIL_queryMyProxyIdByThread` answers, `dispatchChannelId` the channel of
the request that the thread dispatches, and `armed` whether it is to be used. -/
def rilMyProxyIdByThread (threadPid : List ThreadProxyId) (self queried dispatchChannelId : Int)
    (armed : Bool) : Except Fault Lookup := do
  let i ← threadIndex threadPid self (MAX_RIL_CHANNELS simCount) 0
  let cid ← if i < MAX_RIL_CHANNELS simCount then do
      let e ← load threadPid i
      pure e.cid
    else pure (-1)
  if (queried < 0 ∨ MAX_RIL_CHANNELS simCount ≤ queried) ∧ dispatchChannelId ≥ 0 ∧ armed then
    return ⟨cid, dispatchChannelId⟩
  else return ⟨cid, queried⟩

end Add

section Law

/-- The id of a thread: 0 marks the unused entries. -/
abbrev ThreadId := { tid : Int // tid ≠ 0 }

/-- A call of `addThreadPid`. -/
structure Call where
  cid : Int
  tid : ThreadId

/-- The table after these calls, from the zeroed one of the registration. -/
def run (simCount : Nat) (calls : List Call) : Except Fault (List ThreadProxyId) :=
  calls.foldlM (fun threadPid c => addThreadPid simCount threadPid c.cid c.tid)
    (List.replicate (MAX_RIL_CHANNELS simCount) ⟨0, 0⟩)

/-- The threads that called last, the most recent first. -/
def recentThreads (simCount : Nat) (calls : List Call) : List ThreadId :=
  (calls.map Call.tid).dedup.reverse.take (MAX_RIL_CHANNELS simCount)

def latestCid (calls : List Call) (tid : ThreadId) : Option Int :=
  lastSome (fun c => if c.tid = tid then some c.cid else none) calls

/-- The recent threads in their order, each with its latest channel, and then zeros. -/
structure TableLaw (simCount : Nat) (calls : List Call) (threadPid : List ThreadProxyId) :
    Prop where
  threads : threadPid.map ThreadProxyId.pthread =
    (recentThreads simCount calls).map Subtype.val ++
      List.replicate (MAX_RIL_CHANNELS simCount - (recentThreads simCount calls).length) 0
  channels : ∀ e ∈ threadPid, ∀ tid : ThreadId, e.pthread = tid →
    latestCid calls tid = some e.cid
  unused : ∀ e ∈ threadPid, e.pthread = 0 → e.cid = 0

/-- The search stays in the table, and finds the entry of the thread if there is one. -/
def SearchLaw (simCount : Nat) (threadPid : List ThreadProxyId) (self : ThreadId) : Prop :=
  ∀ queried dispatchChannelId armed, ∃ r,
    rilMyProxyIdByThread simCount threadPid self queried dispatchChannelId armed = .ok r ∧
      ∀ e ∈ threadPid, e.pthread = self → r.cid = e.cid

def ChannelLaw (simCount : Nat) (calls : List Call) (self : ThreadId) : Prop :=
  ∃ threadPid, run simCount calls = .ok threadPid ∧ TableLaw simCount calls threadPid ∧
    SearchLaw simCount threadPid self

end Law

section Loops

variable {simCount : Nat} {cid tid : Int}

/-- Where the first loop stops before the end: at an unused entry, or at the thread's. -/
def ThreadProxyId.stops (tid : Int) (e : ThreadProxyId) : Bool :=
  e.pthread == 0 || e.pthread == tid

theorem addIndex_eq (tid : Int) (done rest : List ThreadProxyId) :
    addIndex (done ++ rest) tid rest.length done.length =
      .ok (done.length + rest.findIdx (ThreadProxyId.stops tid)) := by
  induction rest generalizing done with
  | nil => rfl
  | cons e rest ih =>
      rw [List.length_cons, addIndex, load_append rfl, ok_bind, List.findIdx_cons]
      by_cases hstops : e.stops tid = true
      · have hgo : ¬ (e.pthread ≠ 0 ∧ e.pthread ≠ tid) := by
          simpa [ThreadProxyId.stops, or_iff_not_imp_left] using hstops
        rw [if_neg hgo, hstops]
        rfl
      · have hgo : e.pthread ≠ 0 ∧ e.pthread ≠ tid := by
          simpa [ThreadProxyId.stops] using hstops
        have hnext := ih (done ++ [e])
        rw [List.append_assoc, List.singleton_append, List.length_append,
          List.length_singleton] at hnext
        rw [if_pos hgo, hnext, Bool.eq_false_iff.mpr hstops, cond_false, Nat.add_assoc,
          Nat.add_comm 1]

theorem moveDown_eq (before : List ThreadProxyId) (e : ThreadProxyId)
    (after : List ThreadProxyId) :
    ∃ top, moveDown (before ++ e :: after) before.length = .ok (top :: (before ++ after)) := by
  induction before using List.reverseRecOn generalizing e after with
  | nil => exact ⟨e, rfl⟩
  | append_singleton before b ih =>
      obtain ⟨top, hmoved⟩ := ih b (b :: after)
      refine ⟨top, ?_⟩
      have hlast : (before ++ [b]).length = before.length + 1 := by simp
      have hload : load (before ++ [b] ++ e :: after) before.length = .ok b := by
        rw [List.append_assoc]
        exact load_append rfl
      rw [hlast, moveDown, hload, ok_bind, store_append hlast.symm, ok_bind, List.append_assoc,
        List.append_assoc]
      exact hmoved

/-- A call drops the entry at which the first loop stops, or the last one. -/
theorem addThreadPid_eq {before after : List ThreadProxyId} {e : ThreadProxyId}
    (hlength : (before ++ e :: after).length = MAX_RIL_CHANNELS simCount)
    (hbefore : ∀ b ∈ before, ¬ b.stops tid = true) (hstops : e.stops tid = true ∨ after = []) :
    addThreadPid simCount (before ++ e :: after) cid tid =
      .ok (⟨cid, tid⟩ :: (before ++ after)) := by
  have hindex := addIndex_eq tid [] (before ++ e :: after)
  obtain ⟨top, hmoved⟩ := moveDown_eq before e after
  rw [List.nil_append, List.length_nil, Nat.zero_add, hlength] at hindex
  rw [List.length_append, List.length_cons] at hlength
  have hpassed : before.findIdx (ThreadProxyId.stops tid) = before.length :=
    List.findIdx_eq_length.mpr (fun b hb => Bool.eq_false_iff.mpr (hbefore b hb))
  have hfind : (before ++ e :: after).findIdx (ThreadProxyId.stops tid) =
      before.length + (e :: after).findIdx (ThreadProxyId.stops tid) := by
    rw [List.findIdx_append, hpassed, if_neg (Nat.lt_irrefl _), Nat.add_comm]
  have hi : (if (before ++ e :: after).findIdx (ThreadProxyId.stops tid) = MAX_RIL_CHANNELS simCount
      then MAX_RIL_CHANNELS simCount - 1
      else (before ++ e :: after).findIdx (ThreadProxyId.stops tid)) = before.length := by
    rw [hfind, List.findIdx_cons]
    by_cases he : e.stops tid = true
    · rw [he, cond_true, if_neg (by omega), Nat.add_zero]
    · obtain rfl := hstops.resolve_left he
      rw [List.length_nil] at hlength
      rw [Bool.eq_false_iff.mpr he, cond_false, List.findIdx_nil, if_pos (by omega)]
      omega
  rw [addThreadPid, hindex, ok_bind]
  dsimp only
  rw [hi, hmoved, ok_bind]
  rfl

theorem threadIndex_of_mem {self : Int} (done rest : List ThreadProxyId)
    (hmem : ∃ e ∈ rest, e.pthread = self) :
    threadIndex (done ++ rest) self rest.length done.length =
      .ok (done.length + rest.findIdx (fun e => e.pthread == self)) := by
  induction rest generalizing done with
  | nil =>
      obtain ⟨e, he, -⟩ := hmem
      cases he
  | cons e rest ih =>
      rw [List.length_cons, threadIndex, load_append rfl, ok_bind, List.findIdx_cons]
      by_cases hself : e.pthread = self
      · rw [if_neg (not_not.mpr hself), beq_iff_eq.mpr hself]
        rfl
      · have hrest : ∃ e ∈ rest, e.pthread = self := by
          obtain ⟨b, hb, heq⟩ := hmem
          rcases List.mem_cons.mp hb with rfl | hb
          · exact absurd heq hself
          · exact ⟨b, hb, heq⟩
        have hnext := ih (done ++ [e]) hrest
        rw [List.append_assoc, List.singleton_append, List.length_append,
          List.length_singleton] at hnext
        rw [if_pos hself, hnext, beq_eq_false_iff_ne.mpr hself, cond_false, Nat.add_assoc,
          Nat.add_comm 1]

/-- The search for a thread that is not there reads behind the last entry. -/
theorem threadIndex_of_absent {self : Int} (done rest : List ThreadProxyId)
    (habsent : ∀ e ∈ rest, e.pthread ≠ self) :
    threadIndex (done ++ rest) self rest.length done.length = .error .outOfBounds := by
  induction rest generalizing done with
  | nil =>
      have hload : load (done ++ []) done.length = .error .outOfBounds := by
        rw [load, List.append_nil, List.getElem?_eq_none (le_refl _)]
      rw [List.length_nil, threadIndex, hload]
      rfl
  | cons e rest ih =>
      obtain ⟨he, hrest⟩ := List.forall_mem_cons.mp habsent
      have hnext := ih (done ++ [e]) hrest
      rw [List.append_assoc, List.singleton_append, List.length_append,
        List.length_singleton] at hnext
      rw [List.length_cons, threadIndex, load_append rfl, ok_bind, if_pos he, hnext]

end Loops

section Table

variable {simCount : Nat}

theorem MAX_RIL_CHANNELS_pos (simCount : Nat) : 0 < MAX_RIL_CHANNELS simCount := by
  unfold MAX_RIL_CHANNELS
  split_ifs <;> decide

def Call.entry (c : Call) : ThreadProxyId := ⟨c.cid, c.tid⟩

/-- The table that holds these calls on top. -/
def tableOf (simCount : Nat) (calls : List Call) : List ThreadProxyId :=
  calls.map Call.entry ++ List.replicate (MAX_RIL_CHANNELS simCount - calls.length) ⟨0, 0⟩

theorem length_tableOf {calls : List Call} (h : calls.length ≤ MAX_RIL_CHANNELS simCount) :
    (tableOf simCount calls).length = MAX_RIL_CHANNELS simCount := by
  rw [tableOf, List.length_append, List.length_map, List.length_replicate]
  omega

theorem Call.stops_entry_iff {c d : Call} : d.entry.stops c.tid = true ↔ d.tid = c.tid := by
  simp [ThreadProxyId.stops, Call.entry, d.tid.property, Subtype.ext_iff]

theorem not_stops_of_ne {before : List Call} {c : Call} (h : ∀ d ∈ before, d.tid ≠ c.tid) :
    ∀ b ∈ before.map Call.entry, ¬ b.stops c.tid = true := by
  intro b hb
  obtain ⟨d, hd, rfl⟩ := List.mem_map.mp hb
  exact fun hstops => h d hd (Call.stops_entry_iff.mp hstops)

section OneCall

variable {kept before after : List Call} {c d last : Call}

/-- The entry of the thread is found. -/
theorem addThreadPid_found (hlength : (before ++ d :: after).length ≤ MAX_RIL_CHANNELS simCount)
    (hsame : d.tid = c.tid) (hothers : ∀ b ∈ before, b.tid ≠ c.tid) :
    addThreadPid simCount (tableOf simCount (before ++ d :: after)) c.cid c.tid =
      .ok (tableOf simCount (c :: (before ++ after))) := by
  have htable := length_tableOf hlength
  rw [tableOf, List.map_append, List.map_cons, List.append_assoc, List.cons_append] at htable ⊢
  rw [addThreadPid_eq htable (not_stops_of_ne hothers)
    (.inl (Call.stops_entry_iff.mpr hsame))]
  simp [tableOf, Call.entry, Nat.add_assoc]

/-- An unused entry is found. -/
theorem addThreadPid_unused (hroom : kept.length < MAX_RIL_CHANNELS simCount)
    (hothers : ∀ b ∈ kept, b.tid ≠ c.tid) :
    addThreadPid simCount (tableOf simCount kept) c.cid c.tid =
      .ok (tableOf simCount (c :: kept)) := by
  have htable := length_tableOf hroom.le
  have hzeros : tableOf simCount kept = kept.map Call.entry ++ ⟨0, 0⟩ ::
      List.replicate (MAX_RIL_CHANNELS simCount - (kept.length + 1)) ⟨0, 0⟩ := by
    rw [tableOf, ← List.replicate_succ]
    congr 2
    omega
  rw [hzeros] at htable ⊢
  rw [addThreadPid_eq htable (not_stops_of_ne hothers) (.inl rfl)]
  simp [tableOf, Call.entry]

/-- Nothing is found, and the last entry is dropped. -/
theorem addThreadPid_full (hfull : (before ++ [last]).length = MAX_RIL_CHANNELS simCount)
    (hothers : ∀ b ∈ before, b.tid ≠ c.tid) :
    addThreadPid simCount (tableOf simCount (before ++ [last])) c.cid c.tid =
      .ok (tableOf simCount (c :: before)) := by
  have htable := length_tableOf hfull.le
  have hlast : tableOf simCount (before ++ [last]) = before.map Call.entry ++ last.entry :: [] := by
    rw [tableOf, hfull, Nat.sub_self]
    simp
  rw [hlast] at htable ⊢
  rw [addThreadPid_eq htable (not_stops_of_ne hothers) (.inr rfl)]
  rw [List.length_append, List.length_singleton] at hfull
  rw [tableOf, List.length_cons, hfull, Nat.sub_self]
  simp [Call.entry]

/-- One call: the thread's entry goes to the top, and if it had none and all are taken,
the last one goes. -/
theorem addThreadPid_tableOf (hnodup : (kept.map Call.tid).Nodup)
    (hlength : kept.length ≤ MAX_RIL_CHANNELS simCount) (c : Call) :
    addThreadPid simCount (tableOf simCount kept) c.cid c.tid =
      .ok (tableOf simCount
        ((c :: dropKey Call.tid c.tid kept).take (MAX_RIL_CHANNELS simCount))) := by
  by_cases hmem : ∃ d ∈ kept, d.tid = c.tid
  · obtain ⟨d, hd, hsame⟩ := hmem
    obtain ⟨before, after, rfl⟩ := List.append_of_mem hd
    have hdrop := dropKey_append_cons hnodup
    rw [hsame] at hdrop
    have hothers : ∀ b ∈ before, b.tid ≠ c.tid := by
      rw [(List.perm_middle.map Call.tid).nodup_iff, List.map_cons, List.nodup_cons] at hnodup
      intro b hb heq
      apply hnodup.1
      rw [hsame, ← heq]
      exact List.mem_map_of_mem (List.mem_append_left _ hb)
    rw [addThreadPid_found hlength hsame hothers, hdrop]
    rw [List.length_append, List.length_cons] at hlength
    rw [List.take_of_length_le (by simp; omega)]
  · push Not at hmem
    rw [dropKey_of_forall_ne hmem]
    rcases Nat.lt_or_eq_of_le hlength with hroom | hfull
    · rw [addThreadPid_unused hroom hmem, List.take_of_length_le (by simp; omega)]
    · obtain ⟨before, last, rfl⟩ := (List.eq_nil_or_concat' kept).resolve_left
        (List.ne_nil_of_length_pos (hfull ▸ MAX_RIL_CHANNELS_pos simCount))
      rw [addThreadPid_full hfull (fun b hb => hmem b (List.mem_append_left _ hb))]
      rw [List.length_append, List.length_singleton] at hfull
      rw [← hfull, List.take_succ_cons, List.take_left]

end OneCall

end Table

section Run

variable (simCount : Nat)

/-- The calls that the table holds. -/
def keptCalls (calls : List Call) : List Call :=
  (recent Call.tid calls).take (MAX_RIL_CHANNELS simCount)

theorem length_keptCalls_le (calls : List Call) :
    (keptCalls simCount calls).length ≤ MAX_RIL_CHANNELS simCount := List.length_take_le _ _

theorem map_tid_keptCalls (calls : List Call) :
    (keptCalls simCount calls).map Call.tid = recentThreads simCount calls := by
  rw [keptCalls, List.map_take, map_key_recent, recentThreads]

theorem nodup_keptCalls (calls : List Call) : ((keptCalls simCount calls).map Call.tid).Nodup := by
  rw [keptCalls, List.map_take]
  exact (nodup_recent calls).sublist (List.take_sublist _ _)

/-- Any calls leave the newest ones of the recent threads. -/
theorem run_eq (calls : List Call) :
    run simCount calls = .ok (tableOf simCount (keptCalls simCount calls)) := by
  induction calls using List.reverseRecOn with
  | nil =>
      rw [keptCalls, recent_nil, List.take_nil]
      rfl
  | append_singleton calls c ih =>
      have hstep := addThreadPid_tableOf (nodup_keptCalls simCount calls)
        (length_keptCalls_le simCount calls) c
      rw [run] at ih
      rw [run, List.foldlM_append, ih, ok_bind, List.foldlM_cons, hstep, ok_bind, List.foldlM_nil,
        keptCalls, keptCalls, take_recent_concat]
      rfl

variable {simCount}

theorem mem_tableOf {calls : List Call} {e : ThreadProxyId} (h : e ∈ tableOf simCount calls) :
    (∃ c ∈ calls, e = c.entry) ∨ e = ⟨0, 0⟩ := by
  rcases List.mem_append.mp h with hentry | hzero
  · obtain ⟨c, hc, rfl⟩ := List.mem_map.mp hentry
    exact .inl ⟨c, hc, rfl⟩
  · exact .inr (List.eq_of_mem_replicate hzero)

theorem latestCid_of_kept {calls : List Call} {c : Call} (h : c ∈ keptCalls simCount calls) :
    latestCid calls c.tid = some c.cid := by
  rw [latestCid, lastSome_of_mem_recent (List.mem_of_mem_take h)]
  · simp
  · intro d hne
    rw [if_neg hne]
  · simp

/-- The table is right after any calls. -/
theorem table_of_run (simCount : Nat) (calls : List Call) :
    TableLaw simCount calls (tableOf simCount (keptCalls simCount calls)) := by
  constructor
  · have hlength : (recentThreads simCount calls).length = (keptCalls simCount calls).length := by
      rw [← map_tid_keptCalls, List.length_map]
    rw [hlength, tableOf, List.map_append, List.map_replicate, ← map_tid_keptCalls, List.map_map,
      List.map_map]
    rfl
  · intro e he tid htid
    rcases mem_tableOf he with ⟨c, hc, rfl⟩ | rfl
    · have hsame : c.tid = tid := Subtype.ext htid
      rw [← hsame]
      exact latestCid_of_kept hc
    · exact absurd htid.symm tid.property
  · intro e he hzero
    rcases mem_tableOf he with ⟨c, hc, rfl⟩ | rfl
    · exact absurd hzero c.tid.property
    · rfl

end Run

section Search

variable {simCount : Nat} {threadPid : List ThreadProxyId} {self : ThreadId}

theorem rilMyProxyIdByThread_of_mem {self : Int}
    (hlength : threadPid.length = MAX_RIL_CHANNELS simCount) (hmem : ∃ e ∈ threadPid, e.pthread = self) :
    ∃ e ∈ threadPid, e.pthread = self ∧ ∀ queried dispatchChannelId armed, ∃ proxyId,
      rilMyProxyIdByThread simCount threadPid self queried dispatchChannelId armed =
        .ok ⟨e.cid, proxyId⟩ := by
  have hindex := threadIndex_of_mem [] threadPid hmem
  rw [List.nil_append, List.length_nil, Nat.zero_add, hlength] at hindex
  have hlt : threadPid.findIdx (fun e => e.pthread == self) < threadPid.length := by
    obtain ⟨e, he, hself⟩ := hmem
    exact List.findIdx_lt_length_of_exists ⟨e, he, beq_iff_eq.mpr hself⟩
  refine ⟨threadPid[threadPid.findIdx (fun e => e.pthread == self)], List.getElem_mem hlt,
    beq_iff_eq.mp (List.findIdx_getElem (w := hlt)), ?_⟩
  intro queried dispatchChannelId armed
  rw [rilMyProxyIdByThread, hindex, ok_bind, if_pos (hlength ▸ hlt), load_of_lt hlt]
  simp only [ok_bind]
  split_ifs
  · exact ⟨dispatchChannelId, rfl⟩
  · exact ⟨queried, rfl⟩

theorem rilMyProxyIdByThread_of_absent {self : Int}
    (hlength : threadPid.length = MAX_RIL_CHANNELS simCount) (habsent : ∀ e ∈ threadPid, e.pthread ≠ self) (queried dispatchChannelId : Int)
    (armed : Bool) :
    rilMyProxyIdByThread simCount threadPid self queried dispatchChannelId armed =
      .error .outOfBounds := by
  have hindex := threadIndex_of_absent [] threadPid habsent
  rw [List.nil_append, List.length_nil, hlength] at hindex
  rw [rilMyProxyIdByThread, hindex]
  rfl

/-- The search is in bounds exactly for the threads of the table. -/
theorem searchLaw_iff {calls : List Call} (htable : TableLaw simCount calls threadPid)
    (hlength : threadPid.length = MAX_RIL_CHANNELS simCount) :
    SearchLaw simCount threadPid self ↔ ∃ e ∈ threadPid, e.pthread = self := by
  constructor
  · intro hlaw
    by_contra habsent
    push Not at habsent
    obtain ⟨r, hr, -⟩ := hlaw 0 0 false
    rw [rilMyProxyIdByThread_of_absent hlength habsent] at hr
    cases hr
  · intro hmem queried dispatchChannelId armed
    obtain ⟨e, he, hself, hfound⟩ := rilMyProxyIdByThread_of_mem hlength hmem
    obtain ⟨proxyId, hr⟩ := hfound queried dispatchChannelId armed
    refine ⟨_, hr, ?_⟩
    intro e' he' hself'
    have hcid := htable.channels e he self hself
    rw [htable.channels e' he' self hself'] at hcid
    exact (Option.some.inj hcid).symm

theorem TableLaw.mem_iff {calls : List Call} (htable : TableLaw simCount calls threadPid) :
    (∃ e ∈ threadPid, e.pthread = self) ↔ self ∈ recentThreads simCount calls := by
  constructor
  · rintro ⟨e, he, hself⟩
    have hmem := List.mem_map_of_mem (f := ThreadProxyId.pthread) he
    rw [htable.threads, hself] at hmem
    rcases List.mem_append.mp hmem with hrecent | hzero
    · obtain ⟨tid, htid, hsame⟩ := List.mem_map.mp hrecent
      rwa [Subtype.ext hsame] at htid
    · exact absurd (List.eq_of_mem_replicate hzero) self.property
  · intro hrecent
    apply List.mem_map.mp
    rw [htable.threads]
    exact List.mem_append_left _ (List.mem_map_of_mem hrecent)

end Search

section Main

/-- The table is always right, but the search stays in it exactly for a thread that is
among the last to have called. -/
theorem channelLaw_iff (simCount : Nat) (calls : List Call) (self : ThreadId) :
    ChannelLaw simCount calls self ↔ self ∈ recentThreads simCount calls := by
  have hlength := length_tableOf (length_keptCalls_le simCount calls)
  have htable := table_of_run simCount calls
  rw [← htable.mem_iff, ← searchLaw_iff htable hlength]
  constructor
  · rintro ⟨threadPid, hrun, -, hsearch⟩
    rw [run_eq] at hrun
    cases hrun
    exact hsearch
  · intro hsearch
    exact ⟨_, run_eq simCount calls, htable, hsearch⟩

/-- A thread that never called, with an empty table: the entry behind the last one is
read. -/
theorem channelLaw_absent :
    rilMyProxyIdByThread 2 (List.replicate 12 ⟨0, 0⟩) 7 0 (-1) false = .error .outOfBounds ∧
      ¬ ChannelLaw 2 [] ⟨7, by decide⟩ := by
  have hread : rilMyProxyIdByThread 2 (List.replicate 12 ⟨0, 0⟩) 7 0 (-1) false =
      .error .outOfBounds := by decide
  refine ⟨hread, ?_⟩
  rintro ⟨threadPid, hrun, -, hsearch⟩
  cases hrun
  obtain ⟨r, hr, -⟩ := hsearch 0 (-1) false
  cases hread.symm.trans hr

end Main

end MeizuM5c.Ril.Threads
