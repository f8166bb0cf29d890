import MeizuM5c.Ril.MalFrame

/-!
The parser of the MAL socket reads nothing outside the frame it is working on,
and gives back the requests of a stream that was written as documented, however
the bytes are cut into reads.
-/

namespace MeizuM5c.Ril

open Lib

section Words

@[simp] theorem malPutLE_length (v : UInt32) : (malPutLE v).length = 4 := rfl

private theorem toNat_low_byte (v : UInt32) : ((v &&& 0xff).toUInt8).toNat = v.toNat % 256 := by
  have hbyte := toNat_shiftRight_byte v 0 (by decide)
  rwa [UInt32.shiftRight_zero, UInt32.toNat_zero, pow_zero, Nat.div_one] at hbyte

private theorem base_256_digits {v : Nat} (hv : v < 4294967296) :
    v % 256 + 256 * (v / 2 ^ 8 % 256) + 65536 * (v / 2 ^ 16 % 256) +
      16777216 * (v / 2 ^ 24 % 256) = v := by
  omega

theorem malGetLE_malPutLE (v : UInt32) (rest : Bytes) : malGetLE (malPutLE v ++ rest) = v := by
  apply UInt32.toNat_inj.mp
  refine (toNat_or_shiftLeft_bytes _ _ _ _).trans ?_
  simp only [malPutLE, List.cons_append, List.getD_cons_zero, List.getD_cons_succ]
  rw [toNat_low_byte, toNat_shiftRight_byte v 8 (by decide), toNat_shiftRight_byte v 16 (by decide),
    toNat_shiftRight_byte v 24 (by decide)]
  exact base_256_digits v.toNat_lt

theorem bodyLength_malPutBE (v : UInt32) : bodyLength (malPutBE v) = v := by
  apply UInt32.toNat_inj.mp
  have horder (a b c d : UInt32) : a ||| b ||| c ||| d = d ||| c ||| b ||| a := by
    rw [UInt32.or_comm, UInt32.or_comm (a ||| b), UInt32.or_comm a, ← UInt32.or_assoc,
      ← UInt32.or_assoc]
  unfold bodyLength
  rw [horder]
  refine (toNat_or_shiftLeft_bytes _ _ _ _).trans ?_
  simp only [malPutBE, List.getD_cons_zero, List.getD_cons_succ]
  rw [toNat_low_byte, toNat_shiftRight_byte v 8 (by decide), toNat_shiftRight_byte v 16 (by decide),
    toNat_shiftRight_byte v 24 (by decide)]
  exact base_256_digits v.toNat_lt

end Words

section Reading

/-- A read that succeeds takes the bytes it wanted off the stream. -/
theorem malReadAll_ok : ∀ {want : Nat} {events rest : List SocketEvent} {buf : Bytes},
    malReadAll want events = .ok buf rest →
      buf.length = want ∧ streamBytes events = buf ++ streamBytes rest := by
  intro want events
  fun_induction malReadAll want events with
  | case1 events =>
      rintro rest buf ⟨rfl, rfl⟩
      exact ⟨rfl, rfl⟩
  | case2 => exact fun h => nomatch h
  | case3 want events ih => exact ih
  | case4 => exact fun h => nomatch h
  | case5 => exact fun h => nomatch h
  | case6 want b bs events c cs hdrop =>
      rintro rest buf ⟨rfl, rfl⟩
      have hsplit : bs = bs.take want ++ c :: cs := by rw [← hdrop, List.take_append_drop]
      have hlong : want < bs.length := List.length_lt_of_drop_ne_nil (by simp [hdrop])
      refine ⟨by simp; omega, ?_⟩
      simp only [streamBytes]
      nth_rewrite 1 [hsplit]
      simp only [List.append_assoc, List.cons_append]
  | case7 want b bs events hdrop buf rest hread ih =>
      rintro rest' buf' ⟨rfl, rfl⟩
      obtain ⟨hlength, hstream⟩ := ih hread
      have hshort : bs.length ≤ want := List.drop_eq_nil_iff.mp hdrop
      refine ⟨by simp; omega, ?_⟩
      simp only [streamBytes, hstream, List.append_assoc, List.cons_append]
  | case8 => exact fun h => nomatch h
  | case9 => exact fun h => nomatch h

/-- As long as only bytes and interrupts come, a read of bytes that are there
succeeds, and leaves the rest for the next one. -/
theorem malReadAll_append (tail : List SocketEvent) : ∀ {segments : List SocketEvent}
    {want : Nat}, Uninterrupted segments → want ≤ (streamBytes segments).length →
      ∃ rest, Uninterrupted rest ∧ streamBytes rest = (streamBytes segments).drop want ∧
        malReadAll want (segments ++ tail) =
          .ok ((streamBytes segments).take want) (rest ++ tail) := by
  intro segments
  induction segments with
  | nil =>
      intro want hsegments hwant
      obtain rfl : want = 0 := Nat.le_zero.mp hwant
      exact ⟨[], hsegments, rfl, by simp [malReadAll]⟩
  | cons event segments ih =>
      intro want hsegments hwant
      have htail : Uninterrupted segments := fun e he => hsegments e (List.mem_cons_of_mem _ he)
      obtain _ | want := want
      · exact ⟨event :: segments, hsegments, rfl, by simp [malReadAll]⟩
      · cases event with
        | closed => exact absurd rfl (hsegments _ List.mem_cons_self).1
        | error => exact absurd rfl (hsegments _ List.mem_cons_self).2
        | eintr => exact ih htail hwant
        | data b bs =>
            simp only [streamBytes, List.cons_append, List.length_cons, List.length_append] at hwant
            simp only [List.cons_append, malReadAll, streamBytes, List.take_succ_cons,
              List.drop_succ_cons]
            split
            · case _ c cs hdrop =>
                have hlong : want < bs.length := List.length_lt_of_drop_ne_nil (by simp [hdrop])
                refine ⟨.data c cs :: segments, ?_, ?_, ?_⟩
                · rintro e (_ | ⟨_, he⟩)
                  · exact ⟨nofun, nofun⟩
                  · exact htail e he
                · rw [List.drop_append_of_le_length (by omega), hdrop]
                  rfl
                · rw [List.take_append_of_le_length (by omega)]
                  rfl
            · case _ hdrop =>
                have hshort : bs.length ≤ want := List.drop_eq_nil_iff.mp hdrop
                obtain ⟨rest, hrest, hstream, hread⟩ := ih htail (by omega : want - bs.length ≤ _)
                refine ⟨rest, hrest, ?_, ?_⟩
                · rw [hstream, List.drop_append, hdrop, List.nil_append]
                · rw [hread, List.take_append, List.take_of_length_le hshort]

end Reading

section Bounds

variable (malloc : Nat → Bool)

theorem bodyWord_eq {body : Bytes} {offset : Nat} (hinside : offset + 4 ≤ body.length) :
    bodyWord body offset = some (malGetLE (body.drop offset)) := by
  simp only [bodyWord, if_pos hinside]

private theorem malGetLE_take {p : Bytes} {n : Nat} (hn : 4 ≤ n) :
    malGetLE (p.take n) = malGetLE p := by
  have hget (i : Nat) (hi : i < 4) : (p.take n).getD i 0 = p.getD i 0 := by
    rw [List.getD_eq_getElem?_getD, List.getElem?_take_of_lt (by omega),
      ← List.getD_eq_getElem?_getD]
  simp only [malGetLE, hget 0 (by decide), hget 1 (by decide), hget 2 (by decide),
    hget 3 (by decide)]

/-- What `malDispatch` does with a payload before it takes a slot. -/
def payloadResult (r : Request) (alloc : Bool) : FrameResult :=
  match malCommand r alloc with
  | .error err => .answer r.simId r.serial err
  | .ok cmd => .dispatch ⟨r.simId, r.serial, malGetLE r.payload, cmd⟩

/-- A payload inside the body is read inside the body, and gives the command of
the request. -/
theorem malDispatchPayload_eq {body : Bytes} {payload payloadLen : Nat}
    (simId requestId serial : UInt32) (hinside : payload + payloadLen ≤ body.length) :
    ∃ size, malDispatchPayload malloc body simId requestId serial payload payloadLen =
      some (payloadResult ⟨simId, requestId, serial, (body.drop payload).take payloadLen⟩
        (malloc size)) := by
  have hlength : ((body.drop payload).take payloadLen).length = payloadLen := by
    rw [List.length_take, List.length_drop]
    omega
  unfold malDispatchPayload payloadResult malCommand
  by_cases hrequest : requestId ≠ RIL_REQUEST_AT_COMMAND_WITH_PROXY
  · exact ⟨0, by simp only [if_pos hrequest]⟩
  by_cases hshort : payloadLen < 8
  · exact ⟨0, by simp only [if_neg hrequest, hlength, if_pos hshort]⟩
  have hword : malGetLE (((body.drop payload).take payloadLen).drop 4) =
      malGetLE (body.drop (payload + 4)) := by
    rw [List.drop_take, malGetLE_take (by omega), List.drop_drop]
  have hbytes {n : Nat} (hn : ¬n > payloadLen - 8) :
      bodyBytes body (payload + 8) n =
        some ((((body.drop payload).take payloadLen).drop 8).take n) := by
    rw [bodyBytes, if_pos (by omega), List.drop_take, List.take_take, List.drop_drop,
      Nat.min_eq_left (by omega)]
  have hchannel : bodyWord body payload = some _ := bodyWord_eq (by omega)
  have hcmdLen : bodyWord body (payload + 4) = some _ := bodyWord_eq (by omega)
  refine ⟨(malGetLE (body.drop (payload + 4)) + 1).toNat, ?_⟩
  simp only [if_neg hrequest, hlength, if_neg hshort, hword, hchannel, hcmdLen,
    Option.bind_eq_bind, Option.bind_some]
  split_ifs with hlong halloc
  · rfl
  · rfl
  · rw [hbytes hlong, malGetLE_take (by omega)]
    rfl

/-- A frame is dropped, answered with a failure, or dispatched. Only a buffer
that cannot be allocated is answered otherwise. -/
def FrameResult.Lawful (malloc : Nat → Bool) : FrameResult → Prop
  | .drop | .dispatch _ => True
  | .answer _ _ err =>
      err = RIL_E_GENERIC_FAILURE ∨ (err = RIL_E_NO_MEMORY ∧ ∃ size, malloc size = false)

theorem payloadResult_lawful (r : Request) (size : Nat) :
    (payloadResult r (malloc size)).Lawful malloc := by
  unfold payloadResult malCommand
  dsimp only
  split_ifs with hrequest hshort hlong halloc
  · exact Or.inl rfl
  · exact Or.inl rfl
  · exact Or.inl rfl
  · exact Or.inr ⟨rfl, size, by simpa using halloc⟩
  · trivial

/-- The server's two comparisons are one: the header and twelve more bytes are
in the body. -/
theorem header_fits_iff {bodyLen hdrLen : UInt32} :
    ¬(hdrLen > bodyLen ∨ bodyLen - hdrLen < 12) ↔ 12 + hdrLen.toNat ≤ bodyLen.toNat := by
  rw [not_or, gt_iff_lt, UInt32.lt_iff_toNat_lt, UInt32.lt_iff_toNat_lt]
  by_cases hle : hdrLen.toNat ≤ bodyLen.toNat
  · rw [UInt32.toNat_sub_of_le _ _ (UInt32.le_iff_toNat_le.mpr hle)]
    simp only [UInt32.reduceToNat]
    omega
  · omega

theorem payloadLen_toNat {bodyLen hdrLen : UInt32} (hfits : 12 + hdrLen.toNat ≤ bodyLen.toNat) :
    (bodyLen - 12 - hdrLen).toNat = bodyLen.toNat - 12 - hdrLen.toNat := by
  have htwelve : (bodyLen - 12).toNat = bodyLen.toNat - 12 :=
    UInt32.toNat_sub_of_le _ _ (UInt32.le_iff_toNat_le.mpr (Nat.le_of_add_right_le hfits))
  rw [UInt32.toNat_sub_of_le _ _ (UInt32.le_iff_toNat_le.mpr (by omega)), htwelve]

/-- The words in front of the payload are inside the body for every header
length that the server accepts. -/
theorem malFrame_lawful {bodyLen : UInt32} {body : Bytes} (hbody : body.length = bodyLen.toNat)
    (hheader : ¬bodyLen < MAL_HEADER_BYTES) :
    ∃ result, malFrame malloc bodyLen body = some result ∧ result.Lawful malloc := by
  have hlength : 16 ≤ body.length := by
    rw [hbody]
    exact not_lt.mp hheader
  have hfirst : bodyWord body 0 = some (malGetLE (body.drop 0)) := bodyWord_eq (by omega)
  generalize hhdr : malGetLE (body.drop 0) = hdrLen at hfirst
  simp only [malFrame, hfirst, Option.bind_eq_bind, Option.bind_some]
  by_cases hfits : hdrLen > bodyLen ∨ bodyLen - hdrLen < 12
  · exact ⟨.drop, by rw [if_pos hfits], trivial⟩
  · have hroom := header_fits_iff.mp hfits
    have hpayload := payloadLen_toNat hroom
    have hsim : ∃ simId, headerSim body hdrLen = some simId := by
      unfold headerSim
      split_ifs
      · exact ⟨_, bodyWord_eq (by omega)⟩
      · exact ⟨0, rfl⟩
    obtain ⟨simId, hsim⟩ := hsim
    have hrequest : bodyWord body (4 + hdrLen.toNat) = some _ := bodyWord_eq (by omega)
    have hserial : bodyWord body (8 + hdrLen.toNat) = some _ := bodyWord_eq (by omega)
    have hinside : 12 + hdrLen.toNat + (bodyLen - 12 - hdrLen).toNat ≤ body.length := by omega
    obtain ⟨size, hdispatch⟩ := malDispatchPayload_eq malloc simId
      (malGetLE (body.drop (4 + hdrLen.toNat))) (malGetLE (body.drop (8 + hdrLen.toNat))) hinside
    simp only [if_neg hfits, hsim, hrequest, hserial, Option.bind_some]
    exact ⟨_, hdispatch, payloadResult_lawful malloc _ size⟩

end Bounds

section Serving

variable (malloc : Nat → Bool)

/-- A pass stops the connection or takes bytes off the stream. -/
theorem malPass_lawful (events : List SocketEvent) :
    (∃ dropped, malPass malloc events = some (.stop dropped)) ∨
      ∃ result rest, malPass malloc events = some (.next result rest) ∧
        result ≠ .drop ∧ result.Lawful malloc ∧
        (streamBytes rest).length < (streamBytes events).length := by
  unfold malPass
  cases hlen : malReadAll 4 events with
  | failed => exact .inl ⟨true, rfl⟩
  | blocked => exact .inl ⟨false, rfl⟩
  | ok lenBuf middle =>
      simp only
      by_cases hrange : bodyLength lenBuf < MAL_HEADER_BYTES ∨ bodyLength lenBuf > MAL_MAX_FRAME
      · exact .inl ⟨true, by rw [if_pos hrange]⟩
      · rw [if_neg hrange]
        cases hbody : malReadAll (bodyLength lenBuf).toNat middle with
        | failed => exact .inl ⟨true, rfl⟩
        | blocked => exact .inl ⟨false, rfl⟩
        | ok body rest =>
            obtain ⟨hfour, hstream⟩ := malReadAll_ok hlen
            obtain ⟨hlength, hrest⟩ := malReadAll_ok hbody
            obtain ⟨result, hresult, hlawful⟩ :=
              malFrame_lawful malloc hlength (fun hlt => hrange (.inl hlt))
            simp only [hresult, Option.bind_eq_bind, Option.bind_some]
            by_cases hdrop : result = .drop
            · exact .inl ⟨true, by rw [if_pos hdrop]⟩
            · refine .inr ⟨result, rest, by rw [if_neg hdrop], hdrop, hlawful, ?_⟩
              rw [hstream, hrest, List.length_append, List.length_append]
              omega

/-- A loop with more fuel than the stream has bytes comes to its end. -/
theorem malServerLoopFor_lawful : ∀ {fuel : Nat} (events : List SocketEvent),
    (streamBytes events).length < fuel →
      ∃ served, malServerLoopFor malloc fuel events = some served ∧
        ∀ result ∈ served.results, result.Lawful malloc := by
  intro fuel
  induction fuel with
  | zero => exact fun _ hfuel => absurd hfuel (Nat.not_lt_zero _)
  | succ fuel ih =>
      intro events hfuel
      obtain ⟨dropped, hpass⟩ | ⟨result, rest, hpass, -, hlawful, hless⟩ :=
        malPass_lawful malloc events
      · exact ⟨⟨[], dropped⟩, by simp [malServerLoopFor, hpass], nofun⟩
      · obtain ⟨served, hserved, hresults⟩ := ih rest (by omega)
        refine ⟨served.after result, by simp [malServerLoopFor, hpass, hserved], ?_⟩
        rintro other (_ | ⟨_, hother⟩)
        · exact hlawful
        · exact hresults other hother

/-- More fuel than that makes no difference. -/
theorem malServerLoopFor_eq : ∀ {fuel fuel' : Nat} (events : List SocketEvent),
    (streamBytes events).length < fuel → (streamBytes events).length < fuel' →
      malServerLoopFor malloc fuel events = malServerLoopFor malloc fuel' events := by
  intro fuel
  induction fuel with
  | zero => exact fun _ hfuel => absurd hfuel (Nat.not_lt_zero _)
  | succ fuel ih =>
      intro fuel' events hfuel hfuel'
      obtain _ | fuel' := fuel'
      · exact absurd hfuel' (Nat.not_lt_zero _)
      · obtain ⟨dropped, hpass⟩ | ⟨result, rest, hpass, -, -, hless⟩ :=
          malPass_lawful malloc events
        · simp only [malServerLoopFor, hpass, Option.bind_eq_bind, Option.bind_some]
        · have hrest : malServerLoopFor malloc fuel rest = malServerLoopFor malloc fuel' rest :=
            ih rest (by omega) (by omega)
          simp only [malServerLoopFor, hpass, Option.bind_eq_bind, Option.bind_some, hrest]

/-- The loop goes on behind a frame that was answered or dispatched. -/
theorem malServerLoop_next {events rest : List SocketEvent} {result : FrameResult}
    (hpass : malPass malloc events = some (.next result rest)) :
    malServerLoop malloc events = (malServerLoop malloc rest).map (·.after result) := by
  have hless : (streamBytes rest).length < (streamBytes events).length := by
    obtain ⟨dropped, hstop⟩ | ⟨_, _, hnext, -, -, hless⟩ :=
      malPass_lawful malloc events
    · exact absurd (hpass.symm.trans hstop) nofun
    · obtain ⟨-, rfl⟩ := Pass.next.inj (Option.some.inj (hpass.symm.trans hnext))
      exact hless
  have hfuel := malServerLoopFor_eq malloc rest hless
    (Nat.lt_succ_self (streamBytes rest).length)
  rw [malServerLoop, malServerLoop, ← hfuel]
  simp only [malServerLoopFor, hpass, Option.bind_eq_bind, Option.bind_some]
  cases malServerLoopFor malloc (streamBytes events).length rest <;> rfl

end Serving

section RoundTrip

variable (malloc : Nat → Bool)

theorem requestBody_length (r : AtCommand) : (requestBody r).length = 24 + r.cmd.length := by
  simp [requestBody]
  omega

/-- The body of a documented frame is parsed into its own request. -/
theorem malFrame_requestBody (r : AtCommand) (hsize : (requestBody r).length ≤ 65536)
    (halloc : malloc (r.cmd.length + 1) = true) :
    malFrame malloc (UInt32.ofNat (requestBody r).length) (requestBody r) =
      some (.dispatch r.terminated) := by
  rw [requestBody_length] at hsize ⊢
  have hword {offset : Nat} {v : UInt32} {rest : Bytes}
      (hdrop : (requestBody r).drop offset = malPutLE v ++ rest) :
      bodyWord (requestBody r) offset = some v := by
    have hinside : offset + 4 ≤ (requestBody r).length := by
      have hlength := congrArg List.length hdrop
      rw [List.length_drop, List.length_append, malPutLE_length] at hlength
      omega
    rw [bodyWord_eq hinside, hdrop, malGetLE_malPutLE]
  have hheader : bodyWord (requestBody r) 0 = some 4 := hword rfl
  have hsim : bodyWord (requestBody r) 4 = some r.simId := hword rfl
  have hrequest : bodyWord (requestBody r) 8 = some RIL_REQUEST_AT_COMMAND_WITH_PROXY := hword rfl
  have hserial : bodyWord (requestBody r) 12 = some r.serial := hword rfl
  have hchannel : bodyWord (requestBody r) 16 = some r.channel := hword rfl
  have hcmdLen : bodyWord (requestBody r) 20 = some (UInt32.ofNat r.cmd.length) := hword rfl
  have hcmd : bodyBytes (requestBody r) 24 r.cmd.length = some r.cmd := by
    have hdrop : (requestBody r).drop 24 = r.cmd := rfl
    rw [bodyBytes, if_pos (requestBody_length r).ge, hdrop, List.take_length]
  have hbodyLen : (UInt32.ofNat (24 + r.cmd.length)).toNat = 24 + r.cmd.length :=
    UInt32.toNat_ofNat_of_lt' (by simp [UInt32.size]; omega)
  have hlen : (UInt32.ofNat r.cmd.length).toNat = r.cmd.length :=
    UInt32.toNat_ofNat_of_lt' (by simp [UInt32.size]; omega)
  have hroom : 12 + (4 : UInt32).toNat ≤ (UInt32.ofNat (24 + r.cmd.length)).toNat := by
    rw [hbodyLen]
    simp only [UInt32.reduceToNat]
    omega
  have hfits := header_fits_iff.mpr hroom
  have hpayload : (UInt32.ofNat (24 + r.cmd.length) - 12 - 4).toNat = 8 + r.cmd.length := by
    rw [payloadLen_toNat hroom, hbodyLen]
    simp only [UInt32.reduceToNat]
    omega
  have hsize : (UInt32.ofNat r.cmd.length + 1).toNat = r.cmd.length + 1 := by
    rw [UInt32.toNat_add, hlen]
    exact Nat.mod_eq_of_lt (by simp only [UInt32.reduceToNat]; omega)
  have hshort : ¬8 + r.cmd.length < 8 := by omega
  have hlong : ¬r.cmd.length > 8 + r.cmd.length - 8 := by omega
  simp only [malFrame, hheader, Option.bind_eq_bind, Option.bind_some, if_neg hfits, headerSim,
    UInt32.reduceLE, ge_iff_le, if_true, hsim, UInt32.reduceToNat, Nat.reduceAdd, hrequest,
    hserial, malDispatchPayload, hpayload, ne_eq, not_true_eq_false, if_false, hchannel, hcmdLen,
    hlen, if_neg hshort, if_neg hlong, hsize, halloc, Bool.not_true, Bool.false_eq_true, hcmd]
  rfl

/-- One pass takes one frame. -/
theorem malPass_requestFrame {segments : List SocketEvent} {r : AtCommand} {more : Bytes}
    (tail : List SocketEvent) (hsegments : Uninterrupted segments)
    (hstream : streamBytes segments = requestFrame r ++ more)
    (hsize : (requestBody r).length ≤ 65536) (halloc : malloc (r.cmd.length + 1) = true) :
    ∃ rest, Uninterrupted rest ∧ streamBytes rest = more ∧
      malPass malloc (segments ++ tail) = some (.next (.dispatch r.terminated) (rest ++ tail)) := by
  have hlength : (requestFrame r).length = 4 + (requestBody r).length := List.length_append
  have hbodyLen : (UInt32.ofNat (requestBody r).length).toNat = (requestBody r).length :=
    UInt32.toNat_ofNat_of_lt' (by simp only [UInt32.size]; omega)
  have hrange : ¬(UInt32.ofNat (requestBody r).length < MAL_HEADER_BYTES ∨
      UInt32.ofNat (requestBody r).length > MAL_MAX_FRAME) := by
    have hbody := requestBody_length r
    rw [gt_iff_lt, UInt32.lt_iff_toNat_lt, UInt32.lt_iff_toNat_lt, hbodyLen]
    simp only [MAL_HEADER_BYTES, MAL_MAX_FRAME, UInt32.reduceToNat]
    omega
  obtain ⟨middle, hmiddle, hbytes, hread⟩ := malReadAll_append tail hsegments
    (by rw [hstream, List.length_append]; omega : 4 ≤ (streamBytes segments).length)
  have hword : (streamBytes segments).take 4 =
      malPutBE (UInt32.ofNat (requestBody r).length) := by
    rw [hstream]
    rfl
  have hrest : streamBytes middle = requestBody r ++ more := by
    rw [hbytes, hstream]
    rfl
  obtain ⟨rest, hunread, hmore, hbody⟩ := malReadAll_append tail hmiddle
    (by rw [hrest, List.length_append]; omega : (requestBody r).length ≤ _)
  rw [hrest, List.take_left] at hbody
  rw [hrest, List.drop_left] at hmore
  refine ⟨rest, hunread, hmore, ?_⟩
  simp only [malPass, hread, hword, bodyLength_malPutBE, if_neg hrange, hbodyLen, hbody,
    malFrame_requestBody malloc r hsize halloc, Option.bind_eq_bind, Option.bind_some, reduceCtorEq,
    if_false]

/-- Interrupts with no bytes between them are not seen. -/
theorem malServerLoop_no_bytes {segments : List SocketEvent} (tail : List SocketEvent)
    (hsegments : Uninterrupted segments) (hstream : streamBytes segments = []) :
    malServerLoop malloc (segments ++ tail) = malServerLoop malloc tail := by
  induction segments with
  | nil => rfl
  | cons event segments ih =>
      cases event with
      | data b bs => exact absurd hstream nofun
      | closed => exact absurd rfl (hsegments _ List.mem_cons_self).1
      | error => exact absurd rfl (hsegments _ List.mem_cons_self).2
      | eintr =>
          have hpass : malPass malloc (.eintr :: (segments ++ tail)) =
              malPass malloc (segments ++ tail) := rfl
          have hloop : malServerLoop malloc (.eintr :: (segments ++ tail)) =
              malServerLoop malloc (segments ++ tail) := by
            simp only [malServerLoop, streamBytes, malServerLoopFor, hpass]
          rw [List.cons_append, hloop]
          exact ih (fun e he => hsegments e (List.mem_cons_of_mem _ he)) hstream

/-- The parser gives back the requests of a stream of documented frames, and then
goes on with what follows. -/
theorem malServerLoop_requestFrames (tail : List SocketEvent) : ∀ (requests : List AtCommand)
    {segments : List SocketEvent}, Uninterrupted segments →
      streamBytes segments = requests.flatMap requestFrame →
        (∀ r ∈ requests, (requestBody r).length ≤ 65536 ∧ malloc (r.cmd.length + 1) = true) →
          malServerLoop malloc (segments ++ tail) =
            (malServerLoop malloc tail).map fun served =>
              { served with
                results := requests.map (fun r => .dispatch r.terminated) ++ served.results } := by
  intro requests
  induction requests with
  | nil =>
      intro segments hsegments hstream _
      rw [malServerLoop_no_bytes malloc tail hsegments hstream]
      exact Option.map_id.symm ▸ rfl
  | cons r requests ih =>
      intro segments hsegments hstream hrequests
      obtain ⟨hsize, halloc⟩ := hrequests r List.mem_cons_self
      obtain ⟨rest, hrest, hmore, hpass⟩ :=
        malPass_requestFrame malloc tail hsegments hstream hsize halloc
      rw [malServerLoop_next malloc hpass,
        ih hrest hmore fun r hr => hrequests r (List.mem_cons_of_mem _ hr), Option.map_map]
      rfl

/-- On every stream the server stays inside the frames it reads, and drops,
fails or dispatches each; a stream of documented frames is parsed into its
requests, in order and each with a terminator. -/
theorem malServerLoop_safe_and_exact :
    (∀ events, ∃ served, malServerLoop malloc events = some served ∧
      ∀ result ∈ served.results, result.Lawful malloc) ∧
    ∀ (requests : List AtCommand) (segments tail : List SocketEvent), Uninterrupted segments →
      streamBytes segments = requests.flatMap requestFrame →
        (∀ r ∈ requests, (requestBody r).length ≤ 65536 ∧ malloc (r.cmd.length + 1) = true) →
          malServerLoop malloc (segments ++ tail) =
            (malServerLoop malloc tail).map fun served =>
              { served with
                results := requests.map (fun r => .dispatch r.terminated) ++ served.results } :=
  ⟨fun events => malServerLoopFor_lawful malloc events (Nat.lt_succ_self _),
    fun requests _ tail => malServerLoop_requestFrames malloc tail requests⟩

/-- Two frames that arrive in three reads, with an interrupt inside the first
length word. -/
theorem malServerLoop_two_frames :
    let first : AtCommand := ⟨0, 7, 3, [65, 84]⟩
    let second : AtCommand := ⟨1, 8, 0, [65]⟩
    malServerLoop (fun _ => true)
        [.data 0 [0], .eintr, .data 0 (26 :: requestBody first),
          .data 0 (0 :: 0 :: 25 :: requestBody second), .closed] =
      some ⟨[.dispatch ⟨0, 7, 3, [65, 84, 0]⟩, .dispatch ⟨1, 8, 0, [65, 0]⟩], true⟩ := by
  intro first second
  have hparse := (malServerLoop_safe_and_exact fun _ => true).2 [first, second]
    [.data 0 [0], .eintr, .data 0 (26 :: requestBody first),
      .data 0 (0 :: 0 :: 25 :: requestBody second)] [.closed]
    (by unfold Uninterrupted; decide) (by decide) (by decide)
  exact hparse

end RoundTrip

end MeizuM5c.Ril
