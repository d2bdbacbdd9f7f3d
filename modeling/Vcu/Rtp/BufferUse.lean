import Vcu.ByteArray.Safety
import Vcu.Rtp.Bounds
import Vcu.Rtp.Stream

namespace Vcu

-- The ranges that one call of the parser appends to packet_data, in order.
def appended (type : CodecType) (needBox isStart : Bool) (p : List UInt8) : List (List UInt8) :=
  if needBox && (isStart || byteAt p 12 == startByte type) then
    match payloadView type p with
    | some v => v.pieces p
    | none => []
  else []

-- One turn of parser_thread with the packet `p`. The parser starts with an empty packet_data
-- and makes exactly the appends above, each of them with room for its range and the zero.
structure CallRoom (type : CodecType) (needBox : Bool) (p : List UInt8) (t : ParserThread) : Prop where
  empty : t.packetData.bytes = [] ∧ t.packetData.dataSize = 0
  appends : ∃ m r, RtpModel.ofDatagram 0 p = .ok m ∧ parserRtp type needBox m t = .ok r ∧
    r.thread.packetData = appendAll t.packetData (appended type needBox t.isStart p) ∧
    r.thread.packetData.overrun = false
  room : ∀ before s after, appended type needBox t.isStart p = before ++ s :: after →
    (appendAll t.packetData before).dataSize + s.length <
      ((appendAll t.packetData before).reserve s.length).capacity

section Call

variable {type : CodecType} {needBox : Bool} {p : List UInt8} {t : ParserThread}

theorem dataSize_appendAll (a : ByteArray) (pieces : List (List UInt8)) :
    (appendAll a pieces).dataSize = a.dataSize + pieces.flatten.length := by
  induction pieces generalizing a with
  | nil => rfl
  | cons s rest ih =>
      rw [appendAll, List.foldl_cons, ← appendAll, ih, ByteArray.dataSize_append, List.flatten_cons,
        List.length_append, Nat.add_assoc]

-- An empty buffer of the first capacity has room for a packet in pieces.
theorem room_of_roomy {a : ByteArray} (ha : Roomy a) {pieces : List (List UInt8)}
    (hlen : pieces.flatten.length < 2048) :
    (appendAll a pieces).overrun = false ∧
      ∀ before s after, pieces = before ++ s :: after →
        (appendAll a before).dataSize + s.length < ((appendAll a before).reserve s.length).capacity := by
  obtain ⟨hw, hsize, hcap⟩ := ha
  refine ⟨(appendAll_wellFormed hw (by omega)).1.1, ?_⟩
  rintro before s after rfl
  rw [List.flatten_append, List.flatten_cons, List.length_append, List.length_append] at hlen
  have hroom : a.dataSize + before.flatten.length < 2 * a.capacity := by omega
  obtain ⟨hbefore, hgrown⟩ := appendAll_wellFormed hw hroom
  have hdata := dataSize_appendAll a before
  exact (ByteArray.room_iff hbefore s.length).mpr (.inl (by omega))

theorem CallRoom.of_appended (hroomy : Roomy t.packetData) {m : RtpModel} {r : Parsed}
    (hm : RtpModel.ofDatagram 0 p = .ok m) (hr : parserRtp type needBox m t = .ok r)
    (hdata : r.thread.packetData = appendAll t.packetData (appended type needBox t.isStart p))
    (hlen : (appended type needBox t.isStart p).flatten.length < 2048) :
    CallRoom type needBox p t := by
  obtain ⟨hover, hroom⟩ := room_of_roomy hroomy hlen
  refine ⟨⟨?_, hroomy.2.1⟩, ⟨m, r, hm, hr, hdata, by rw [hdata]; exact hover⟩, hroom⟩
  rw [ByteArray.bytes, hroomy.2.1, List.take_zero]

theorem appended_silent (h : needBox = false ∨ t.isStart = false ∧ byteAt p 12 ≠ startByte type) :
    appended type needBox t.isStart p = [] := by
  rw [appended, if_neg]
  rcases h with rfl | ⟨hs, hk⟩
  · simp
  · simp [hs, hk]

theorem appended_started {v : PayloadView} (hs : t.isStart = true ∨ byteAt p 12 = startByte type)
    (hv : payloadView type p = some v) : appended type true t.isStart p = v.pieces p := by
  have hstart : (true && (t.isStart || byteAt p 12 == startByte type)) = true := by
    rcases hs with hs | hs <;> simp [hs]
  rw [appended, if_pos hstart, hv]

theorem length_pieces {v : PayloadView} (hv : payloadView type p = some v) (hskip : v.skip ≤ p.length)
    (hp : p.length ≤ 1500) : (v.pieces p).flatten.length < 2048 := by
  have hlead := payloadView_lead hv
  rw [PayloadView.pieces, List.flatten_append, List.length_append, List.flatten_singleton,
    List.length_drop]
  omega

theorem callRoom_silent (hlow : 15 ≤ p.length) (hroomy : Roomy t.packetData)
    (h : needBox = false ∨ t.isStart = false ∧ byteAt p 12 ≠ startByte type) :
    CallRoom type needBox p t := by
  have hempty := appended_silent h
  obtain ⟨m, hm, hpdata, -⟩ := ofDatagram_ok (p := p) 0 (by omega)
  have hsilent : ∃ r, parserRtp type needBox m t = .ok r ∧ Silent t r := by
    cases needBox with
    | false => exact parserRtp_boxless type t hpdata (by omega)
    | true =>
        obtain ⟨hs, hk⟩ := h.resolve_left nofun
        exact parserRtp_waiting hpdata (by omega) hs hk
  obtain ⟨r, hr, -, -, hdata⟩ := hsilent
  refine .of_appended hroomy hm hr ?_ ?_
  · rw [hempty, hdata]
    rfl
  · rw [hempty]
    exact Nat.zero_lt_succ _

theorem callRoom_started {v : PayloadView} (hlow : 15 ≤ p.length) (hhigh : p.length ≤ 1500)
    (hroomy : Roomy t.packetData) (hs : t.isStart = true ∨ byteAt p 12 = startByte type)
    (hv : payloadView type p = some v) (hskip : v.skip ≤ p.length) (ha : v.allows p) :
    CallRoom type true p t := by
  obtain ⟨m, hm, hpdata, hlen⟩ := ofDatagram_ok (p := p) 0 (by omega)
  have hhandles : Handles t p (payloadView type p) (parserRtp type true m t) :=
    parserRtp_started hpdata hlen (by omega) hs
  rw [hv] at hhandles
  simp only [Handles, hskip, if_true] at hhandles
  obtain ⟨r, hr, -, -, -, hdata⟩ := hhandles.1 ha
  have happended := appended_started hs hv
  refine .of_appended hroomy hm hr ?_ ?_
  · rw [happended, hdata]
  · rw [happended]
    exact length_pieces hv hskip hhigh

-- A packet of this size is parsed with room in the buffer unless it fails a check.
theorem callRoom_of_roomy (hlow : 15 ≤ p.length) (hhigh : p.length ≤ 1500)
    (hroomy : Roomy t.packetData)
    (hcheck : ∀ exp, handleDatagram type needBox p t ≠ .error (.checkFailed exp)) :
    CallRoom type needBox p t := by
  by_cases hb : needBox = false ∨ t.isStart = false ∧ byteAt p 12 ≠ startByte type
  · exact callRoom_silent hlow hroomy hb
  simp only [not_or, Bool.not_eq_false, not_and, not_not] at hb
  obtain ⟨rfl, hk⟩ := hb
  have hs : t.isStart = true ∨ byteAt p 12 = startByte type := by
    cases hst : t.isStart with
    | false => exact .inr (hk hst)
    | true => exact .inl rfl
  cases hv : payloadView type p with
  | none => exact absurd (handleDatagram_reject (by omega) hs hv) (hcheck _)
  | some v =>
      have hskip : v.skip ≤ p.length := by
        rw [payloadView_skip hv]
        split
        · cases type <;> simp only [fuPayload] <;> omega
        · omega
      by_cases ha : v.allows p
      · exact callRoom_started hlow hhigh hroomy hs hv hskip ha
      · obtain ⟨exp, he⟩ := handleDatagram_check (by omega) hs hv hskip ha
        exact absurd he (hcheck exp)

theorem longEnough_of_le (hlow : 15 ≤ p.length) : LongEnough type needBox t.isStart p := by
  refine ⟨by omega, fun _ => ⟨by omega, fun _ _ => ?_⟩⟩
  cases type <;> simp only [fuPayload] <;> omega

theorem handleDatagram_total (hlow : 15 ≤ p.length)
    (hcheck : ∀ exp, handleDatagram type needBox p t ≠ .error (.checkFailed exp)) :
    ∃ call u, handleDatagram type needBox p t = .ok (call, u) := by
  cases hd : handleDatagram type needBox p t with
  | ok result => exact ⟨result.1, result.2, rfl⟩
  | error f =>
      cases hf : f.isCheck with
      | false => exact absurd ⟨f, hd, hf⟩ (handleDatagram_inRange (longEnough_of_le hlow))
      | true =>
          cases f with
          | checkFailed exp => exact absurd hd (hcheck exp)
          | outOfRange index length => cases hf
          | negativeLength len => cases hf

end Call

section Run

variable {type : CodecType} {es : List (Bool × List UInt8)} {t : ParserThread}

-- By induction over the packets. The buffer is empty and keeps its first capacity.
theorem feed_callRoom (hlen : ∀ e ∈ es, 15 ≤ e.2.length ∧ e.2.length ≤ 1500)
    (hroomy : Roomy t.packetData) (hcheck : ∀ exp, feed type es t ≠ .error (.checkFailed exp))
    {before after : List (Bool × List UInt8)} {needBox : Bool} {p : List UInt8}
    (hsplit : es = before ++ (needBox, p) :: after) :
    ∃ calls u, feed type before t = .ok (calls, u) ∧ CallRoom type needBox p u := by
  induction before generalizing es t with
  | nil =>
      subst hsplit
      obtain ⟨hlow, hhigh⟩ := hlen _ (List.mem_cons_self ..)
      exact ⟨[], t, rfl, callRoom_of_roomy hlow hhigh hroomy
        fun exp he => hcheck exp (feed_cons_error after he)⟩
  | cons e before ih =>
      subst hsplit
      obtain ⟨box, q⟩ := e
      obtain ⟨hlow, hhigh⟩ := hlen _ (List.mem_cons_self ..)
      have hnocheck : ∀ exp, handleDatagram type box q t ≠ .error (.checkFailed exp) :=
        fun exp he => hcheck exp (feed_cons_error _ he)
      obtain ⟨call, u, hu⟩ := handleDatagram_total hlow hnocheck
      obtain ⟨calls, v, hv, hroom⟩ := ih (fun e he => hlen e (List.mem_cons_of_mem _ he))
        (handleDatagram_roomy (by omega) hhigh hroomy hu)
        (fun exp he => hcheck exp (feed_cons_error_right hu he)) rfl
      exact ⟨call.toList ++ calls, v, feed_cons_ok hu hv, hroom⟩

-- Every turn of parser_thread starts with an empty packet_data and has room for its appends.
theorem parserThread_bufferUse (hlen : ∀ e ∈ es, 15 ≤ e.2.length ∧ e.2.length ≤ 1500)
    (hcheck : ∀ exp, feed type es {} ≠ .error (.checkFailed exp)) :
    ∀ before needBox p after, es = before ++ (needBox, p) :: after →
      ∃ calls t, feed type before {} = .ok (calls, t) ∧ CallRoom type needBox p t :=
  fun _ _ _ _ hsplit => feed_callRoom hlen roomy_init hcheck hsplit

end Run

-- A parameter set with two more bytes.
def spsPacket : List UInt8 :=
  [0x80, 0x60, 0, 1, 0, 0, 0, 0, 0, 0, 0, 1, 0x67, 1, 2]

theorem parserThread_bufferUse_sps :
    ∃ calls t, feed .H264 [(true, spsPacket)] {} = .ok (calls, t) ∧ CallRoom .H264 true spsPacket t := by
  have hlen : ∀ e ∈ [(true, spsPacket), (true, spsPacket)], 15 ≤ e.2.length ∧ e.2.length ≤ 1500 := by
    decide
  have hcheck : ∀ exp,
      feed .H264 [(true, spsPacket), (true, spsPacket)] {} ≠ .error (.checkFailed exp) := by
    intro exp he
    obtain ⟨result, hresult⟩ : ∃ result,
        feed .H264 [(true, spsPacket), (true, spsPacket)] {} = .ok result := ⟨_, rfl⟩
    rw [hresult] at he
    cases he
  exact parserThread_bufferUse hlen hcheck [(true, spsPacket)] true spsPacket [] rfl

end Vcu
