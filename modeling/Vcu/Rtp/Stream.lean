import Vcu.Rtp.Packets

namespace Vcu

open NalFragment

-- Between two packets of a stream that has started.
def Ready (t : ParserThread) : Prop := t.isStart = true ∧ Idle t

-- Between two packets while the parser waits for a start packet.
def Waiting (t : ParserThread) : Prop := t.isStart = false ∧ Idle t

section Feed

variable {type : CodecType} {t u v : ParserThread} {es fs : List (Bool × List UInt8)}
  {calls more : List Callback}

theorem feed_cons_ok {needBox : Bool} {p : List UInt8} {call : Option Callback}
    (h : handleDatagram type needBox p t = .ok (call, u)) (hf : feed type es u = .ok (calls, v)) :
    feed type ((needBox, p) :: es) t = .ok (call.toList ++ calls, v) := by
  simp only [feed, h, hf, ok_bind, pure_eq_ok]

theorem feed_cons_error (es : List (Bool × List UInt8)) {needBox : Bool} {p : List UInt8} {f : Fault}
    (h : handleDatagram type needBox p t = .error f) :
    feed type ((needBox, p) :: es) t = .error f := by
  simp only [feed, h, error_bind]

theorem feed_cons_error_right {needBox : Bool} {p : List UInt8} {call : Option Callback} {f : Fault}
    (h : handleDatagram type needBox p t = .ok (call, u)) (hf : feed type es u = .error f) :
    feed type ((needBox, p) :: es) t = .error f := by
  simp only [feed, h, hf, ok_bind, error_bind]

theorem feed_append :
    feed type (es ++ fs) t = (do
      let (calls, u) ← feed type es t
      let (more, v) ← feed type fs u
      return (calls ++ more, v)) := by
  induction es generalizing t with
  | nil =>
      simp only [List.nil_append, feed, ok_bind]
      cases feed type fs t with
      | error f => rfl
      | ok r => rfl
  | cons e es ih =>
      obtain ⟨needBox, p⟩ := e
      simp only [List.cons_append, feed]
      cases handleDatagram type needBox p t with
      | error f => rfl
      | ok r =>
          simp only [ok_bind, ih]
          cases feed type es r.2 with
          | error f => rfl
          | ok s =>
              simp only [ok_bind, pure_eq_ok]
              cases feed type fs s.2 with
              | error f => rfl
              | ok w => simp only [ok_bind, List.append_assoc]

theorem feed_append_ok (h : feed type es t = .ok (calls, u)) (hf : feed type fs u = .ok (more, v)) :
    feed type (es ++ fs) t = .ok (calls ++ more, v) := by
  simp only [feed_append, h, hf, ok_bind, pure_eq_ok]

theorem feed_append_error {f : Fault} (h : feed type es t = .error f) :
    feed type (es ++ fs) t = .error f := by
  simp only [feed_append, h, error_bind]

theorem feed_append_error_right {f : Fault} (h : feed type es t = .ok (calls, u))
    (hf : feed type fs u = .error f) : feed type (es ++ fs) t = .error f := by
  simp only [feed_append, h, hf, ok_bind, error_bind]

end Feed

namespace Wire

variable {type : CodecType} {H : Type} (w : Wire type H)

-- The datagrams of the units in order, all parsed while boxes are wanted.
def stream (units : List (Sending H)) : List (Bool × List UInt8) :=
  units.flatMap fun x => (x.packets w.format).map fun p => (true, p.bytes)

def Valid (x : Sending H) : Prop := w.sendable x.fragmented x.header

-- The unit in the byte stream of the decoder, as the standard wants it.
def expected (x : Sending H) : List UInt8 := iden ++ x.unit w.format

-- What the parser makes of it.
def emitted (x : Sending H) : List UInt8 :=
  iden ++ (if x.fragmented then w.rebuilt x.header else w.format.whole x.header) ++ x.body

-- The units the parser takes as the start of a stream.
def starts (x : Sending H) : Bool := !x.fragmented && w.key x.header == startByte type

theorem stream_cons (x : Sending H) (units : List (Sending H)) :
    w.stream (x :: units) = w.stream [x] ++ w.stream units := by
  simp [stream]

theorem length_emitted (x : Sending H) : (w.emitted x).length = (w.expected x).length := by
  unfold emitted expected Sending.unit
  split <;> simp [w.length_rebuilt]

section Packet

variable {w} {t : ParserThread} {h : H} (rtp : FixedHeader) (first last : Bool)
  (chunk body : List UInt8)

theorem fragment_bounds {first last : Bool} {v : PayloadView} (hskip : v.skip = 12 + (w.format.fragment first last h).length) :
    v.skip ≤ (rtp.toList ++ (w.format.fragment first last h ++ chunk)).length := by
  rw [length_datagram, List.length_append]
  omega

theorem fragment_allows {first last : Bool} {v : PayloadView} (hv : v.mark = fragmentMark first last) :
    v.allows (rtp.toList ++ (w.format.fragment first last h ++ chunk)) ↔
      ∀ mark ∈ fragmentMark first last, marked rtp = mark := by
  rw [PayloadView.allows, hv, markOf_rtp]

theorem whole_ok (hw : w.sendable false h) (hi : Idle t)
    (hs : t.isStart = true ∨ w.key h = startByte type) :
    ∃ call u, handleDatagram type true (rtp.toList ++ (w.format.whole h ++ body)) t =
        .ok (some call, u) ∧ Ready u ∧ call.pdata = iden ++ (w.format.whole h ++ body) := by
  have hlen : 12 < (rtp.toList ++ (w.format.whole h ++ body)).length := by
    have := w.whole_nonempty h
    rw [length_datagram, List.length_append]
    omega
  have hv := w.whole_view rtp h body hw
  rw [← w.whole_key rtp h body] at hs
  obtain ⟨time, u, hu, hstart, hdata⟩ :=
    handleDatagram_ok hlen hs hi hv (Nat.le_of_lt hlen) allows_none
  refine ⟨_, u, hu, ⟨hstart, ?_⟩, ?_⟩
  · rw [Idle, hdata, ByteArray.dataSize_clear]
  · simp [PayloadView.pieces, drop_payload rtp _ 0]

theorem fragment_length :
    12 < (rtp.toList ++ (w.format.fragment first last h ++ chunk)).length := by
  have := w.fragment_nonempty first last h
  rw [length_datagram, List.length_append]
  omega

theorem fragment_ok (hw : w.sendable true h) (hr : Ready t)
    (hm : ∀ mark ∈ fragmentMark first last, marked rtp = mark) :
    ∃ call u, handleDatagram type true
        (rtp.toList ++ (w.format.fragment first last h ++ chunk)) t = .ok (some call, u) ∧ Ready u ∧
      call.pdata = (if first then iden ++ w.rebuilt h else []) ++ chunk := by
  obtain ⟨v, hv, hskip, hmark, hlead⟩ := w.fragment_view rtp first last h chunk hw
  have hb := fragment_bounds rtp chunk hskip
  obtain ⟨time, u, hu, hstart, hdata⟩ :=
    handleDatagram_ok (fragment_length rtp first last chunk) (.inl hr.1) hr.2 hv hb ((fragment_allows rtp chunk hmark).mpr hm)
  refine ⟨_, u, hu, ⟨hstart, ?_⟩, ?_⟩
  · rw [Idle, hdata, ByteArray.dataSize_clear]
  · rw [PayloadView.pieces, List.flatten_append, hlead, hskip, drop_payload]
    simp

theorem fragment_check (hw : w.sendable true h) (hr : Ready t)
    (hm : ¬ ∀ mark ∈ fragmentMark first last, marked rtp = mark) :
    ∃ exp, handleDatagram type true
      (rtp.toList ++ (w.format.fragment first last h ++ chunk)) t = .error (.checkFailed exp) := by
  obtain ⟨v, hv, hskip, hmark, -⟩ := w.fragment_view rtp first last h chunk hw
  have hb := fragment_bounds rtp chunk hskip
  exact handleDatagram_check (fragment_length rtp first last chunk) (.inl hr.1) hv hb (mt (fragment_allows rtp chunk hmark).mp hm)

end Packet

section Unit

variable {w} {t : ParserThread} {x : Sending H}

theorem feed_middle {h : H} (hw : w.sendable true h) (middle : List Piece) (hr : Ready t) :
    ∃ calls u, feed type (middle.map fun piece =>
        (true, piece.1.toList ++ (w.format.fragment false false h ++ piece.2))) t = .ok (calls, u) ∧
      Ready u ∧ calls.flatMap Callback.pdata = middle.flatMap Prod.snd := by
  induction middle generalizing t with
  | nil => exact ⟨[], t, rfl, hr, rfl⟩
  | cons piece middle ih =>
      obtain ⟨call, v, hv, hrv, hcall⟩ :=
        fragment_ok piece.1 false false piece.2 hw hr nofun
      obtain ⟨calls, u, hu, hru, hcalls⟩ := ih hrv
      refine ⟨call :: calls, u, feed_cons_ok hv hu, hru, ?_⟩
      rw [List.flatMap_cons, hcall, hcalls]
      rfl

theorem stream_fragments (h : H) (first last : Piece) (middle : List Piece) :
    w.stream [.fragments h first middle last] =
      (true, first.1.toList ++ (w.format.fragment true false h ++ first.2)) ::
        ((middle.map fun piece =>
          (true, piece.1.toList ++ (w.format.fragment false false h ++ piece.2))) ++
        [(true, last.1.toList ++ (w.format.fragment false true h ++ last.2))]) := by
  simp [stream, Sending.packets, Packet.bytes]

-- A unit that reaches a started parser whole, or with the marker bits the checks ask for.
theorem feed_unit_ok (hx : w.Valid x) (hm : x.EndsMarked) (hr : Ready t) :
    ∃ calls u, feed type (w.stream [x]) t = .ok (calls, u) ∧ Ready u ∧
      calls.flatMap Callback.pdata = w.emitted x := by
  cases x with
  | whole rtp h body =>
      obtain ⟨call, u, hu, hru, hcall⟩ := whole_ok rtp body hx hr.2 (.inl hr.1)
      refine ⟨[call], u, feed_cons_ok hu rfl, hru, ?_⟩
      simp [hcall, emitted, Sending.fragmented, Sending.header, Sending.body]
  | fragments h first middle last =>
      obtain ⟨hfirst, hlast⟩ := hm
      obtain ⟨call, v, hv, hrv, hcall⟩ :=
        fragment_ok first.1 true false first.2 hx hr
          (by simpa [fragmentMark] using hfirst)
      obtain ⟨calls, v', hv', hrv', hcalls⟩ := feed_middle hx middle hrv
      obtain ⟨call', u, hu, hru, hcall'⟩ :=
        fragment_ok last.1 false true last.2 hx hrv'
          (by simpa [fragmentMark] using hlast)
      refine ⟨call :: (calls ++ [call']), u, ?_, hru, ?_⟩
      · rw [stream_fragments]
        exact feed_cons_ok hv (feed_append_ok hv' (feed_cons_ok hu rfl))
      · rw [List.flatMap_cons, List.flatMap_append, hcall, hcalls, List.flatMap_singleton, hcall']
        simp [emitted, Sending.fragmented, Sending.header, Sending.body]

theorem feed_unit_check (hx : w.Valid x) (hm : ¬ x.EndsMarked) (hr : Ready t) :
    ∃ exp, feed type (w.stream [x]) t = .error (.checkFailed exp) := by
  cases x with
  | whole rtp h body => exact absurd trivial hm
  | fragments h first middle last =>
      rw [stream_fragments]
      by_cases hfirst : marked first.1 = false
      swap
      · obtain ⟨exp, he⟩ := fragment_check first.1 true false first.2 hx hr
          (by simpa [fragmentMark] using hfirst)
        exact ⟨exp, feed_cons_error _ he⟩
      have hlast : ¬ marked last.1 = true := fun hl => hm ⟨hfirst, hl⟩
      obtain ⟨call, v, hv, hrv, -⟩ :=
        fragment_ok first.1 true false first.2 hx hr
          (by simpa [fragmentMark] using hfirst)
      obtain ⟨calls, v', hv', hrv', -⟩ := feed_middle hx middle hrv
      obtain ⟨exp, he⟩ := fragment_check last.1 false true last.2 hx hrv'
        (by simpa [fragmentMark] using hlast)
      have htail := feed_append_error_right hv' (feed_cons_error [] he)
      exact ⟨exp, feed_cons_error_right hv htail⟩

theorem silent_stream {packets : List (List UInt8)} (hw : Waiting t)
    (hp : ∀ p ∈ packets, 12 < p.length ∧ byteAt p 12 ≠ startByte type) :
    ∃ u, feed type (packets.map fun p => (true, p)) t = .ok ([], u) ∧ Waiting u := by
  induction packets generalizing t with
  | nil => exact ⟨t, rfl, hw⟩
  | cons p packets ih =>
      obtain ⟨hlen, hk⟩ := hp p (by simp)
      obtain ⟨v, hv, hstart, hdata⟩ := handleDatagram_silent hlen (.inr ⟨hw.1, hk⟩)
      obtain ⟨u, hu, hwu⟩ := ih ⟨hstart, by rw [Idle, hdata]; exact hw.2⟩
        fun q hq => hp q (List.mem_cons_of_mem _ hq)
      exact ⟨u, feed_cons_ok hv hu, hwu⟩

theorem mem_fragments {h : H} {first last : Piece} {middle : List Piece} {q : Packet}
    (hq : q ∈ (Sending.fragments h first middle last).packets w.format) :
    ∃ (rtp : FixedHeader) (S E : Bool) (chunk : List UInt8),
      q = ⟨rtp, w.format.fragment S E h ++ chunk⟩ := by
  simp only [Sending.packets, List.mem_append, List.mem_cons, List.mem_map, List.not_mem_nil,
    or_false] at hq
  rcases hq with (rfl | ⟨piece, -, rfl⟩) | rfl
  · exact ⟨_, _, _, _, rfl⟩
  · exact ⟨_, _, _, _, rfl⟩
  · exact ⟨_, _, _, _, rfl⟩

-- Before the start only a start unit gets through.
theorem feed_unit_waiting (hx : w.starts x = false) (ht : Waiting t) :
    ∃ u, feed type (w.stream [x]) t = .ok ([], u) ∧ Waiting u := by
  have hs : w.stream [x] = ((x.packets w.format).map Packet.bytes).map fun p => (true, p) := by
    simp [stream]
  rw [hs]
  refine silent_stream ht fun p hp => ?_
  obtain ⟨q, hq, rfl⟩ := List.mem_map.mp hp
  cases x with
  | whole rtp h body =>
      obtain rfl := List.mem_singleton.mp hq
      have hk : w.key h ≠ startByte type := by
        simpa [starts, Sending.fragmented, Sending.header] using hx
      refine ⟨?_, by rw [Packet.bytes, w.whole_key]; exact hk⟩
      have := w.whole_nonempty h
      rw [Packet.bytes, length_datagram, List.length_append]
      omega
  | fragments h first middle last =>
      obtain ⟨rtp, S, E, chunk, rfl⟩ := mem_fragments hq
      exact ⟨fragment_length rtp S E chunk, w.fragment_key rtp S E h chunk⟩

theorem feed_start_ok (hx : w.Valid x) (hs : w.starts x = true) (hi : Idle t) :
    ∃ calls u, feed type (w.stream [x]) t = .ok (calls, u) ∧ Ready u ∧
      calls.flatMap Callback.pdata = w.emitted x := by
  cases x with
  | whole rtp h body =>
      have hk : w.key h = startByte type := by
        simpa [starts, Sending.fragmented, Sending.header] using hs
      obtain ⟨call, u, hu, hru, hcall⟩ := whole_ok rtp body hx hi (.inr hk)
      refine ⟨[call], u, feed_cons_ok hu rfl, hru, ?_⟩
      simp [hcall, emitted, Sending.fragmented, Sending.header, Sending.body]
  | fragments h first middle last => simp [starts, Sending.fragmented] at hs

end Unit

-- A stream whose first unit starts the parser comes out unit by unit.
theorem feed_stream {t : ParserThread} {x : Sending H} {units : List (Sending H)}
    (hx : w.starts x = true) (hv : ∀ y ∈ x :: units, w.Valid y) (hm : ∀ y ∈ units, y.EndsMarked)
    (hi : Idle t) :
    ∃ calls u, feed type (w.stream (x :: units)) t = .ok (calls, u) ∧ Ready u ∧
      calls.flatMap Callback.pdata = (x :: units).flatMap w.emitted := by
  have hrest : ∀ v, Ready v → ∃ calls u, feed type (w.stream units) v = .ok (calls, u) ∧ Ready u ∧
      calls.flatMap Callback.pdata = units.flatMap w.emitted := by
    clear hx hi
    induction units with
    | nil => exact fun v hr => ⟨[], v, rfl, hr, rfl⟩
    | cons y units ih =>
        intro v hr
        obtain ⟨calls, v', hv', hr', hc⟩ :=
          feed_unit_ok (w := w) (hv y (by simp)) (hm y (by simp)) hr
        obtain ⟨more, u, hu, hru, hmore⟩ := ih
          (fun z hz => hv z (by
            rcases List.mem_cons.mp hz with rfl | hz
            · simp
            · simp [hz]))
          (fun z hz => hm z (List.mem_cons_of_mem _ hz)) v' hr'
        refine ⟨calls ++ more, u, ?_, hru, ?_⟩
        · rw [stream_cons]
          exact feed_append_ok hv' hu
        · rw [List.flatMap_append, hc, hmore, List.flatMap_cons]
  obtain ⟨calls, v, hcv, hr, hc⟩ := feed_start_ok (hv x (by simp)) hx hi
  obtain ⟨more, u, hu, hru, hmore⟩ := hrest v hr
  refine ⟨calls ++ more, u, ?_, hru, ?_⟩
  · rw [stream_cons]
    exact feed_append_ok hcv hu
  · rw [List.flatMap_append, hc, hmore, List.flatMap_cons]

end Wire

end Vcu
