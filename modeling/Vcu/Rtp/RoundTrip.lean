import Vcu.Rtp.Bounds
import Vcu.Rtp.Stream

namespace Vcu

open NalFragment

theorem feed_roomy {type : CodecType} {es : List (Bool × List UInt8)} {t u : ParserThread}
    {calls : List Callback} (hlen : ∀ e ∈ es, 12 < e.2.length ∧ e.2.length ≤ 1500)
    (ht : Roomy t.packetData) (h : feed type es t = .ok (calls, u)) : Roomy u.packetData := by
  induction es generalizing t calls with
  | nil =>
      cases h
      exact ht
  | cons e es ih =>
      obtain ⟨needBox, p⟩ := e
      obtain ⟨hlow, hhigh⟩ := hlen _ (List.mem_cons_self ..)
      simp only [feed] at h
      cases hd : handleDatagram type needBox p t with
      | error f =>
          rw [hd, error_bind] at h
          cases h
      | ok r =>
          rw [hd, ok_bind] at h
          cases hf : feed type es r.2 with
          | error f =>
              simp only [hf, error_bind] at h
              cases h
          | ok s =>
              simp only [hf, ok_bind, pure_eq_ok] at h
              cases h
              exact ih (fun e he => hlen e (List.mem_cons_of_mem _ he))
                (handleDatagram_roomy hlow hhigh ht hd) hf

namespace Wire

variable {type : CodecType} {H : Type} (w : Wire type H)

theorem stream_length {units : List (Sending H)} {e : Bool × List UInt8}
    (he : e ∈ w.stream units) : 12 < e.2.length := by
  simp only [stream, List.mem_flatMap, List.mem_map] at he
  obtain ⟨x, -, p, hp, rfl⟩ := he
  cases x with
  | whole rtp h body =>
      obtain rfl := List.mem_singleton.mp hp
      have := w.whole_nonempty h
      rw [Packet.bytes, length_datagram, List.length_append]
      omega
  | fragments h first middle last =>
      obtain ⟨rtp, S, E, chunk, rfl⟩ := mem_fragments hp
      exact fragment_length rtp S E chunk

-- The bytes of a stream come out unchanged exactly when every unit does.
theorem round_trip_iff {t : ParserThread} {x : Sending H} {units : List (Sending H)}
    (hx : w.starts x = true) (hv : ∀ y ∈ x :: units, w.Valid y) (hm : ∀ y ∈ units, y.EndsMarked)
    (hi : Idle t) :
    ∃ calls u, feed type (w.stream (x :: units)) t = .ok (calls, u) ∧
      (calls.flatMap Callback.pdata = (x :: units).flatMap w.expected ↔
        ∀ y ∈ x :: units, w.emitted y = w.expected y) ∧
      (Roomy t.packetData → (∀ e ∈ w.stream (x :: units), e.2.length ≤ 1500) →
        Roomy u.packetData) := by
  obtain ⟨calls, u, hu, -, hc⟩ := w.feed_stream hx hv hm hi
  refine ⟨calls, u, hu, ?_, fun hr hs => ?_⟩
  · rw [hc]
    exact flatMap_eq_iff fun y _ => w.length_emitted y
  · exact feed_roomy (fun e he => ⟨w.stream_length he, hs e he⟩) hr hu

end Wire

theorem emitted_264 (x : Sending UInt8) : wire264.emitted x = wire264.expected x := by
  cases x <;> rfl

theorem layer_bit (b : UInt8) : b &&& 0xfe = b ↔ b &&& 1 = 0 := by
  revert b
  exact forall_byte (by decide +kernel)

theorem emitted_265 (x : Sending (UInt8 × UInt8)) :
    wire265.emitted x = wire265.expected x ↔ (x.fragmented = true → x.header.1 &&& 1 = 0) := by
  cases x with
  | whole rtp h body => exact ⟨fun _ hf => absurd hf (by simp [Sending.fragmented]), fun _ => rfl⟩
  | fragments h first middle last =>
      have hl : wire265.emitted (.fragments h first middle last) =
          wire265.expected (.fragments h first middle last) ↔ h.1 &&& 0xfe = h.1 := by
        simp [Wire.emitted, Wire.expected, Sending.unit, Sending.fragmented, Sending.header, wire265,
          hevc]
      rw [hl, layer_bit]
      simp [Sending.fragmented, Sending.header]

-- Single NAL packets and FU-A packets of H.264 give back the units they were made of, and no
-- datagram of the socket's size writes past the packet buffer.
theorem h264_round_trip (t : ParserThread) (rtp : FixedHeader) (body : List UInt8)
    (units : List (Sending UInt8)) (hi : Idle t)
    (hv : ∀ x ∈ units, wire264.Valid x) (hm : ∀ x ∈ units, x.EndsMarked) :
    ∃ calls u, feed .H264 (wire264.stream (.whole rtp 0x67 body :: units)) t = .ok (calls, u) ∧
      calls.flatMap Callback.pdata =
        (Sending.whole rtp 0x67 body :: units).flatMap wire264.expected ∧
      (Roomy t.packetData →
        (∀ e ∈ wire264.stream (.whole rtp 0x67 body :: units), e.2.length ≤ 1500) →
        Roomy u.packetData) := by
  have h7 : 1 ≤ (0x67 : UInt8) &&& 0x1f ∧ (0x67 : UInt8) &&& 0x1f ≤ 23 := by decide
  have hx : wire264.Valid (.whole rtp 0x67 body) := .inr h7
  obtain ⟨calls, u, hu, hc, hr⟩ := wire264.round_trip_iff (t := t) (x := .whole rtp 0x67 body)
    rfl (List.forall_mem_cons.mpr ⟨hx, hv⟩) hm hi
  exact ⟨calls, u, hu, hc.mpr fun x _ => emitted_264 x, hr⟩

theorem h264_round_trip_idr :
    ∃ calls u, feed .H264 (wire264.stream [.whole plainRtp 0x67 [0x42],
        .fragments 0x65 (plainRtp, [1, 2]) [(plainRtp, [])] (markedRtp, [3])]) {} = .ok (calls, u) ∧
      calls.flatMap Callback.pdata = [0, 0, 0, 1, 0x67, 0x42, 0, 0, 0, 1, 0x65, 1, 2, 3] := by
  have hv : ∀ x ∈ [Sending.fragments (0x65 : UInt8) (plainRtp, [1, 2]) [(plainRtp, [])]
      (markedRtp, [3])], wire264.Valid x := fun x hx => by
    obtain rfl := List.mem_singleton.mp hx
    exact .inl rfl
  have hm : ∀ x ∈ [Sending.fragments (0x65 : UInt8) (plainRtp, [1, 2]) [(plainRtp, [])]
      (markedRtp, [3])], x.EndsMarked := fun x hx => by
    obtain rfl := List.mem_singleton.mp hx
    exact ⟨by decide, by decide⟩
  obtain ⟨calls, u, hu, hc, -⟩ := h264_round_trip {} plainRtp [0x42] _ rfl hv hm
  exact ⟨calls, u, hu, hc⟩

theorem vps265_valid (rtp : FixedHeader) (second : UInt8) (body : List UInt8) :
    wire265.Valid (.whole rtp (0x40, second) body) :=
  show ((0x40 : UInt8) >>> 1) &&& 0x3f ≤ 47 by decide

-- With H.265 the lowest bit of the first header byte, which is the top bit of nuh_layer_id, does
-- not survive fragmentation. Everything else does.
theorem h265_round_trip_iff (t : ParserThread) (rtp : FixedHeader) (second : UInt8)
    (body : List UInt8) (units : List (Sending (UInt8 × UInt8))) (hi : Idle t)
    (hv : ∀ x ∈ units, wire265.Valid x) (hm : ∀ x ∈ units, x.EndsMarked) :
    ∃ calls u,
      feed .H265 (wire265.stream (.whole rtp (0x40, second) body :: units)) t = .ok (calls, u) ∧
      (calls.flatMap Callback.pdata =
          (Sending.whole rtp (0x40, second) body :: units).flatMap wire265.expected ↔
        ∀ x ∈ units, x.fragmented = true → x.header.1 &&& 1 = 0) ∧
      (Roomy t.packetData →
        (∀ e ∈ wire265.stream (.whole rtp (0x40, second) body :: units), e.2.length ≤ 1500) →
        Roomy u.packetData) := by
  obtain ⟨calls, u, hu, hc, hr⟩ := wire265.round_trip_iff (t := t)
    (x := .whole rtp (0x40, second) body) rfl
    (List.forall_mem_cons.mpr ⟨vps265_valid rtp second body, hv⟩) hm hi
  refine ⟨calls, u, hu, ?_, hr⟩
  simp only [hc, emitted_265, List.forall_mem_cons]
  exact and_iff_right fun hf => absurd hf Bool.false_ne_true

-- A slice of layer 32 in two fragments.
def layeredSlice : Sending (UInt8 × UInt8) :=
  .fragments (0x03, 0x01) (plainRtp, [1]) [] (markedRtp, [2])

theorem layeredSlice_valid : ∀ x ∈ [layeredSlice], wire265.Valid x ∧ x.EndsMarked := by
  intro x hx
  obtain rfl := List.mem_singleton.mp hx
  exact ⟨show ((0x03 : UInt8) >>> 1) &&& 0x3f ≤ 47 by decide, by decide, by decide⟩

theorem h265_round_trip_layered :
    ∃ calls u, feed .H265 (wire265.stream [.whole plainRtp (0x40, 0x01) [], layeredSlice]) {} =
        .ok (calls, u) ∧
      calls.flatMap Callback.pdata ≠
        [Sending.whole plainRtp (0x40, 0x01) [], layeredSlice].flatMap wire265.expected := by
  obtain ⟨calls, u, hu, hc, -⟩ := h265_round_trip_iff {} plainRtp 0x01 [] [layeredSlice] rfl
    (fun x hx => (layeredSlice_valid x hx).1) (fun x hx => (layeredSlice_valid x hx).2)
  refine ⟨calls, u, hu, fun he => ?_⟩
  exact absurd (hc.mp he layeredSlice (by simp) rfl) (by decide)

theorem h265_layer_bit_lost :
    ¬ ∀ (t : ParserThread) (rtp : FixedHeader) (second : UInt8) (body : List UInt8)
      (units : List (Sending (UInt8 × UInt8))), t.isStart = false → Idle t →
      (∀ x ∈ units, wire265.Valid x) → (∀ x ∈ units, x.EndsMarked) →
      ∃ calls u,
        feed .H265 (wire265.stream (.whole rtp (0x40, second) body :: units)) t = .ok (calls, u) ∧
        calls.flatMap Callback.pdata =
          (Sending.whole rtp (0x40, second) body :: units).flatMap wire265.expected := by
  intro h
  obtain ⟨calls, u, hu, hc⟩ := h {} plainRtp 0x01 [] [layeredSlice] rfl rfl
    (fun x hx => (layeredSlice_valid x hx).1) (fun x hx => (layeredSlice_valid x hx).2)
  obtain ⟨calls', u', hu', hc', -⟩ := wire265.round_trip_iff (t := {})
    (x := .whole plainRtp (0x40, 0x01) []) rfl
    (List.forall_mem_cons.mpr ⟨vps265_valid _ _ _, fun x hx => (layeredSlice_valid x hx).1⟩)
    (fun x hx => (layeredSlice_valid x hx).2) rfl
  rw [hu] at hu'
  cases hu'
  have he := (emitted_265 _).mp (hc'.mp hc layeredSlice (by simp)) rfl
  exact absurd he (by decide)

end Vcu
