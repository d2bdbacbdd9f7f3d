import Mathlib.Data.List.GetD
import Vcu.AircraftDataParser
import Vcu.ByteArray.Lemmas

namespace Vcu

-- An unsigned MAVLink v2 packet. `head` is what follows the marker and the length.
structure MavPacket where
  head : List UInt8
  payload : List UInt8
  checksum : List UInt8
  length_head : head.length = 8
  length_payload : payload.length ≤ 255
  length_checksum : checksum.length = 2

namespace MavPacket

def bytes (p : MavPacket) : List UInt8 :=
  0xFD :: UInt8.ofNat p.payload.length :: (p.head ++ p.payload ++ p.checksum)

theorem length_bytes (p : MavPacket) : p.bytes.length = 12 + p.payload.length := by
  have hh := p.length_head
  have hc := p.length_checksum
  simp only [bytes, List.length_cons, List.length_append]
  omega

theorem toNat_payload_length (p : MavPacket) :
    (UInt8.ofNat p.payload.length).toNat = p.payload.length := by
  have hp := p.length_payload
  rw [UInt8.toNat_ofNat']
  omega

end MavPacket

theorem findIdx?_marker (rest : List UInt8) :
    (0xFD :: rest).findIdx? (· == 0xFD) = some 0 := by
  rw [List.findIdx?_cons, if_pos (BEq.rfl)]

theorem findIdx?_append_marker {noise rest : List UInt8} (h : 0xFD ∉ noise) :
    (noise ++ 0xFD :: rest).findIdx? (· == 0xFD) = some noise.length := by
  rw [List.findIdx?_append, List.findIdx?_eq_none_iff.mpr]
  · rw [Option.none_or, findIdx?_marker, Option.map_some, Nat.zero_add]
  · intro b hb
    exact beq_eq_false_iff_ne.mpr fun he => h (he ▸ hb)

namespace AircraftDataParser

variable (heap : List UInt8) {s t : AircraftDataParser} {data buffer noise rest : List UInt8} {p : MavPacket}

theorem held_receive (h : s.fullPacket.Held) : (s.receive data).fullPacket.Held :=
  ByteArray.held_append _ _ h

theorem bytes_receive (h : s.fullPacket.Held) :
    (s.receive data).fullPacket.bytes = s.fullPacket.bytes ++ data :=
  ByteArray.bytes_append _ _ h

theorem parser_eq_scan (h : s.fullPacket.Held) (hlen : (s.fullPacket.bytes ++ data).length < 1024) :
    s.parser heap data = .ok ((s.receive data).scan heap) := by
  have hsize := (s.receive data).fullPacket.length_bytes (held_receive h)
  rw [bytes_receive h] at hsize
  have hlt : (s.receive data).fullPacket.dataSize < 1024 := by omega
  simp only [parser, fservoCheck, hlt, decide_true, if_true, bind, Except.bind, pure, Except.pure]

section Scan

variable (h : s.fullPacket.Held) (hb : s.fullPacket.bytes = buffer)

include h hb

-- A byte of the contents read through the pointer.
theorem getD_block {i : Nat} (hi : i < buffer.length) :
    s.fullPacket.block.getD i 0 = buffer.getD i 0 := by
  have hlen := s.fullPacket.length_bytes h
  rw [hb] at hlen
  rw [← hb, ByteArray.bytes, List.getD_eq_getElem?_getD, List.getD_eq_getElem?_getD,
    List.getElem?_take_of_lt (by omega)]

-- As long as the first packet is incomplete nothing happens.
theorem scan_partial (hp : buffer <+: p.bytes) (hlt : buffer.length < p.bytes.length)
    (hne : buffer ≠ []) : s.scan heap = (s, none) := by
  have hlen := s.fullPacket.length_bytes h
  rw [hb] at hlen
  obtain ⟨more, hmore⟩ := hp
  cases buffer with
  | nil => exact absurd rfl hne
  | cons b0 buffer =>
      have h0 : b0 = 0xFD := (List.cons.inj hmore).1
      unfold scan
      split
      · rfl
      · rename_i hhead
        rw [hb, h0, findIdx?_marker]
        simp only [MAVLINK_PACKET_HEAD_LEN] at hhead
        -- The head is there, and with it the length.
        cases buffer with
        | nil => simp at hlen; omega
        | cons b1 buffer =>
            have h1 : b1 = UInt8.ofNat p.payload.length :=
              (List.cons.inj (List.cons.inj hmore).2).1
            have hget := getD_block h hb (i := 1) (by simp)
            rw [List.getD_cons_succ, List.getD_cons_zero, h1] at hget
            have hpay := p.toNat_payload_length
            rw [p.length_bytes] at hlt
            simp only [Nat.zero_add, hget, hpay, MAVLINK_PACKET_HEAD_LEN,
              MAVLINK_PACKET_END_LEN]
            rw [if_pos (by omega)]

-- What the tests of a call find when the buffer begins with a whole packet.
theorem scan_tests (hn : 0xFD ∉ noise) (hbuf : buffer = noise ++ (p.bytes ++ rest)) :
    ¬ s.fullPacket.dataSize < MAVLINK_PACKET_HEAD_LEN ∧
      s.fullPacket.bytes.findIdx? (· == 0xFD) = some noise.length ∧
      MAVLINK_PACKET_HEAD_LEN + (s.fullPacket.block.getD (noise.length + 1) 0).toNat +
        MAVLINK_PACKET_END_LEN = p.bytes.length ∧
      noise.length + p.bytes.length ≤ s.fullPacket.dataSize := by
  have hlen := s.fullPacket.length_bytes h
  have hplen := p.length_bytes
  have hpay := p.toNat_payload_length
  have hget := getD_block h hb (i := noise.length + 1) (by
    rw [hbuf, List.length_append, List.length_append]
    omega)
  rw [hbuf, List.getD_append_right _ _ _ _ (Nat.le_add_right _ 1),
    Nat.add_sub_cancel_left] at hget
  rw [hb, hbuf, List.length_append, List.length_append] at hlen
  refine ⟨?_, ?_, ?_, by omega⟩
  · simp only [MAVLINK_PACKET_HEAD_LEN]
    omega
  · rw [hb, hbuf]
    exact findIdx?_append_marker hn
  · have h1 : (p.bytes ++ rest).getD 1 0 = UInt8.ofNat p.payload.length := rfl
    rw [hget, h1, hpay, hplen]
    simp only [MAVLINK_PACKET_HEAD_LEN, MAVLINK_PACKET_END_LEN]
    omega

omit h in
theorem taken_bytes (hbuf : buffer = noise ++ (p.bytes ++ rest)) :
    (s.fullPacket.bytes.drop noise.length).take p.bytes.length = p.bytes := by
  rw [hb, hbuf, List.drop_left, List.take_left]

theorem scan_packet (hn : 0xFD ∉ noise) (hbuf : buffer = noise ++ (p.bytes ++ rest)) :
    ∃ t, s.scan heap = (t, some p.bytes) ∧ t.fullPacket.Held ∧ t.fullPacket.bytes = noise ++ rest := by
  obtain ⟨hsize, hfind, hl, hin⟩ := scan_tests h hb hn hbuf
  have henough : ¬ s.fullPacket.dataSize - noise.length < p.bytes.length := by omega
  refine ⟨{ s.dispatch heap noise.length with
    fullPacket := s.fullPacket.remove noise.length p.bytes.length }, ?_, ?_, ?_⟩
  · unfold scan
    simp only [hsize, if_false, hfind, hl, henough, Prod.mk.injEq, Option.some.injEq, true_and]
    exact taken_bytes hb hbuf
  · exact ByteArray.held_remove h hin
  · show (s.fullPacket.remove noise.length p.bytes.length).bytes = noise ++ rest
    rw [ByteArray.bytes_remove h hin, hb, hbuf, List.take_left, ← List.drop_drop, List.drop_left,
      List.drop_left]

end Scan

end AircraftDataParser

end Vcu
