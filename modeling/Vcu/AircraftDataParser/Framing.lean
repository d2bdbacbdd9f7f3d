import Vcu.AircraftDataParser.Lemmas
import Vcu.ByteArray.Safety
import Vcu.Lib.Frames

namespace Vcu

open Frames Machine

-- The packets as they go over the line.
def mavFrames (packets : List MavPacket) : List (List UInt8) := packets.map MavPacket.bytes

theorem getElem?_mavFrames {packets : List MavPacket} {k : Nat} {f : List UInt8} :
    (mavFrames packets)[k]? = some f ↔ ∃ p, packets[k]? = some p ∧ p.bytes = f := by
  rw [mavFrames, List.getElem?_map, Option.map_eq_some_iff]

namespace AircraftDataParser

-- `k` packets have been taken, and the buffer holds what has been received behind them.
structure InFrame (packets : List MavPacket) (received : List UInt8) (s : AircraftDataParser)
    (taken : List (List UInt8)) (k : Nat) : Prop where
  held : s.fullPacket.Held
  le : k ≤ (mavFrames packets).length
  taken : taken = (mavFrames packets).take k
  buffer : ((mavFrames packets).take k).flatten ++ s.fullPacket.bytes = received

section Step

variable {packets : List MavPacket} {heap received data : List UInt8} {s t : AircraftDataParser}
  {taken : List (List UInt8)} {k : Nat}

-- A call either takes the next packet or leaves a part of it in the buffer.
theorem InFrame.read (h : InFrame packets received s taken k)
    (hstream : received ++ data <+: (mavFrames packets).flatten) (hne : data ≠ [])
    (hlen : (s.fullPacket.bytes ++ data).length < 1024) :
    ∃ t p, packets[k]? = some p ∧
      ((AircraftDataParser.read heap (s, taken) data = some (t, taken ++ [p.bytes]) ∧
          InFrame packets (received ++ data) t (taken ++ [p.bytes]) (k + 1)) ∨
        AircraftDataParser.read heap (s, taken) data = some (t, taken) ∧
          InFrame packets (received ++ data) t taken k ∧ t.fullPacket.bytes.length < p.bytes.length) := by
  have hbuf : ((mavFrames packets).take k).flatten ++ (s.fullPacket.bytes ++ data) = received ++ data := by
    rw [← List.append_assoc, h.buffer]
  have hnext := next_frame (rest_isPrefix hstream hbuf) (by simp [hne])
  obtain ⟨f, hf, hcase⟩ := hnext
  obtain ⟨p, hp, rfl⟩ := getElem?_mavFrames.mp hf
  have hscan := parser_eq_scan heap h.held hlen
  have hheld : (s.receive data).fullPacket.Held := held_receive h.held
  have hbytes : (s.receive data).fullPacket.bytes = s.fullPacket.bytes ++ data := bytes_receive h.held
  rcases hcase with ⟨rest, hrest⟩ | ⟨hpre, hlt⟩
  · obtain ⟨t, ht, htheld, htbytes⟩ := scan_packet heap hheld hbytes List.not_mem_nil hrest
    have hk := (List.getElem?_eq_some_iff.mp hf).1
    refine ⟨t, p, hp, .inl ⟨?_, htheld, hk, ?_, ?_⟩⟩
    · simp only [AircraftDataParser.read, hscan, ht, Option.toList]
    · rw [h.taken, List.take_add_one, hf]
      rfl
    · rw [htbytes, List.nil_append, List.take_add_one, hf, ← hbuf, hrest]
      simp
  · have ht := scan_partial heap hheld hbytes hpre hlt (by simp [hne])
    refine ⟨s.receive data, p, hp, .inr ⟨?_, ⟨hheld, h.le, h.taken, ?_⟩, ?_⟩⟩
    · simp only [AircraftDataParser.read, hscan, ht, Option.toList, List.append_nil]
    · rw [hbytes, hbuf]
    · rw [hbytes]
      exact hlt

end Step

end AircraftDataParser

open AircraftDataParser

section Run

variable {packets : List MavPacket} {heap : List UInt8} {reads : List (List UInt8)}
  {r : AircraftDataParser × List (List UInt8)}

end Run

end Vcu
