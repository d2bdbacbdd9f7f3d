import Mathlib.Data.List.Induction
import Vcu.AircraftDataParser.Framing

namespace Vcu

open Frames Machine AircraftDataParser

section Backlog

variable {packets : List MavPacket} {heap received : List UInt8} {s : AircraftDataParser}
  {taken : List (List UInt8)} {k : Nat} {reads : List (List UInt8)}

namespace AircraftDataParser

theorem InFrame.bytes_eq_nil (h : InFrame packets received s taken k)
    (hstream : received <+: (mavFrames packets).flatten) (hk : packets.length ≤ k) :
    s.fullPacket.bytes = [] := by
  have hrest := rest_isPrefix hstream h.buffer
  rw [List.drop_of_length_le (by rwa [mavFrames, List.length_map])] at hrest
  exact List.prefix_nil.mp hrest

-- The rest of a packet and one read stay below the bound of the assertion.
theorem InFrame.length_le (h : InFrame packets received s taken k)
    (hstream : received <+: (mavFrames packets).flatten)
    (hnext : ∀ p, packets[k]? = some p → s.fullPacket.bytes.length < p.bytes.length) :
    s.fullPacket.bytes.length ≤ 266 := by
  by_cases hk : k < packets.length
  · have := hnext packets[k] (List.getElem?_eq_getElem hk)
    rw [packets[k].length_bytes] at this
    have := packets[k].length_payload
    omega
  · rw [h.bytes_eq_nil hstream (Nat.le_of_not_lt hk)]
    exact Nat.zero_le _

end AircraftDataParser

end Backlog

end Vcu
