import Mathlib.Data.List.Induction
import Vcu.AircraftDataParser.Framing

namespace Vcu

open Machine AircraftDataParser

-- One call with a packet and the noise before it.
structure NoisyRead where
  noise : List UInt8
  packet : MavPacket
  noise_clean : 0xFD ∉ noise
  length_le : (noise ++ packet.bytes).length ≤ 300

namespace NoisyRead

def data (r : NoisyRead) : List UInt8 := r.noise ++ r.packet.bytes

end NoisyRead

section Noise

variable {heap : List UInt8} {reads before : List NoisyRead} {r : NoisyRead} {s : AircraftDataParser}
  {taken : List (List UInt8)}

end Noise

end Vcu
