import Vcu.AircraftDataParser.Lemmas

namespace Vcu

namespace AircraftDataParser

end AircraftDataParser

open AircraftDataParser

-- A call that takes a packet, with what stands before and behind the packet in the buffer.
structure Arrival where
  state : AircraftDataParser
  data : List UInt8
  noise : List UInt8
  packet : MavPacket
  rest : List UInt8
  held : state.fullPacket.Held
  buffer : state.fullPacket.bytes ++ data = noise ++ (packet.bytes ++ rest)
  clean : 0xFD ∉ noise
  fits : (state.fullPacket.bytes ++ data).length < 1024

namespace Arrival

-- The bytes in memory behind the payload.
def behind (a : Arrival) (heap : List UInt8) : List UInt8 :=
  ((a.state.receive a.data).fullPacket.block ++ heap).drop
    (a.noise.length + MAVLINK_PACKET_HEAD_LEN + a.packet.payload.length)

end Arrival

section Dispatch

variable {heap : List UInt8} {record : AircraftRecord}

end Dispatch

end Vcu
