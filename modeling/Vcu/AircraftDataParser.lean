import Vcu.ByteArray
import Vcu.Lib.Machine
import Vcu.Rtp.Model

namespace Vcu

open Machine

-- The sizes of the packed structs MavLinkHead and MavLinkEnd.
def MAVLINK_PACKET_HEAD_LEN : Nat := 10

def MAVLINK_PACKET_END_LEN : Nat := 2

namespace PayloadType

def GPS : UInt32 := 0x21

def ATTITUDE : UInt32 := 0x1E

end PayloadType

-- MavLinkHead::getMsgid, which shifts the third byte by 24 bits.
def getMsgid (low middle high : UInt8) : UInt32 :=
  (high.toUInt32 <<< 16 ||| middle.toUInt32) <<< 8 ||| low.toUInt32

-- The image of a GPSData or an AttitudeData, which are both packed records of 28 bytes.
structure AircraftRecord where
  bytes : List UInt8
  length_bytes : bytes.length = 28
  deriving DecidableEq

theorem length_take_zeros (p : List UInt8) : ((p ++ List.replicate 28 0).take 28).length = 28 := by
  rw [List.length_take, List.length_append, List.length_replicate]
  omega

-- What an assignment reads through a pointer. The model has zeros behind the bytes that it is given.
def AircraftRecord.ofMemory (p : List UInt8) : AircraftRecord :=
  ⟨(p ++ List.replicate 28 0).take 28, length_take_zeros p⟩

-- The parser with the global records gps_data and attitude_data.
structure AircraftDataParser where
  fullPacket : ByteArray := {}
  gpsData : AircraftRecord := .ofMemory []
  attitudeData : AircraftRecord := .ofMemory []
  deriving DecidableEq

namespace AircraftDataParser

-- The assignments from the packet at `startPos` of the buffer, with the bytes `heap` in memory behind
-- the block. They copy a whole record, however short the payload is.
def dispatch (heap : List UInt8) (s : AircraftDataParser) (startPos : Nat) : AircraftDataParser :=
  let fullData := (s.fullPacket.block ++ heap).drop startPos
  let record := AircraftRecord.ofMemory (fullData.drop MAVLINK_PACKET_HEAD_LEN)
  let type := getMsgid (fullData.getD 7 0) (fullData.getD 8 0) (fullData.getD 9 0)
  if type = PayloadType.GPS then { s with gpsData := record }
  else if type = PayloadType.ATTITUDE then { s with attitudeData := record }
  else s

def receive (s : AircraftDataParser) (data : List UInt8) : AircraftDataParser :=
  { s with fullPacket := s.fullPacket.append data }

-- What a call does after the assertion. The result also shows the packet that the call has taken
-- from the buffer.
def scan (heap : List UInt8) (s : AircraftDataParser) : AircraftDataParser × Option (List UInt8) :=
  if s.fullPacket.dataSize < MAVLINK_PACKET_HEAD_LEN then (s, none)
  else
    match s.fullPacket.bytes.findIdx? (· == 0xFD) with
    | none => ({ s with fullPacket := s.fullPacket.clear }, none)
    | some startPos =>
        let payloadLen := (s.fullPacket.block.getD (startPos + 1) 0).toNat
        let len := MAVLINK_PACKET_HEAD_LEN + payloadLen + MAVLINK_PACKET_END_LEN
        if s.fullPacket.dataSize - startPos < len then (s, none)
        else
          ({ s.dispatch heap startPos with fullPacket := s.fullPacket.remove startPos len },
            some ((s.fullPacket.bytes.drop startPos).take len))

-- One call with the bytes that a read of the port has returned.
def parser (heap : List UInt8) (s : AircraftDataParser) (data : List UInt8) :
    Except Fault (AircraftDataParser × Option (List UInt8)) := do
  let s := s.receive data
  fservoCheck "full_packet.size() < 1024" (s.fullPacket.dataSize < 1024)
  return s.scan heap

-- One read of the port after another. The second component is the history of the packets taken.
-- The result none is the abort of the assertion.
def read (heap : List UInt8) (r : AircraftDataParser × List (List UInt8)) (data : List UInt8) :
    Option (AircraftDataParser × List (List UInt8)) :=
  match r.1.parser heap data with
  | .ok (s, packet) => some (s, r.2 ++ packet.toList)
  | .error _ => none

def feed (heap : List UInt8) (reads : List (List UInt8)) : Option (AircraftDataParser × List (List UInt8)) :=
  run (read heap) ({}, []) reads

end AircraftDataParser

end Vcu
