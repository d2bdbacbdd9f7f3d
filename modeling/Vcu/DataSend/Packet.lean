import Vcu.AircraftDataParser
import Vcu.DataSend
import Vcu.Lib.LittleEndian

namespace Vcu

open LittleEndian

def PACKET_HEAD_FLAG : UInt8 := 0x55

def PACKET_END_FLAG : UInt8 := 0xAA

namespace PacketType

def GPS : UInt8 := 0x05

def STREAMPARAM : UInt8 := 0x06

end PacketType

structure PacketHead where
  headIden : UInt8
  frameType : UInt8
  curFrame : UInt32
  totFrame : UInt32
  frameSize : UInt32
  picID : UInt32
  deriving DecidableEq

def PacketHead.bytes (head : PacketHead) : List UInt8 :=
  [head.headIden, head.frameType] ++ encode 4 head.curFrame.toNat ++ encode 4 head.totFrame.toNat ++
    encode 4 head.frameSize.toNat ++ encode 4 head.picID.toNat

structure PacketEnd where
  frameTime : UInt64
  endIden : UInt8 := PACKET_END_FLAG
  deriving DecidableEq

def PacketEnd.bytes (tail : PacketEnd) : List UInt8 := encode 8 tail.frameTime.toNat ++ [tail.endIden]

-- What a client sends.
structure Request where
  head : PacketHead
  tail : PacketEnd
  deriving DecidableEq

def Request.bytes (r : Request) : List UInt8 := r.head.bytes ++ r.tail.bytes

-- The float `score` is given by its bits.
structure BoxInfo2 where
  left : Int32 := 0
  top : Int32 := 0
  right : Int32 := 0
  bottom : Int32 := 0
  classNo : Int32 := 0
  score : UInt32 := 0
  deriving DecidableEq

def BoxInfo2.bytes (box : BoxInfo2) : List UInt8 :=
  encode 4 box.left.toUInt32.toNat ++ encode 4 box.top.toUInt32.toNat ++
    encode 4 box.right.toUInt32.toNat ++ encode 4 box.bottom.toUInt32.toNat ++
    encode 4 box.classNo.toUInt32.toNat ++ encode 4 box.score.toNat

-- sizeof(BoxInfo2), and the 42 boxes that go into one packet.
def BOX_INFO_LEN : Nat := 24

def PACKET_BOX_LEN : Nat := 42 * BOX_INFO_LEN

-- What a call of sendBox has to send, with the global records as they are during the call.
structure Picture where
  boxes : List BoxInfo2
  id : UInt32
  time : UInt64
  gpsData : AircraftRecord
  attitudeData : AircraftRecord
  deriving DecidableEq

namespace Picture

def src (p : Picture) : List UInt8 := p.boxes.flatMap BoxInfo2.bytes

def len (p : Picture) : Nat := p.boxes.length * BOX_INFO_LEN

def packetNum (p : Picture) : Nat :=
  if p.len % PACKET_BOX_LEN = 0 then p.len / PACKET_BOX_LEN else p.len / PACKET_BOX_LEN + 1

def lastPacketLen (p : Picture) : Nat := p.len - (p.packetNum - 1) * PACKET_BOX_LEN

-- The packet without boxes. It has no records, even in the _GPS build.
def emptyPacket (p : Picture) : List UInt8 :=
  let box : BoxInfo2 := {}
  let head : PacketHead := {
    headIden := PACKET_HEAD_FLAG
    frameType := PacketType.BOX
    curFrame := 1
    totFrame := 1
    frameSize := UInt32.ofNat BOX_INFO_LEN
    picID := p.id }
  head.bytes ++ box.bytes ++ (PacketEnd.mk p.time PACKET_END_FLAG).bytes

-- The packet of iteration `i`. The last one is copied from the end of the array.
def packet (p : Picture) (i : Nat) : List UInt8 :=
  let body :=
    if i = p.packetNum - 1 then (p.src.drop (p.len - p.lastPacketLen)).take p.lastPacketLen
    else (p.src.drop (i * PACKET_BOX_LEN)).take PACKET_BOX_LEN
  let bodyLen := if i = p.packetNum - 1 then p.lastPacketLen else PACKET_BOX_LEN
  let head : PacketHead := {
    headIden := PACKET_HEAD_FLAG
    frameType := PacketType.GPS
    curFrame := UInt32.ofNat (i + 1)
    totFrame := UInt32.ofNat p.packetNum
    frameSize := UInt32.ofNat (bodyLen + 28 + 28)
    picID := p.id }
  head.bytes ++ body ++ p.gpsData.bytes ++ p.attitudeData.bytes ++
    (PacketEnd.mk p.time PACKET_END_FLAG).bytes

-- The packets of the loop, one for each iteration.
def packets (p : Picture) : List (List UInt8) := (List.range p.packetNum).map p.packet

-- All that a call of sendBox sends while every send succeeds and the flag does not change.
def emitted (p : Picture) : List (List UInt8) := if p.boxes = [] then [p.emptyPacket] else p.packets

end Picture

def DataSend.sendBox (d : DataSend) (p : Picture) : List (List UInt8) :=
  if d.canSendBox then p.emitted else []

end Vcu
