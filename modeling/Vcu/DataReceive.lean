import Vcu.ByteArray
import Vcu.DataSend.RoundTrip

namespace Vcu

def PacketType.RES : UInt8 := 0x02

def PACKET_LEN : Nat := 1024

-- The size of recvbuffer.
def RECV_LEN : Nat := PACKET_HEAD_LEN + PACKET_LEN + PACKET_END_LEN

-- A packet of a picture as it is sent.
structure PicturePacket where
  head : PacketHead
  content : List UInt8
  tail : PacketEnd
  deriving DecidableEq

def PicturePacket.bytes (p : PicturePacket) : List UInt8 := p.head.bytes ++ (p.content ++ p.tail.bytes)

-- Where receive_thread stands, with what it has read.
inductive RecvPc where
  | read
  | append (recvbuffer : List UInt8)
  | release
  | wait
  | sendRes
  deriving DecidableEq

-- Where parser_thread stands, with its lastData. The last two clears belong to a full picture.
inductive ParserPc where
  | acquire
  | mid
  | head (lastData : ByteArray)
  | clearArr (lastData : ByteArray)
  | append (lastData : ByteArray)
  | setRgbData (lastData : ByteArray)
  | clearFullArr
  | clearFullPic
  | signal
  deriving DecidableEq

-- The variables of the file, the threads and the socket with the datagrams that wait in it. The
-- numbers of packets that the peer has sent and that were acknowledged, the ranges appended to
-- pic and the calls of setRgbData are histories.
structure DataReceive where
  arr : ByteArray := {}
  pic : ByteArray := {}
  lastPacketSize : Nat := 0
  recvSem : Nat := 0
  sendSem : Nat := 0
  recvStatus : Bool := false
  recvPc : RecvPc := .read
  parserPc : ParserPc := .acquire
  socket : List (List UInt8) := []
  sent : Nat := 0
  acked : Nat := 0
  appended : List (List UInt8) := []
  rgbData : List (List UInt8 × UInt32) := []

-- `send` is the peer with the next packet of its pictures, `res` with an acknowledgement.
inductive DataReceiveEvent where
  | send
  | res (datagram : List UInt8)
  | receive
  | parser

namespace DataReceive

-- The peer waits for the acknowledgement of the packet before.
def send (packets : List PicturePacket) (s : DataReceive) : Option DataReceive :=
  match packets[s.sent]? with
  | some p =>
      if s.sent = s.acked then some { s with socket := s.socket ++ [p.bytes], sent := s.sent + 1 }
      else none
  | none => none

def res (s : DataReceive) (datagram : List UInt8) : Option DataReceive :=
  if (PacketHead.ofBytes datagram).frameType = PacketType.RES then
    some { s with socket := s.socket ++ [datagram] }
  else none

-- The locked sections are one step each. The wait goes on once recv_status is set.
def receive (s : DataReceive) : Option DataReceive :=
  match s.recvPc with
  | .read =>
      match s.socket with
      | [] => none
      | datagram :: rest =>
          let recvbuffer := datagram.take RECV_LEN
          if (PacketHead.ofBytes recvbuffer).frameType = PacketType.RES then
            some { s with socket := rest, sendSem := s.sendSem + 1 }
          else some { s with socket := rest, recvPc := .append recvbuffer }
  | .append recvbuffer =>
      some { s with
        arr := s.arr.append recvbuffer
        lastPacketSize := recvbuffer.length
        recvPc := .release }
  | .release => some { s with recvSem := s.recvSem + 1, recvPc := .wait }
  | .wait => if s.recvStatus then some { s with recvStatus := false, recvPc := .sendRes } else none
  | .sendRes => some { s with acked := s.acked + 1, recvPc := .read }

def parser (s : DataReceive) : Option DataReceive :=
  match s.parserPc with
  | .acquire => if s.recvSem = 0 then none else some { s with recvSem := s.recvSem - 1, parserPc := .mid }
  | .mid =>
      some { s with
        parserPc := .head (s.arr.mid ((s.arr.dataSize : Int) - s.lastPacketSize) s.lastPacketSize) }
  | .head lastData =>
      if (PacketHead.ofBytes lastData.block).curFrame = 1 then
        some { s with pic := s.pic.clear, parserPc := .clearArr lastData }
      else some { s with parserPc := .append lastData }
  | .clearArr lastData => some { s with arr := s.arr.clear, parserPc := .append lastData }
  | .append lastData =>
      let pHead := PacketHead.ofBytes lastData.block
      let range := frameBody lastData.block
      some { s with
        pic := s.pic.append range
        appended := s.appended ++ [range]
        parserPc := if pHead.curFrame = pHead.totFrame then .setRgbData lastData else .signal }
  | .setRgbData lastData =>
      some { s with
        rgbData := s.rgbData ++ [(s.pic.bytes, (PacketHead.ofBytes lastData.block).picID)]
        parserPc := .clearFullArr }
  | .clearFullArr => some { s with arr := s.arr.clear, parserPc := .clearFullPic }
  | .clearFullPic => some { s with pic := s.pic.clear, parserPc := .signal }
  | .signal => some { s with recvStatus := true, parserPc := .acquire }

def step (packets : List PicturePacket) (s : DataReceive) : DataReceiveEvent → Option DataReceive
  | .send => s.send packets
  | .res datagram => s.res datagram
  | .receive => s.receive
  | .parser => s.parser

end DataReceive

end Vcu
