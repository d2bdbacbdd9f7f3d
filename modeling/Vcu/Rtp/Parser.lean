import Vcu.ByteArray
import Vcu.Rtp.Model

namespace Vcu

-- What survives from one packet to the next: the static is_start of the parser in use, the
-- static packet_data of parser_thread, and the session data.
structure ParserThread where
  isStart : Bool := false
  packetData : ByteArray := {}
  rtsp : RtspDataManager := {}
  deriving DecidableEq

-- The result of a parser call with its reference arguments. The timestamp is none where the
-- source leaves the caller's variable unset.
structure Parsed where
  res : Bool
  mark : Bool
  timestamp : Option UInt32
  thread : ParserThread
  deriving DecidableEq

-- htonl(0x00000001) in memory
def iden : List UInt8 := [0, 0, 0, 1]

def ParserThread.setHeader (t : ParserThread) (h : RtpHeader) : ParserThread :=
  { t with rtsp := ((t.rtsp.setSSRC h.ssrc).setSeq h.seq).setRtpVersion h.version }

def ParserThread.setData (t : ParserThread) (data : ByteArray) : ParserThread :=
  { t with packetData := data }

def parserRtpH264 (needBox : Bool) (rtpData : RtpModel) (t : ParserThread) :
    Except Fault Parsed := do
  let pdata := rtpData.pdata
  let len := rtpData.len
  let header ← getRtpHeader pdata
  let result (res : Bool) (t : ParserThread) : Parsed :=
    { res := res, mark := header.mark != 0, timestamp := some header.timestamp, thread := t }
  let t := t.setHeader header
  if !needBox then
    return result false { t with isStart := false }
  else
    let key ← readByte pdata 12
    let t := { t with isStart := t.isStart || key == 0x67 }
    if t.isStart then
      let packetType := key &&& 0x1f
      if packetType < 24 then
        let nal ← readRange pdata 12 (len - 12)
        return result true (t.setData ((t.packetData.append iden).append nal))
      else if packetType == 28 then
        let fuHeader ← readByte pdata 13
        let S := (fuHeader &&& 0x80) >>> 7
        let E := (fuHeader &&& 0x40) >>> 6
        let naluHeader := (key &&& 0xe0) ||| (fuHeader &&& 0x1f)
        if S == 1 then
          fservoCheck "rtp_header.mark == 0" (header.mark == 0)
          let payload ← readRange pdata 14 (len - 14)
          return result true
            (t.setData (((t.packetData.append iden).appendChar naluHeader).append payload))
        else if E == 1 then
          fservoCheck "rtp_header.mark == 1" (header.mark == 1)
          let payload ← readRange pdata 14 (len - 14)
          return result true (t.setData (t.packetData.append payload))
        else
          let payload ← readRange pdata 14 (len - 14)
          return result true (t.setData (t.packetData.append payload))
      else
        fservoCheck "false" false
        return result false t
    else
      return result false t

def parserRtpH265 (needBox : Bool) (rtpData : RtpModel) (t : ParserThread) :
    Except Fault Parsed := do
  let pdata := rtpData.pdata
  let len := rtpData.len
  let header ← getRtpHeader pdata
  let result (res : Bool) (t : ParserThread) : Parsed :=
    { res := res
      mark := header.mark != 0
      timestamp := if header.mark != 0 then some header.timestamp else none
      thread := t }
  let t := t.setHeader header
  if !needBox then
    return result false { t with isStart := false }
  else
    let key ← readByte pdata 12
    let unitType := (key >>> 1) &&& 0x3f
    let t := { t with isStart := t.isStart || key == 0x40 }
    if t.isStart then
      if unitType == 49 then
        let fuHeader ← readByte pdata 14
        let S := (fuHeader >>> 7) &&& 0x01
        let E := (fuHeader >>> 6) &&& 0x01
        let naluHeader2 ← readByte pdata 13
        let naluHeader1 := ((fuHeader &&& 0x3f) <<< 1) ||| (key &&& 0x80)
        if S == 1 then
          let payload ← readRange pdata 15 (len - 15)
          fservoCheck "rtp_header.mark == 0" (header.mark == 0)
          return result true
            (t.setData ((((t.packetData.append iden).appendChar naluHeader1).appendChar
              naluHeader2).append payload))
        else if E == 1 then
          let payload ← readRange pdata 15 (len - 15)
          fservoCheck "rtp_header.mark == 1" (header.mark == 1)
          return result true (t.setData (t.packetData.append payload))
        else
          let payload ← readRange pdata 15 (len - 15)
          return result true (t.setData (t.packetData.append payload))
      else if unitType == 48 then
        fservoCheck "false" false
        return result false t
      else
        let nal ← readRange pdata 12 (len - 12)
        return result true (t.setData ((t.packetData.append iden).append nal))
    else
      return result false t

def parserRtp : CodecType → Bool → RtpModel → ParserThread → Except Fault Parsed
  | .H264 => parserRtpH264
  | .H265 => parserRtpH265

-- The arguments of one call of pf_callback.
structure Callback where
  pdata : List UInt8
  mark : Bool
  timestamp : Option UInt32
  deriving DecidableEq

-- The part of parser_thread's loop body that parses a packet taken from the ring.
def parserThreadParse (type : CodecType) (needBox : Bool) (data : RtpModel) (t : ParserThread) :
    Except Fault (Option Callback × ParserThread) := do
  let p ← parserRtp type needBox data t
  if p.res then
    return (some { pdata := p.thread.packetData.bytes, mark := p.mark, timestamp := p.timestamp },
      p.thread.setData p.thread.packetData.clear)
  else
    return (none, p.thread)

-- A datagram on its way through receive_thread's copy and the parser.
def handleDatagram (type : CodecType) (needBox : Bool) (datagram : List UInt8)
    (t : ParserThread) : Except Fault (Option Callback × ParserThread) := do
  let data ← RtpModel.ofDatagram 0 datagram
  parserThreadParse type needBox data t

-- Datagrams in order, each with the value canSendBox() has while it is parsed.
def feed (type : CodecType) :
    List (Bool × List UInt8) → ParserThread → Except Fault (List Callback × ParserThread)
  | [], t => .ok ([], t)
  | (needBox, datagram) :: rest, t => do
      let (call, t) ← handleDatagram type needBox datagram t
      let (calls, t) ← feed type rest t
      return (call.toList ++ calls, t)

end Vcu
