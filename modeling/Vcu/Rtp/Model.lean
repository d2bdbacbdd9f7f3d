import Mathlib.Data.List.Basic
import Vcu.RtspDataManager

namespace Vcu

inductive CodecType where
  | H264
  | H265
  deriving DecidableEq

-- How a packet can end the process. The first two are undefined behaviour in the source,
-- the third is the abort of a failed FSERVO_CHECK, with the expression it prints.
inductive Fault where
  | outOfRange (index length : Nat)
  | negativeLength (len : Int)
  | checkFailed (exp : String)
  deriving DecidableEq

def fservoCheck (exp : String) (holds : Bool) : Except Fault Unit :=
  if holds then .ok () else .error (.checkFailed exp)

def readByte (pdata : List UInt8) (index : Nat) : Except Fault UInt8 :=
  match pdata[index]? with
  | some b => .ok b
  | none => .error (.outOfRange index pdata.length)

-- ntohs(*(unsigned short *)&pdata[index])
def readShort (pdata : List UInt8) (index : Nat) : Except Fault UInt16 := do
  let high ← readByte pdata index
  let low ← readByte pdata (index + 1)
  return high.toUInt16 <<< 8 ||| low.toUInt16

-- ntohl(*(unsigned int *)&pdata[index])
def readInt (pdata : List UInt8) (index : Nat) : Except Fault UInt32 := do
  let high ← readShort pdata index
  let low ← readShort pdata (index + 2)
  return high.toUInt32 <<< 16 ||| low.toUInt32

-- The range that append(pdata + index, len) copies. A negative length is never meant:
-- -1 makes append measure a C string, any other one wraps to a huge memcpy.
def readRange (pdata : List UInt8) (index : Nat) (len : Int) : Except Fault (List UInt8) :=
  if len < 0 then .error (.negativeLength len)
  else if index + len.toNat ≤ pdata.length then .ok ((pdata.drop index).take len.toNat)
  else .error (.outOfRange (index + len.toNat - 1) pdata.length)

structure RtpHeader where
  version : UInt8
  mark : UInt8
  loadType : UInt8
  seq : UInt16
  timestamp : UInt32
  ssrc : UInt32
  deriving DecidableEq

def getRtpHeader (pdata : List UInt8) : Except Fault RtpHeader := do
  let first ← readByte pdata 0
  let second ← readByte pdata 1
  let seq ← readShort pdata 2
  let timestamp ← readInt pdata 4
  let ssrc ← readInt pdata 8
  return {
    version := (first &&& 0xc0) >>> 6
    mark := (second &&& 0x80) >>> 7
    loadType := second &&& 0x7f
    seq := seq
    timestamp := timestamp
    ssrc := ssrc }

-- `pdata` holds the bytes behind the pointer, `buffer` says which allocation it points to.
structure RtpModel where
  pdata : List UInt8 := []
  buffer : Option Nat := none
  len : Int := -1
  seq : UInt16 := 65535
  isValid : Bool := false
  deriving DecidableEq

-- RtpModel(char *_data, int _len), copying a datagram into the fresh allocation `buffer`.
def RtpModel.ofDatagram (buffer : Nat) (datagram : List UInt8) : Except Fault RtpModel := do
  let seq ← readShort datagram 2
  return {
    pdata := datagram
    buffer := some buffer
    len := datagram.length
    seq := seq
    isValid := true }

end Vcu
