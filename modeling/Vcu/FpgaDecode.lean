import Vcu.Lib.LittleEndian

namespace Vcu

-- How getDecodeTable can end without a return: a read outside the loaded file, at this index, or a
-- negative size for `new`.
inductive DecodeFault where
  | outOfFile (index : Int)
  | badArrayNewLength
  deriving DecidableEq

-- What the call leaves behind. The last field holds pDetData and Detlen.
structure Decoded where
  ret : Int
  pHead : List UInt8
  pQt : List UInt8
  pHuff : List UInt8
  detData : Option (List UInt8 × Int)
  deriving DecidableEq

-- The variables of the loop. pFileData is always posTot bytes behind the start of the file. The
-- buffers for the quantization and for the Huffman tables are the bytes written to them so far, and
-- the buffers of the caller are large enough.
structure DecodeState where
  posTot : Nat := 0
  pHead : List UInt8
  posHead : Nat
  pQt : List UInt8 := []
  pHuff : List UInt8 := []
  huffLength : UInt16 := 0

namespace FpgaDecode

def START : UInt8 := 0xFF
def QUANTIFY : UInt8 := 0xDB
def IMGINFO : UInt8 := 0xC0
def TABLE : UInt8 := 0xC4
def DATA_START : UInt8 := 0xDA
def DATA_END : UInt8 := 0xD9
def DATA_MOD : Int := 0x10

def QtAddr : Nat := 0x3C000100
def HuffAddr : Nat := 0x3C000200
def DataReadAddr : Nat := 0x3C001500
def DataSize : Nat := 0xF000
def dataNumBlocks_Qt : Nat := 0x08
def dataNumBlocks_Huff : Nat := 0x23
def dataBlockSize : Nat := 0x01

def cMa : UInt8 := 0xFF

section Reads

variable (data : List UInt8)

def fileByte (index : Nat) : Except DecodeFault UInt8 :=
  match data[index]? with
  | some b => .ok b
  | none => .error (.outOfFile index)

-- memcpy from the file. A negative length is a huge one.
def fileRange (pos : Nat) (len : Int) : Except DecodeFault (List UInt8) :=
  if len = 0 ∨ 0 ≤ len ∧ pos + len.toNat ≤ data.length then .ok ((data.drop pos).take len.toNat)
  else .error (.outOfFile (max pos data.length))

def getDataLength (pos : Nat) : Except DecodeFault Nat := do
  let high ← fileByte data pos
  let low ← fileByte data (pos + 1)
  return high.toNat * 0x100 + low.toNat

-- The rounds of the search, with the index before which the next byte is, and with `length`.
def searchEnd : Nat → Int → Except DecodeFault Int
  | 0, _ => .error (.outOfFile (-1))
  | index + 1, length => do
      let b ← fileByte data index
      if b = DATA_END then
        match index with
        | 0 => .error (.outOfFile (-1))
        | before + 1 => do
            let a ← fileByte data before
            if a = START then return length else searchEnd (before + 1) (length + 1)
      else searchEnd index (length + 1)

def getFileEnd2 (pos endPos : Nat) : Except DecodeFault Int := do
  let length ← searchEnd data (endPos + 1) 0
  return endPos - length - pos + 1

-- One byte in each step of iData.
def readIds (stride : Nat) : Nat → Nat → Except DecodeFault (List UInt8)
  | 0, _ => .ok []
  | count + 1, iData => do
      let b ← fileByte data (iData + stride)
      let ids ← readIds stride count (iData + stride)
      return b :: ids

end Reads

-- memcpy(dst + pos, src, n) into a buffer that is large enough.
def put (dst : List UInt8) (pos : Nat) (src : List UInt8) : List UInt8 :=
  dst.take pos ++ src ++ dst.drop (pos + src.length)

def posDataBlocks : Nat := 20

-- The gaps of three and of four bytes stay zero.
def startHead : List UInt8 :=
  LittleEndian.encode 4 QtAddr ++ LittleEndian.encode 3 dataNumBlocks_Qt ++
    LittleEndian.encode 1 dataBlockSize ++ LittleEndian.encode 4 HuffAddr ++ LittleEndian.encode 3 dataNumBlocks_Huff ++
    LittleEndian.encode 1 dataBlockSize ++ LittleEndian.encode 4 DataReadAddr ++ [0, 0, 0] ++
    LittleEndian.encode 1 dataBlockSize ++ [0, 0, 0, 0] ++ LittleEndian.encode 3 DataSize ++
    LittleEndian.encode 1 dataBlockSize

def initialHead : List UInt8 :=
  put (startHead ++ List.replicate (96 - startHead.length) 0) 92 (LittleEndian.encode 4 0xFFFFFFFF)

-- The body of the loop over j, which goes through a signed eighth of bits.
def countUp : Nat → UInt16 → UInt16
  | 0, value => value
  | j + 1, value => countUp j (value + 1)

def ntohs (value : UInt16) : UInt16 := value <<< 8 ||| value >>> 8

-- The entry for one length, and the value for the next one. The count becomes an int8_t.
def huffEntry (value : UInt16) (count : UInt8) : UInt16 × UInt16 :=
  if count ≠ 0 then (ntohs value, countUp count.toInt8.toInt.toNat value <<< 1) else (0, value <<< 1)

def huffLoop (data : List UInt8) : Nat → Nat → UInt16 → Except DecodeFault (List UInt16)
  | 0, _, _ => .ok []
  | i + 1, pos, value => do
      let count ← fileByte data pos
      let pdata ← huffLoop data i (pos + 1) (huffEntry value count).2
      return (huffEntry value count).1 :: pdata

-- The cases of the switch. They begin behind the marker.
section Cases

variable (data : List UInt8) (s : DecodeState)

def quantifyCase : Except DecodeFault DecodeState := do
  let len ← getDataLength data s.posTot
  let table ← fileRange data (s.posTot + 3) (len - 3)
  return { s with posTot := s.posTot + 3, pQt := s.pQt ++ table }

-- A picture of another size ends the call.
def imgInfoCase : Except DecodeFault (Option DecodeState) := do
  let _ ← getDataLength data s.posTot
  let height ← getDataLength data (s.posTot + 3)
  let width ← getDataLength data (s.posTot + 5)
  if height ≠ 512 ∨ width ≠ 640 then return none
  else
    let count ← fileByte data (s.posTot + 7)
    let ids ← readIds data 3 count.toNat (s.posTot + 7)
    let block := LittleEndian.encode 2 height ++ LittleEndian.encode 2 width ++ ids
    return some { s with pHead := put s.pHead s.posHead block, posHead := s.posHead + block.length }

def tableCase : Except DecodeFault DecodeState := do
  let len ← getDataLength data s.posTot
  let table ← fileRange data s.posTot len
  let pdata ← huffLoop data 16 (s.posTot + 3) 0
  return { s with
    posTot := s.posTot + 19
    pHuff := s.pHuff ++ table ++ pdata.flatMap fun entry => LittleEndian.encode 2 entry.toNat
    huffLength := s.huffLength + UInt16.ofNat len + 32 }

def leftnum (len : Int) : Int := if len % DATA_MOD ≠ 0 then DATA_MOD - len % DATA_MOD else 0

def copyData (pos : Nat) (len : Int) : Except DecodeFault (List UInt8) :=
  if len + leftnum len < 0 then .error .badArrayNewLength
  else do
    let pDetData ← fileRange data pos len
    return pDetData ++ List.replicate (leftnum len).toNat cMa

def huffPadding (huffLength : UInt16) : List UInt8 :=
  if 0 < huffLength then List.replicate (16 - huffLength.toNat % 16) cMa else []

def dataStartCase : Except DecodeFault Decoded := do
  let count ← fileByte data (s.posTot + 2)
  let ids ← readIds data 2 count.toNat (s.posTot + 2)
  let len ← getDataLength data s.posTot
  let dataLen ← getFileEnd2 data (s.posTot + len) (data.length - 1)
  let pDetData ← copyData data (s.posTot + len) dataLen
  let Detlen := dataLen + leftnum dataLen
  return {
    ret := 0
    pHead := put (put s.pHead s.posHead ids) posDataBlocks (LittleEndian.encode 3 (Detlen / 16).toNat)
    pQt := s.pQt
    pHuff := s.pHuff ++ huffPadding s.huffLength
    detData := some (pDetData, Detlen) }

end Cases

def decoded (s : DecodeState) (ret : Int) : Decoded where
  ret := ret
  pHead := s.pHead
  pQt := s.pQt
  pHuff := s.pHuff
  detData := none

-- The loop, with the rounds that `i < length` leaves.
def scan (data : List UInt8) : Nat → DecodeState → Except DecodeFault Decoded
  | 0, s => .ok (decoded s 0)
  | i + 1, s => do
      let dataKey ← fileByte data s.posTot
      if dataKey ≠ START then scan data i { s with posTot := s.posTot + 1 }
      else
        let dataKey ← fileByte data (s.posTot + 1)
        let s := { s with posTot := s.posTot + 2 }
        if dataKey = QUANTIFY then
          let s ← quantifyCase data s
          scan data i s
        else if dataKey = IMGINFO then
          match ← imgInfoCase data s with
          | none => return decoded s (-1)
          | some s => scan data i s
        else if dataKey = TABLE then
          let s ← tableCase data s
          scan data i s
        else if dataKey = DATA_START then dataStartCase data s
        else scan data i s

-- What is in memory of the file. Its length becomes an int, and for a negative one malloc gives
-- nothing.
def loaded (content : List UInt8) : List UInt8 := content.take (Int32.ofNat content.length).toInt.toNat

def startState : DecodeState := { pHead := initialHead, posHead := startHead.length }

-- The call on a file with this content.
def getDecodeTable (content : List UInt8) : Except DecodeFault Decoded := do
  let data := loaded content
  let zeros : DecodeState := { pHead := List.replicate 96 0, posHead := 0 }
  let third ← fileByte data 2
  if third ≠ START then return decoded zeros (-1)
  else
    let fourth ← fileByte data 3
    if fourth ≠ 0xE0 then return decoded zeros (-1)
    else scan data data.length startState

end FpgaDecode

end Vcu
