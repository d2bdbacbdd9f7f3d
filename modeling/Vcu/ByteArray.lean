import Mathlib.Data.List.Basic
import Vcu.Common

namespace Vcu

-- The growing byte buffer. `pData` is the allocated block, or none for a null pointer.
-- A write past the end of the block is undefined behaviour. The model lets the bytes land
-- behind the block and remembers the event in `overrun`.
structure ByteArray where
  pData : Option (List UInt8) := some (List.replicate 1024 0)
  capacity : Nat := 1024
  dataSize : Nat := 0
  overrun : Bool := false
  deriving DecidableEq

namespace ByteArray

def block (a : ByteArray) : List UInt8 := a.pData.getD []

-- What `data()` and `size()` show to a caller.
def bytes (a : ByteArray) : List UInt8 := a.block.take a.dataSize

-- One memcpy or assignment of the bytes `s` at `pData + pos`.
def write (a : ByteArray) (pos : Nat) (s : List UInt8) : ByteArray :=
  { a with
    pData := some (a.block.take pos ++ s ++ a.block.drop (pos + s.length))
    overrun := a.overrun || decide (a.block.length < pos + s.length) }

def expand (a : ByteArray) (addSize : Nat) : ByteArray :=
  let capacity := if addSize < a.capacity * 2 then a.capacity * 2 else a.capacity + (addSize + 1)
  { a with capacity := capacity, pData := some (List.replicate capacity 0) }.write 0 a.bytes

def shrink (a : ByteArray) : ByteArray :=
  let capacity := a.capacity / 2
  { a with capacity := capacity, pData := some (List.replicate capacity 0) }.write 0 a.bytes

-- Every append makes room first when the new size would reach the capacity.
def reserve (a : ByteArray) (len : Nat) : ByteArray :=
  if a.dataSize + len ≥ a.capacity then a.expand len else a

-- append(const char *s, int len) for the range `s` of `len` bytes. It writes the range and
-- then the terminating zero.
def append (a : ByteArray) (s : List UInt8) : ByteArray :=
  let b := (a.reserve s.length).write a.dataSize s
  { b with dataSize := a.dataSize + s.length }.write (a.dataSize + s.length) [0]

-- append(char c)
def appendChar (a : ByteArray) (c : UInt8) : ByteArray :=
  let b := (a.reserve 1).write a.dataSize [c]
  { b with dataSize := a.dataSize + 1 }.write (a.dataSize + 1) [0]

-- append(const ByteArray &a) for the bytes `s` of the other array. They are the bytes of this
-- array itself when it is appended to itself.
def appendArray (a : ByteArray) (s : List UInt8) : ByteArray := if s = [] then a else a.append s

-- The memcpy of remove may be given overlapping ranges. The model moves the bytes as they were
-- before the call.
def remove (a : ByteArray) (index len : Int) : ByteArray :=
  if len < 0 ∨ index < 0 ∨ a.dataSize - index < len then a
  else
    let rest := a.bytes.drop (index + len).toNat
    let b : ByteArray := { a.write index.toNat rest with dataSize := a.dataSize - len.toNat }
    if b.capacity / 4 > b.dataSize then b.shrink else b

def clear (a : ByteArray) : ByteArray :=
  { a.write 0 (List.replicate a.dataSize 0) with dataSize := 0 }

-- ByteArray(const char *p, int size) for the memory behind `p`. What no branch sets keeps the
-- value of its declaration: a null pointer, a capacity of 1024 and no bytes.
def ofPointer (p : Option (List UInt8)) (size : Int) : ByteArray :=
  match p with
  | none => { pData := none }
  | some p =>
      if size = -1 then
        let s := cString p
        { pData := some (s ++ [0]), capacity := s.length + 1, dataSize := s.length }
      else if size > 0 then
        { pData := some (p.take size.toNat ++ [0])
          capacity := size.toNat + 1
          dataSize := size.toNat }
      else { pData := none }

-- ByteArray(char c, int size). The branch asks for dataSize, which is not set yet.
def ofChar (c : UInt8) (size : Int) : ByteArray :=
  let a : ByteArray := { pData := none }
  if a.dataSize ≤ 0 then a
  else
    { pData := some (List.replicate size.toNat c ++ [0])
      capacity := size.toNat + 1
      dataSize := size.toNat }

def copy (data : ByteArray) : ByteArray where
  pData := some (data.bytes ++ [0])
  capacity := data.dataSize + 1
  dataSize := data.dataSize

-- operator=(const ByteArray &) from another array.
def assign (a b : ByteArray) : ByteArray := { b.copy with overrun := a.overrun }

-- operator=(const ByteArray &) from the array itself. Its block is deleted first, and the new
-- one, which holds `fresh`, is copied to itself.
def assignSelf (a : ByteArray) (fresh : Nat → UInt8) : ByteArray :=
  { a with pData := some ((List.range a.dataSize).map fresh ++ [0]), capacity := a.dataSize + 1 }

-- operator=(const char *)
def assignPointer (a : ByteArray) (p : Option (List UInt8)) : ByteArray :=
  match p with
  | none => { a with pData := none, dataSize := 0 }
  | some p =>
      let s := cString p
      { a with pData := some (s ++ [0]), capacity := s.length + 1, dataSize := s.length }

def mid (a : ByteArray) (index len : Int) : ByteArray :=
  if index < 0 ∨ a.dataSize - index < len then a.copy
  else ofPointer (a.pData.map fun block => block.drop index.toNat) len

end ByteArray

end Vcu
