import Vcu.Lib.Blit
import Mathlib.Algebra.Group.Nat.Defs

namespace Vcu

open Blit

def RW_MAX_SIZE : Nat := 0x7ffff000

def EIO : Int := 5

-- A device file and a buffer of the program. Reads and writes start at the position and move it.
structure Transfer where
  device : Nat → UInt8
  pos : Nat
  buffer : Nat → UInt8

-- How the system calls of one round end: whether lseek succeeds, and how many bytes read or write
-- moves. They move no more than they are asked for, and the result none stands for -1.
structure RoundOutcome where
  seek : Bool
  moved : Option Nat

namespace Transfer

def lseek (t : Transfer) (offset : Nat) : Transfer := { t with pos := offset }

-- read(fd, buffer + count, k) and write(fd, buffer + count, k).
def read (t : Transfer) (count k : Nat) : Transfer :=
  { t with buffer := blit t.buffer count t.device t.pos k, pos := t.pos + k }

def write (t : Transfer) (count k : Nat) : Transfer :=
  { t with device := blit t.device t.pos t.buffer count k, pos := t.pos + k }

end Transfer

-- The loop that read_to_buffer, write_from_buffer, utils_dev_read and utils_dev_write share.
-- off_t is signed, and lseek refuses a negative offset. The result is the number of bytes, or - EIO.
def transferLoop (move : Transfer → Nat → Nat → Transfer) (outcome : Nat → RoundOutcome)
    (size base round count : Nat) (t : Transfer) : Transfer × Int :=
  if count < size then
    let bytes := min (size - count) RW_MAX_SIZE
    let offset := (base + count) % 2 ^ 64
    if offset ≠ 0 ∧ ((outcome round).seek = false ∨ 2 ^ 63 ≤ offset) then (t, - EIO)
    else
      let t := if offset ≠ 0 then t.lseek offset else t
      match (outcome round).moved with
      | none => (t, - EIO)
      | some k =>
          let t := move t count (min k bytes)
          if min k bytes = bytes then transferLoop move outcome size base (round + 1) (count + bytes) t
          else (t, - EIO)
  else (t, count)
termination_by size - count
decreasing_by
  have : 0 < RW_MAX_SIZE := by decide
  omega

def readToBuffer (outcome : Nat → RoundOutcome) (size base : UInt64) (t : Transfer) : Transfer × Int :=
  transferLoop Transfer.read outcome size.toNat base.toNat 0 0 t

def writeFromBuffer (outcome : Nat → RoundOutcome) (size base : UInt64) (t : Transfer) :
    Transfer × Int :=
  transferLoop Transfer.write outcome size.toNat base.toNat 0 0 t

-- Where the first round of a transfer goes. Without an offset nobody moves the position.
def Transfer.start (t : Transfer) (base : UInt64) : Nat := if base.toNat ≠ 0 then base.toNat else t.pos

end Vcu
