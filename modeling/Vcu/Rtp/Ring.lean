import Mathlib.Logic.Function.Basic
import Vcu.Rtp.Model

namespace Vcu

def BUFFER_SIZE : Nat := 4096

-- An int after an operation that may have overflowed.
def wrap32 (x : Int) : Int := (x + 0x80000000) % 0x100000000 - 0x80000000

-- What receive_thread and parser_thread share, with the local variables of both. `buffers`
-- counts the allocations, `deleted` and `reads` are histories: the allocations given back and
-- the slots the parser has read, in order.
structure Ring where
  vecRtp : Fin BUFFER_SIZE → RtpModel := fun _ => {}
  semBuffer : Nat := 0
  index : UInt64 := 0
  times : Int := 0
  firstSeq : Option UInt16 := none
  parserIndex : UInt64 := 0
  buffers : Nat := 0
  deleted : List Nat := []
  reads : List RtpModel := []

def slot (pos : Nat) : Fin BUFFER_SIZE := ⟨pos % BUFFER_SIZE, Nat.mod_lt _ (by decide)⟩

-- ((uint64_t)(seq + 65536 * times) - first_seq) % BUFFER_SIZE
def receivePos (seq : UInt16) (times : Int) (firstSeq : UInt16) : Fin BUFFER_SIZE :=
  let sum := wrap32 (seq.toNat + wrap32 (65536 * times))
  slot ((sum - firstSeq.toNat) % 0x10000000000000000).toNat

namespace Ring

-- One iteration of receive_thread that gets a datagram.
def receive (s : Ring) (datagram : List UInt8) : Except Fault Ring := do
  let rtpData ← RtpModel.ofDatagram s.buffers datagram
  let seq ← readShort datagram 2
  let firstSeq := s.firstSeq.getD seq
  let pos := receivePos seq s.times firstSeq
  let old := s.vecRtp pos
  let index := s.index + 1
  return { s with
    vecRtp := Function.update s.vecRtp pos rtpData
    semBuffer := if index > 30 then s.semBuffer + 1 else s.semBuffer
    index := index
    times := if seq == 65535 then wrap32 (s.times + 1) else s.times
    firstSeq := some firstSeq
    buffers := s.buffers + 1
    deleted := if old.isValid then s.deleted ++ old.buffer.toList else s.deleted }

-- One iteration of parser_thread, which waits while there is no post. The packet it hands on is
-- the last entry of `reads`, if that is valid.
def parse (s : Ring) : Option Ring :=
  if s.semBuffer = 0 then none
  else
    let pos := slot s.parserIndex.toNat
    let data := s.vecRtp pos
    let s := { s with
      semBuffer := s.semBuffer - 1
      parserIndex := s.parserIndex + 1
      reads := s.reads ++ [data] }
    if data.isValid then
      some { s with
        vecRtp := Function.update s.vecRtp pos { data with isValid := false }
        deleted := s.deleted ++ data.buffer.toList }
    else some s

end Ring

inductive Turn where
  | receive (j : Nat)
  | parse

-- The two threads take turns. Packet `j` of the stream is the datagram `pkt j`.
def ringTurn (pkt : Nat → List UInt8) (s : Ring) : Turn → Option Ring
  | .receive j => (s.receive (pkt j)).toOption
  | .parse => s.parse

def arrivals (es : List Turn) : List Nat :=
  es.filterMap fun
    | .receive j => some j
    | .parse => none

-- The packets of a stream carry consecutive sequence numbers from `first` on.
def Numbered (pkt : Nat → List UInt8) (first : UInt16) : Prop :=
  ∀ j, ∃ seq, readShort (pkt j) 2 = .ok seq ∧ seq.toNat = (first.toNat + j) % 65536

end Vcu
