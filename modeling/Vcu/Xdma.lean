import Mathlib.Data.List.FinRange
import Vcu.DevManager

namespace Vcu

open Session

def XDMA_CHANNEL_CNT : Nat := 2

-- An array initializer with one value sets the other elements to 0.
structure Xdma where
  dmaRegFd : Int := INVALID_FILE_ID
  dmaRegBase : Int := nullptr
  dmaReadFds : Fin XDMA_CHANNEL_CNT → Int := fun i => if i.val = 0 then INVALID_FILE_ID else 0
  dmaWriteFds : Fin XDMA_CHANNEL_CNT → Int := fun i => if i.val = 0 then INVALID_FILE_ID else 0
  isXdmaDevOpened : Bool := false

-- How the calls of xdma_open end, those that it makes.
structure XdmaOutcome where
  reg : Option Nat
  base : Option Address
  write : Fin XDMA_CHANNEL_CNT → Option Nat
  read : Fin XDMA_CHANNEL_CNT → Option Nat

abbrev XdmaCall := Call Xdma Resource ErrorCode

namespace Xdma

def setWriteFd (s : Xdma) (i : Fin XDMA_CHANNEL_CNT) (fd : Int) : Xdma :=
  { s with dmaWriteFds := Function.update s.dmaWriteFds i fd }

def setReadFd (s : Xdma) (i : Fin XDMA_CHANNEL_CNT) (fd : Int) : Xdma :=
  { s with dmaReadFds := Function.update s.dmaReadFds i fd }

-- The two loops over the channels differ in the array that they fill and in what they undo when
-- an open fails. The break only ends the loop.
def openChannels (set : Xdma → Fin XDMA_CHANNEL_CNT → Int → Xdma)
    (undo : XdmaCall → Fin XDMA_CHANNEL_CNT → XdmaCall) (files : Fin XDMA_CHANNEL_CNT → Option Nat) :
    XdmaCall → List (Fin XDMA_CHANNEL_CNT) → XdmaCall
  | c, [] => c
  | c, i :: is =>
      let fd := openFile (files i)
      let c := { c with state := set c.state i fd, acquired := c.acquired ++ descriptors (files i) }
      if fd = INVALID_FILE_ID then { undo c i with ret := .ERR_NORM }
      else openChannels set undo files c is

def openWriteFds (files : Fin XDMA_CHANNEL_CNT → Option Nat) (c : XdmaCall) : XdmaCall :=
  openChannels setWriteFd (fun c _ => c) files c (List.finRange XDMA_CHANNEL_CNT)

def openReadFds (files : Fin XDMA_CHANNEL_CNT → Option Nat) (c : XdmaCall) : XdmaCall :=
  openChannels setReadFd
    (fun c i => { c with
      state := c.state.setWriteFd i INVALID_FILE_ID
      released := c.released ++ [.descriptor (c.state.dmaWriteFds i)] })
    files c (List.finRange XDMA_CHANNEL_CNT)

end Xdma

open Xdma

def xdmaOpen (s : Xdma) (outcome : XdmaOutcome) : XdmaCall :=
  if s.isXdmaDevOpened then { state := s, ret := .ERR_NORM }
  else
    let s := { s with dmaRegFd := openFile outcome.reg }
    if s.dmaRegFd = INVALID_FILE_ID then
      { state := s, ret := .ERR_NORM, acquired := descriptors outcome.reg }
    else
      let s := { s with dmaRegBase := mmap outcome.base }
      let c : XdmaCall :=
        { state := s, ret := .ERR_NONE, acquired := descriptors outcome.reg ++ mappings outcome.base }
      if s.dmaRegBase = nullptr then { c with ret := .ERR_NORM }
      else
        let c := openReadFds outcome.read (openWriteFds outcome.write c)
        { c with state := { c.state with isXdmaDevOpened := true } }

-- The check that the device is opened aborts otherwise.
def xdmaClose (s : Xdma) : XdmaCall :=
  let closed (fd : Int) : List Resource := if fd ≠ INVALID_FILE_ID then [.descriptor fd] else []
  { state :=
      { s with
        dmaRegFd := INVALID_FILE_ID
        dmaRegBase := nullptr
        dmaReadFds := fun _ => INVALID_FILE_ID
        dmaWriteFds := fun _ => INVALID_FILE_ID
        isXdmaDevOpened := false }
    ret := .ERR_NONE
    released := [.mapping s.dmaRegBase] ++ closed s.dmaRegFd ++
      (List.finRange XDMA_CHANNEL_CNT).flatMap (fun i => closed (s.dmaReadFds i)) ++
      (List.finRange XDMA_CHANNEL_CNT).flatMap fun i => closed (s.dmaWriteFds i) }

-- The index of entry `i` for entries of `indexBits` bits in unsigned words.
def xdmaIndex (indexBits : Nat) (mapped : Nat → BitVec 32) (i : Nat) : BitVec 32 :=
  let mappedIndex := i * indexBits / 32 + 1
  let shiftBits := i * indexBits % 32
  if shiftBits + indexBits > 32 then
    (mapped mappedIndex >>> shiftBits &&& ((1#32 <<< (32 - shiftBits)) - 1#32)) |||
      ((mapped (mappedIndex + 1) &&& ((1#32 <<< (shiftBits + indexBits - 32)) - 1#32)) <<< (32 - shiftBits))
  else mapped mappedIndex >>> shiftBits &&& ((1#32 <<< indexBits) - 1#32)

-- The loop goes on after a match. The result is none where the check that the device is opened
-- aborts, and data_out is none where it is left alone.
def xdmaReadReg (s : Xdma) (mapped : Nat → BitVec 32) (regIndex : BitVec 32) :
    Option (ErrorCode × Option (BitVec 32)) :=
  if ¬ s.isXdmaDevOpened then none
  else if s.dmaRegBase = nullptr then some (.ERR_NORM, none)
  else
    let indexBits := (ptr mapped 0).toNat
    let indexNum := (ptr mapped 1).toNat
    let indexBytes := (ptr mapped 2).toNat
    if indexNum = 0 then some (.ERR_NORM, none)
    else
      some (.ERR_NONE, (List.range indexNum).foldl
        (fun dataOut i =>
          if xdmaIndex indexBits mapped i = regIndex then some (mapped (1 + indexBytes + i)) else dataOut)
        none)

end Vcu
