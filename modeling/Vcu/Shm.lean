import Vcu.DevManager

namespace Vcu

open Session

-- The static variables of getRegs.
structure RegStatics where
  indexBits : Int
  indexNum : Int
  indexBytes : Int
  indexMask : BitVec 32
  deriving DecidableEq

-- The regs are there once getRegs was called. They are never set again.
structure Shm where
  devMemAddrReg : Int := nullptr
  devMemAddrShm : Int := nullptr
  devMemAddrShm2 : Int := nullptr
  fdRegDev : Int := INVALID_DEV_ID
  fdShmDev : Int := INVALID_DEV_ID
  isShmDevOpened : Bool := false
  regs : Option RegStatics := none

structure ShmOutcome where
  reg : Option Nat
  regBase : Option Address
  mem : Option Nat
  memBase : Option Address
  memBase2 : Option Address

abbrev ShmCall := Call Shm Resource ErrorCode

-- A failed check sets the result and breaks.
def shmOpen (s : Shm) (outcome : ShmOutcome) : ShmCall :=
  if s.isShmDevOpened then { state := s, ret := .ERR_NORM }
  else
    let s := { s with fdRegDev := openFile outcome.reg }
    let acquired := descriptors outcome.reg
    if ¬ s.fdRegDev ≥ 0 then { state := s, ret := .ERR_NORM, acquired := acquired }
    else
      let s := { s with devMemAddrReg := mmap outcome.regBase }
      let acquired := acquired ++ mappings outcome.regBase
      if s.devMemAddrReg = nullptr then { state := s, ret := .ERR_NORM, acquired := acquired }
      else
        let s := { s with fdShmDev := openFile outcome.mem }
        let acquired := acquired ++ descriptors outcome.mem
        if ¬ s.fdShmDev ≥ 0 then { state := s, ret := .ERR_NORM, acquired := acquired }
        else
          let s := { s with devMemAddrShm := mmap outcome.memBase }
          let acquired := acquired ++ mappings outcome.memBase
          if s.devMemAddrShm = nullptr then { state := s, ret := .ERR_NORM, acquired := acquired }
          else
            let s := { s with devMemAddrShm2 := mmap outcome.memBase2 }
            let acquired := acquired ++ mappings outcome.memBase2
            if s.devMemAddrShm2 = nullptr then { state := s, ret := .ERR_NORM, acquired := acquired }
            else
              { state := { s with isShmDevOpened := true }, ret := .ERR_NONE, acquired := acquired }

def shmClose (s : Shm) : ShmCall :=
  let closed (fd : Int) : List Resource := if fd ≠ INVALID_DEV_ID then [.descriptor fd] else []
  { state :=
      { s with
        devMemAddrReg := nullptr
        devMemAddrShm := nullptr
        devMemAddrShm2 := nullptr
        fdRegDev := INVALID_DEV_ID
        fdShmDev := INVALID_DEV_ID
        isShmDevOpened := false }
    ret := .ERR_NONE
    released := [.mapping s.devMemAddrReg] ++ closed s.fdRegDev ++ [.mapping s.devMemAddrShm] ++
      [.mapping s.devMemAddrShm2] ++ closed s.fdShmDev }

-- The target decides whether a char is signed. On aarch64 it is not.
def charToInt (charSigned : Bool) (c : BitVec 8) : Int := if charSigned then c.toInt else c.toNat

def RegStatics.ofMapped (charSigned : Bool) (mapped : Nat → BitVec 32) : RegStatics where
  indexBits := charToInt charSigned (ptr mapped 0)
  indexNum := charToInt charSigned (ptr mapped 1)
  indexBytes := charToInt charSigned (ptr mapped 2)
  indexMask := (1#32 <<< (charToInt charSigned (ptr mapped 0)).toNat) - 1#32

-- The index of entry `i`. The words are signed, and the shift to the right is arithmetic. The
-- shift by a negative count has no defined result.
def RegStatics.index (regs : RegStatics) (mapped : Nat → BitVec 32) (i : Nat) : BitVec 32 :=
  let mappedIndex := (i * regs.indexBits).tdiv 32 + 1
  let shiftBits := (i * regs.indexBits).tmod 32
  if shiftBits + regs.indexBits > 32 then
    ((mapped mappedIndex.toNat).sshiftRight shiftBits.toNat &&&
        ((1#32 <<< (32 - shiftBits).toNat) - 1#32)) |||
      ((mapped (mappedIndex + 1).toNat &&& ((1#32 <<< (shiftBits + regs.indexBits - 32).toNat) - 1#32)) <<<
        (32 - shiftBits).toNat)
  else (mapped mappedIndex.toNat).sshiftRight shiftBits.toNat &&& regs.indexMask

-- The result and the value that data_out is set to, or none where it is left alone.
def getRegs (regs : RegStatics) (mapped : Nat → BitVec 32) (regIndex : BitVec 32) :
    ErrorCode × Option (BitVec 32) :=
  match (List.range regs.indexNum.toNat).find? fun i => regIndex = regs.index mapped i with
  | some i => (.ERR_NONE, some (mapped (1 + regs.indexBytes + i).toNat))
  | none => (.ERR_REG_INDEX_INVALID, none)

def shmReadReg (charSigned : Bool) (s : Shm) (mapped : Nat → BitVec 32) (regIndex : BitVec 32) :
    Shm × ErrorCode × Option (BitVec 32) :=
  if ¬ s.isShmDevOpened then (s, .ERR_NORM, none)
  else if s.devMemAddrReg = nullptr then (s, .ERR_NORM, none)
  else
    let regs := s.regs.getD (.ofMapped charSigned mapped)
    ({ s with regs := some regs }, getRegs regs mapped regIndex)

end Vcu
