import Vcu.Shm
import Vcu.Lib.Scatter
import Mathlib.Logic.Function.Basic

namespace Vcu

open Scatter

def FPGA_REG_MAPPED_SIZE : Nat := 4096

-- What lies behind the mappings of an opened device: the registers and the two windows of the
-- shared memory.
structure ShmMemory where
  reg : Nat → BitVec 32
  shm : List UInt8
  shm2 : List UInt8

-- The result none stands for a check that fails or for an access outside the mappings.
def shmWriteReg (s : Shm) (m : ShmMemory) (regIndex : UInt32) (data : BitVec 32) :
    Option (ShmMemory × ErrorCode) :=
  if ¬ s.isShmDevOpened then none
  else if s.devMemAddrReg = nullptr then some (m, .ERR_NONE)
  else if 4 * regIndex.toNat + 4 ≤ FPGA_REG_MAPPED_SIZE then
    some ({ m with reg := Function.update m.reg regIndex.toNat data }, .ERR_NORM)
  else none

-- FPGA_CALC_START_INDEX2, with the results of its writes ignored.
def fpgaCalcStartIndex2 (s : Shm) (m : ShmMemory) (regIndex : UInt32) : Option ShmMemory := do
  let (m, _) ← shmWriteReg s m 1 0x3c000000
  let (m, _) ← shmWriteReg s m regIndex FPGA_DOWN
  let (m, _) ← shmWriteReg s m regIndex FPGA_START
  return m

-- The bytes that neon_memcpy moves. The size is an int, `sz & 63` is its remainder, and the loop
-- of 64 bytes runs at least once.
def neonMemcpySize (size : UInt32) : Nat :=
  let sz := size.toBitVec.toInt
  let sz := if sz % 64 ≠ 0 then sz - sz % 64 + 64 else sz
  if sz ≤ 64 then 64 else sz.toNat

-- The bytes that the copy to the first window moves, without and with the option _NEON.
def windowSize (neon : Bool) (size : UInt32) : Nat := if neon then neonMemcpySize size else size.toNat

def shmWriteSize (neon : Bool) (s : Shm) (m : ShmMemory) (dstPtr : UInt64) (dataIn : List UInt8)
    (dataSize : UInt32) (type : DataType) (pictureResolution : UInt32) (batch2 : Bool) :
    Option (ShmMemory × ErrorCode) :=
  if ¬ s.isShmDevOpened then none
  else do
    let m ← if batch2 then
        (Scatter.memcpy dataSize.toNat dataIn m.shm2 dstPtr.toNat 0).map fun shm2 => { m with shm2 := shm2 }
      else
        (Scatter.memcpy (windowSize neon dataSize) dataIn m.shm dstPtr.toNat 0).map fun shm =>
          { m with shm := shm }
    let m ← if type = .DATA_TYPE_DATA then fpgaCalcStartIndex2 s m pictureResolution else some m
    return (m, .ERR_NORM)

section Transfers

variable {s : Shm} {m : ShmMemory} {regIndex : UInt32}

-- The registers are all that starting the device changes.
theorem fpgaCalcStartIndex2_spec (hopen : s.isShmDevOpened = true)
    (hreg : 4 * regIndex.toNat + 4 ≤ FPGA_REG_MAPPED_SIZE) :
    ∃ reg, fpgaCalcStartIndex2 s m regIndex = some { m with reg := reg } := by
  have hone : 4 * (1 : UInt32).toNat + 4 ≤ FPGA_REG_MAPPED_SIZE := by decide
  by_cases hnull : s.devMemAddrReg = nullptr
  · exact ⟨m.reg, by simp [fpgaCalcStartIndex2, shmWriteReg, hopen, hnull]⟩
  · refine ⟨Function.update (Function.update (Function.update m.reg 1 0x3c000000) regIndex.toNat
      FPGA_DOWN) regIndex.toNat FPGA_START, ?_⟩
    simp only [fpgaCalcStartIndex2, shmWriteReg, hopen, hnull, hone, hreg, not_true_eq_false,
      if_false, if_true]
    rfl

theorem toInt_of_lt {size : UInt32} (h : size.toNat < 2147483648) :
    size.toBitVec.toInt = size.toNat := by
  rw [BitVec.toInt_eq_toNat_of_lt]
  · rfl
  · show 2 * size.toNat < 2 ^ 32
    omega

theorem le_windowSize (neon : Bool) {size : UInt32} (h : size.toNat < 2147483648) :
    size.toNat ≤ windowSize neon size := by
  cases neon with
  | false => exact Nat.le_refl _
  | true =>
      simp only [windowSize, neonMemcpySize, toInt_of_lt h, if_true]
      split
      · split
        · omega
        · omega
      · split
        · omega
        · omega

-- Rounding up to 64 bytes stays within a size that is a multiple of them.
theorem windowSize_le (neon : Bool) {size : UInt32} {bound : Nat} (hsize : size.toNat ≤ bound)
    (hpos : 64 ≤ bound) (hbound : bound % 64 = 0) (hlt : bound < 2147483648) :
    windowSize neon size ≤ bound := by
  have hint : size.toBitVec.toInt = size.toNat := toInt_of_lt (by omega)
  cases neon with
  | false => exact hsize
  | true =>
      simp only [windowSize, neonMemcpySize, hint, if_true]
      split
      · split
        · exact hpos
        · omega
      · split
        · exact hpos
        · omega

end Transfers

end Vcu
