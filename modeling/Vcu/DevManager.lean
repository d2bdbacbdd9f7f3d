import Vcu.Lib.Session

namespace Vcu

inductive ErrorCode where
  | ERR_NONE
  | ERR_NORM
  | ERR_PARAM
  | ERR_BUSY
  | ERR_PARA
  | ERR_AXI
  | ERR_EMPTY
  | ERR_OPEN_DEV_FAILED
  | ERR_REG_INDEX_INVALID
  | ERR_FPGA_CAL_FINISHED
  deriving DecidableEq

inductive DataType where
  | DATA_TYPE_DATA
  | DATA_TYPE_PARAM
  deriving DecidableEq

def FPGA_DOWN : BitVec 32 := 0

def FPGA_START : BitVec 32 := 1

-- What open and mmap give, and close and munmap take back.
inductive Resource where
  | descriptor (fd : Int)
  | mapping (addr : Int)
  deriving DecidableEq

def INVALID_FILE_ID : Int := -1

def INVALID_DEV_ID : Int := -1

def nullptr : Int := 0

def MAP_FAILED : Int := -1

-- No mapping lies where a pointer says that there is none.
structure Address where
  addr : Int
  ne_nullptr : addr ≠ nullptr
  ne_failed : addr ≠ MAP_FAILED

-- The calls open and mmap with the file or the mapping that the system finds, if it finds one.
def openFile : Option Nat → Int
  | some fd => fd
  | none => -1

def mmap : Option Address → Int
  | some a => a.addr
  | none => MAP_FAILED

def descriptors (file : Option Nat) : List Resource := (file.map fun fd => Resource.descriptor fd).toList

def mappings (mapping : Option Address) : List Resource :=
  (mapping.map fun a => Resource.mapping a.addr).toList

-- Byte `k` of the mapped words, which lie in memory with the low byte first.
def ptr (mapped : Nat → BitVec 32) (k : Nat) : BitVec 8 := (mapped (k / 4) >>> (8 * (k % 4))).setWidth 8

theorem openFile_eq_invalid_iff {file : Option Nat} : openFile file = INVALID_FILE_ID ↔ file = none := by
  cases file with
  | none => exact iff_of_true rfl rfl
  | some fd =>
      refine iff_of_false ?_ (by simp)
      rw [openFile, INVALID_FILE_ID]
      omega

theorem openFile_nonneg_iff {file : Option Nat} : 0 ≤ openFile file ↔ file.isSome := by
  cases file with
  | none => exact iff_of_false (by decide) (by decide)
  | some fd => exact iff_of_true (Int.natCast_nonneg fd) rfl

theorem mmap_ne_nullptr (mapping : Option Address) : mmap mapping ≠ nullptr := by
  cases mapping with
  | none => decide
  | some a => exact a.ne_nullptr

end Vcu
