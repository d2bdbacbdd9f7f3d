import Vcu.DmaUtils.Rounds
import Vcu.Lib.Machine
import Vcu.Xdma

namespace Vcu

open Blit Machine

def MAP_SIZE : Nat := 64 * 1024

def DEV_MEM_ADDR_BASE_0 : UInt64 := 0

-- The device behind the files of an opened session: its registers and its memory, with the positions
-- of the first write channel and of the first read channel.
structure XdmaMemory where
  reg : Nat → BitVec 32
  mem : Nat → UInt8
  writePos : Nat
  readPos : Nat

-- The result none stands for a check that fails or for an access outside the mapping.
def xdmaWriteReg (s : Xdma) (m : XdmaMemory) (regIndex : UInt32) (data : BitVec 32) :
    Option (XdmaMemory × ErrorCode) :=
  if ¬ s.isXdmaDevOpened then none
  else if s.dmaRegBase = nullptr then some (m, .ERR_NONE)
  else if 4 * regIndex.toNat + 4 ≤ MAP_SIZE then
    some ({ m with reg := Function.update m.reg regIndex.toNat data }, .ERR_NORM)
  else none

-- FPGA_CALC_START_INDEX. FPGA_CALC_START is the same for register 0.
def xdmaCalcStartIndex (s : Xdma) (m : XdmaMemory) (regIndex : UInt32) : Option XdmaMemory := do
  let (m, _) ← xdmaWriteReg s m regIndex FPGA_DOWN
  let (m, _) ← xdmaWriteReg s m regIndex FPGA_START
  return m

-- What xdma_write and xdma_write_size share. Data and weights go to one channel each. The result of
-- the transfer is cut to an int before it is compared.
def xdmaTransfer (s : Xdma) (m : XdmaMemory) (dstPtr : UInt64) (data : Nat → UInt8) (size : UInt64)
    (dataSize : BitVec 32) (type : DataType) (startReg : UInt32) (outcome : Nat → RoundOutcome) :
    Option (XdmaMemory × ErrorCode) :=
  if ¬ s.isXdmaDevOpened then none
  else
    let base := if type = .DATA_TYPE_DATA then dstPtr else dstPtr + DEV_MEM_ADDR_BASE_0
    let (t, ret) := writeFromBuffer outcome size base ⟨m.mem, m.writePos, data⟩
    if BitVec.ofInt 32 ret = dataSize then
      let m := { m with mem := t.device, writePos := t.pos }
      if type = .DATA_TYPE_DATA then (xdmaCalcStartIndex s m startReg).map fun m => (m, .ERR_NONE)
      else some (m, .ERR_NONE)
    else none

-- The size of xdma_write is an int.
def xdmaWrite (s : Xdma) (m : XdmaMemory) (dstPtr : UInt64) (data : Nat → UInt8)
    (dataSize : BitVec 32) (type : DataType) (outcome : Nat → RoundOutcome) :
    Option (XdmaMemory × ErrorCode) :=
  xdmaTransfer s m dstPtr data (.ofBitVec (dataSize.signExtend 64)) dataSize type 0 outcome

def xdmaWriteSize (s : Xdma) (m : XdmaMemory) (dstPtr : UInt64) (data : Nat → UInt8)
    (dataSize : UInt32) (type : DataType) (pictureResolution : UInt32)
    (outcome : Nat → RoundOutcome) : Option (XdmaMemory × ErrorCode) :=
  xdmaTransfer s m dstPtr data dataSize.toUInt64 dataSize.toBitVec type pictureResolution outcome

-- The result of the transfer is not looked at.
def xdmaRead (s : Xdma) (m : XdmaMemory) (srcPtr : UInt64) (buffer : Nat → UInt8)
    (dataSize : BitVec 32) (outcome : Nat → RoundOutcome) : XdmaMemory × (Nat → UInt8) × ErrorCode :=
  if s.dmaReadFds ⟨0, by decide⟩ ≠ INVALID_FILE_ID then
    let (t, _) := readToBuffer outcome (.ofBitVec (dataSize.signExtend 64)) srcPtr
      ⟨m.mem, m.readPos, buffer⟩
    ({ m with readPos := t.pos }, t.buffer, .ERR_NONE)
  else (m, buffer, .ERR_NORM)

inductive XdmaEvent where
  | write (dstPtr : UInt64) (data : Nat → UInt8) (dataSize : BitVec 32) (type : DataType)
      (outcome : Nat → RoundOutcome)
  | writeSize (dstPtr : UInt64) (data : Nat → UInt8) (dataSize : UInt32) (type : DataType)
      (pictureResolution : UInt32) (outcome : Nat → RoundOutcome)
  | read (srcPtr : UInt64) (buffer : Nat → UInt8) (dataSize : BitVec 32) (outcome : Nat → RoundOutcome)

def XdmaMemory.step (s : Xdma) (m : XdmaMemory) : XdmaEvent → Option XdmaMemory
  | .write dstPtr data dataSize type outcome =>
      (xdmaWrite s m dstPtr data dataSize type outcome).map Prod.fst
  | .writeSize dstPtr data dataSize type pictureResolution outcome =>
      (xdmaWriteSize s m dstPtr data dataSize type pictureResolution outcome).map Prod.fst
  | .read srcPtr buffer dataSize outcome => some (xdmaRead s m srcPtr buffer dataSize outcome).1

-- A transfer of a size that is an int, below the largest offset, to an address or in one round.
def TransferFits (address : UInt64) (size : Nat) : Prop :=
  size < 2147483648 ∧ address.toNat + size < 2 ^ 63 ∧ (address ≠ 0 ∨ size ≤ RW_MAX_SIZE)

def XdmaEvent.Fits : XdmaEvent → Prop
  | .write dstPtr _ dataSize _ _ => TransferFits dstPtr dataSize.toNat
  | .writeSize dstPtr _ dataSize _ _ _ => TransferFits dstPtr dataSize.toNat
  | .read _ _ _ _ => True

-- The memory that the caller means, and where its last write ends. Address 0 means the latter.
structure Landing where
  mem : Nat → UInt8
  last : Nat

def Landing.put (c : Landing) (address : UInt64) (data : Nat → UInt8) (size : Nat) : Landing :=
  let start := if address ≠ 0 then address.toNat else c.last
  { mem := blit c.mem start data 0 size, last := if size = 0 then c.last else start + size }

def Landing.step (c : Landing) : XdmaEvent → Landing
  | .write dstPtr data dataSize _ _ => c.put dstPtr data dataSize.toNat
  | .writeSize dstPtr data dataSize _ _ _ => c.put dstPtr data dataSize.toNat
  | .read _ _ _ _ => c

def XdmaMemory.landing (m : XdmaMemory) : Landing := ⟨m.mem, m.writePos⟩

section Session

variable {s : Xdma} {m u : XdmaMemory}

theorem xdmaWriteReg_landing {regIndex : UInt32} {data : BitVec 32} {ret : ErrorCode}
    (h : xdmaWriteReg s m regIndex data = some (u, ret)) : u.landing = m.landing := by
  rw [xdmaWriteReg] at h
  split at h
  · cases h
  split at h
  · cases h
    rfl
  split at h
  · cases h
    rfl
  · cases h

theorem xdmaCalcStartIndex_landing {regIndex : UInt32} (h : xdmaCalcStartIndex s m regIndex = some u) :
    u.landing = m.landing := by
  obtain ⟨⟨m1, r1⟩, h1, h⟩ := Option.bind_eq_some_iff.mp h
  obtain ⟨⟨m2, r2⟩, h2, h⟩ := Option.bind_eq_some_iff.mp h
  obtain rfl := Option.some.inj h
  exact (xdmaWriteReg_landing h2).trans (xdmaWriteReg_landing h1)

-- A write of all its bytes puts them where the position or the address says.
theorem writeFromBuffer_landing {outcome : Nat → RoundOutcome} {size base : UInt64} {t : Transfer}
    (h : Addressed size base t) (hret : (writeFromBuffer outcome size base t).2 = size.toNat) :
    (⟨(writeFromBuffer outcome size base t).1.device, (writeFromBuffer outcome size base t).1.pos⟩ :
      Landing) = (⟨t.device, t.pos⟩ : Landing).put base t.buffer size.toNat := by
  by_cases hsize : size.toNat = 0
  · rw [writeFromBuffer, transferLoop, hsize, if_neg (Nat.lt_irrefl 0)]
    simp [Landing.put]
  obtain ⟨⟨k, -, hresult, hall⟩, -, -⟩ : Transferred _ _ _ _ _ (writeFromBuffer outcome size base t) :=
    writeFromBuffer_transferred h
  obtain rfl := hall hret
  rcases hresult with ⟨hzero, -⟩ | hresult
  · exact absurd hzero hsize
  · have hstart : t.start base = if base ≠ 0 then base.toNat else t.pos := by
      rw [Transfer.start]
      by_cases hbase : base = 0
      · rw [hbase]
        rfl
      · have hnonzero : base.toNat ≠ 0 := fun h => hbase (UInt64.toNat_inj.mp h)
        rw [if_pos hbase, if_pos hnonzero]
    rw [hresult, Landing.put, if_neg hsize, ← hstart]
    rfl

-- Below 2^31 no size and no error code is cut.
theorem ret_eq_of_cut {rc : Int} {size : Nat} (hrc : rc = size ∨ rc = - EIO) (hlt : size < 2147483648)
    (h : BitVec.ofInt 32 rc = BitVec.ofNat 32 size) : rc = size := by
  rcases hrc with hrc | rfl
  · exact hrc
  · have htoNat := congrArg BitVec.toNat h
    rw [BitVec.toNat_ofNat, Nat.mod_eq_of_lt (by omega)] at htoNat
    have hcut : (BitVec.ofInt 32 (- EIO)).toNat = 4294967291 := by decide
    omega

theorem xdmaTransfer_landing {dstPtr : UInt64} {data : Nat → UInt8} {size : UInt64}
    {dataSize : BitVec 32} {type : DataType} {startReg : UInt32} {outcome : Nat → RoundOutcome}
    {ret : ErrorCode} (hsize : size.toNat = dataSize.toNat)
    (hfits : TransferFits dstPtr dataSize.toNat)
    (h : xdmaTransfer s m dstPtr data size dataSize type startReg outcome = some (u, ret)) :
    u.landing = m.landing.put dstPtr data dataSize.toNat := by
  obtain ⟨hlt, hend, hstart⟩ := hfits
  rw [xdmaTransfer] at h
  split at h
  · cases h
  have hbase : (if type = .DATA_TYPE_DATA then dstPtr else dstPtr + DEV_MEM_ADDR_BASE_0) = dstPtr := by
    rw [DEV_MEM_ADDR_BASE_0, UInt64.add_zero, ite_self]
  simp only [hbase] at h
  split at h
  · rename_i hcut
    have haddressed : Addressed size dstPtr ⟨m.mem, m.writePos, data⟩ := by
      rw [Addressed, hsize]
      exact ⟨hend, hstart.imp_right .inr⟩
    have hret := ret_eq_of_cut (writeFromBuffer_transferred haddressed).ret (by omega)
      (hcut.trans (by rw [hsize, BitVec.ofNat_toNat, BitVec.setWidth_eq]))
    have hlanding := writeFromBuffer_landing haddressed hret
    rw [hsize] at hlanding
    split at h
    · obtain ⟨m1, h1, h⟩ := Option.map_eq_some_iff.mp h
      obtain ⟨rfl, -⟩ := Prod.mk.inj h
      rw [xdmaCalcStartIndex_landing h1]
      exact hlanding
    · obtain ⟨rfl, -⟩ := Prod.mk.inj (Option.some.inj h)
      exact hlanding
  · cases h

-- An int that is not negative keeps its value when it is widened.
theorem signExtend_toNat {n : BitVec 32} (h : n.toNat < 2147483648) :
    (UInt64.ofBitVec (n.signExtend 64)).toNat = n.toNat := by
  have hmsb : n.msb = false := by
    rw [BitVec.msb_eq_decide, decide_eq_false_iff_not]
    omega
  show (n.signExtend 64).toNat = n.toNat
  rw [BitVec.signExtend_eq_setWidth_of_msb_false hmsb, BitVec.toNat_setWidth]
  omega

theorem landing_step {e : XdmaEvent} (hfits : e.Fits) (h : m.step s e = some u) :
    u.landing = m.landing.step e := by
  cases e with
  | write dstPtr data dataSize type outcome =>
      obtain ⟨⟨u', ret⟩, hu, rfl⟩ := Option.map_eq_some_iff.mp h
      exact xdmaTransfer_landing (signExtend_toNat hfits.1) hfits hu
  | writeSize dstPtr data dataSize type pictureResolution outcome =>
      obtain ⟨⟨u', ret⟩, hu, rfl⟩ := Option.map_eq_some_iff.mp h
      exact xdmaTransfer_landing (UInt32.toNat_toUInt64 dataSize) hfits hu
  | read srcPtr buffer dataSize outcome =>
      obtain rfl := Option.some.inj h
      simp only [xdmaRead]
      split
      · rfl
      · rfl

end Session

-- Parameters are written whenever the system calls do what they are asked to.
theorem xdmaTransfer_complete {s : Xdma} {m : XdmaMemory} {dstPtr : UInt64} {data : Nat → UInt8}
    {size : UInt64} {dataSize : BitVec 32} {startReg : UInt32} {outcome : Nat → RoundOutcome}
    (hopen : s.isXdmaDevOpened = true) (hsize : size.toNat = dataSize.toNat)
    (hfits : TransferFits dstPtr dataSize.toNat) (hcomplete : Complete outcome size dstPtr) :
    ∃ u, xdmaTransfer s m dstPtr data size dataSize .DATA_TYPE_PARAM startReg outcome =
      some (u, .ERR_NONE) := by
  have haddressed : Addressed size dstPtr ⟨m.mem, m.writePos, data⟩ := by
    rw [Addressed, hsize]
    exact ⟨hfits.2.1, hfits.2.2.imp_right .inr⟩
  have hret := (writeFromBuffer_transferred haddressed).complete_iff.mpr hcomplete
  have hcut : BitVec.ofInt 32 (size.toNat : Int) = dataSize := by
    rw [hsize, BitVec.ofInt_natCast, BitVec.ofNat_toNat, BitVec.setWidth_eq]
  simp [xdmaTransfer, hopen, DEV_MEM_ADDR_BASE_0, hret, hcut]

-- Every run of transfers is a run of writes to a memory, where address 0 stands for the end of the
-- last write. A complete read returns what that memory holds.
theorem xdma_refines_memory (s : Xdma) (hread : s.dmaReadFds ⟨0, by decide⟩ ≠ INVALID_FILE_ID)
    (m u : XdmaMemory) (es : List XdmaEvent) (hfits : ∀ e ∈ es, e.Fits)
    (hr : run (XdmaMemory.step s) m es = some u) :
    u.landing = es.foldl Landing.step m.landing ∧
      ∀ (srcPtr : UInt64) (buffer : Nat → UInt8) (dataSize : BitVec 32) (outcome : Nat → RoundOutcome),
        srcPtr ≠ 0 → TransferFits srcPtr dataSize.toNat →
        Complete outcome (.ofBitVec (dataSize.signExtend 64)) srcPtr →
        (xdmaRead s u srcPtr buffer dataSize outcome).2.1 =
          blit buffer 0 (es.foldl Landing.step m.landing).mem srcPtr.toNat dataSize.toNat := by
  have hlanding : u.landing = es.foldl Landing.step m.landing := by
    clear hread
    induction es generalizing m with
    | nil =>
        obtain rfl := Option.some.inj hr
        rfl
    | cons e es ih =>
        obtain ⟨t, ht, hr⟩ := Option.bind_eq_some_iff.mp hr
        rw [ih t (fun d hd => hfits d (List.mem_cons_of_mem e hd)) hr,
          landing_step (hfits e List.mem_cons_self) ht, List.foldl_cons]
  refine ⟨hlanding, ?_⟩
  intro srcPtr buffer dataSize outcome hsrc ⟨hlt, hend, hstart⟩ hcomplete
  have hsize := signExtend_toNat hlt
  rw [xdmaRead, if_pos hread, ← hlanding]
  have haddressed : Addressed (.ofBitVec (dataSize.signExtend 64)) srcPtr
      ⟨u.mem, u.readPos, buffer⟩ := by
    rw [Addressed, hsize]
    exact ⟨hend, .inl hsrc⟩
  obtain ⟨⟨k, -, hresult, hall⟩, -, hiff⟩ : Transferred _ _ _ _ _ (readToBuffer outcome _ srcPtr _) :=
    readToBuffer_transferred haddressed
  obtain rfl := hall (hiff.mpr hcomplete)
  have hnonzero : srcPtr.toNat ≠ 0 := fun h => hsrc (UInt64.toNat_inj.mp h)
  rcases hresult with ⟨hzero, hresult⟩ | hresult
  · simp only [hresult]
    rw [← hsize, hzero, blit_zero]
  · simp only [hresult]
    rw [hsize, Transfer.start, if_pos hnonzero]
    rfl

def sampleXdma : Xdma :=
  { dmaReadFds := fun _ => 5, dmaWriteFds := fun _ => 4, isXdmaDevOpened := true }

def fullRounds : Nat → RoundOutcome := fun _ => ⟨true, some RW_MAX_SIZE⟩

theorem complete_fullRounds (size base : UInt64) : Complete fullRounds size base := fun _ _ =>
  ⟨fun _ => rfl, RW_MAX_SIZE, rfl, Nat.min_le_right _ _⟩

def sampleWrite (address : UInt64) (value : UInt8) : XdmaEvent :=
  .writeSize address (fun _ => value) 4 .DATA_TYPE_PARAM 0 fullRounds

-- The second write means address 0 and goes behind the first one.
theorem xdma_refines_memory_zero :
    ∃ u, run (XdmaMemory.step sampleXdma) ⟨fun _ => 0, fun _ => 0, 0, 0⟩
        [sampleWrite 16 7, sampleWrite 0 9] = some u ∧
      u.mem 0 = 0 ∧ u.mem 16 = 7 ∧ u.mem 20 = 9 := by
  have hfits : ∀ e ∈ [sampleWrite 16 7, sampleWrite 0 9], e.Fits := by
    intro e he
    rcases List.mem_pair.mp he with rfl | rfl
    · exact ⟨by decide, by decide, by decide⟩
    · exact ⟨by decide, by decide, by decide⟩
  obtain ⟨u1, h1⟩ : ∃ u, xdmaTransfer sampleXdma ⟨fun _ => 0, fun _ => 0, 0, 0⟩ 16 (fun _ => 7)
      (UInt32.toUInt64 4) (UInt32.toBitVec 4) .DATA_TYPE_PARAM 0 fullRounds = some (u, .ERR_NONE) :=
    xdmaTransfer_complete rfl rfl (hfits _ List.mem_cons_self) (complete_fullRounds _ 16)
  obtain ⟨u2, h2⟩ : ∃ u, xdmaTransfer sampleXdma u1 0 (fun _ => 9) (UInt32.toUInt64 4) (UInt32.toBitVec 4)
      .DATA_TYPE_PARAM 0 fullRounds = some (u, .ERR_NONE) :=
    xdmaTransfer_complete rfl rfl (hfits _ (List.mem_cons_of_mem _ List.mem_cons_self))
      (complete_fullRounds _ 0)
  have hr : run (XdmaMemory.step sampleXdma) ⟨fun _ => 0, fun _ => 0, 0, 0⟩
      [sampleWrite 16 7, sampleWrite 0 9] = some u2 := by
    rw [run_cons]
    show ((xdmaTransfer _ _ _ _ _ _ _ _ _).map Prod.fst).bind _ = _
    rw [h1, Option.map_some, Option.bind_some, run_cons]
    show ((xdmaTransfer _ _ _ _ _ _ _ _ _).map Prod.fst).bind _ = _
    rw [h2, Option.map_some, Option.bind_some, run_nil]
  have hu := (xdma_refines_memory sampleXdma (by decide) _ u2 _ hfits hr).1
  have hmem : u2.mem = _ := congrArg Landing.mem hu
  refine ⟨u2, hr, ?_, ?_, ?_⟩
  · rw [hmem]
    decide
  · rw [hmem]
    decide
  · rw [hmem]
    decide

end Vcu
