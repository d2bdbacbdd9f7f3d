import Vcu.Fpga.Matching
import Vcu.Lib.Slots
import Vcu.Shm.Transfers

namespace Vcu

open Machine History Scatter Slots

-- A frame written that inputIndex does not count yet.
def InputPc.unindexed : InputPc → Nat
  | .release => 1
  | .increment => 1
  | _ => 0

-- Where the device looks for frame `k`.
def inputSlot (para : FpgaPara) (regStart : UInt32) (k : Nat) : Nat :=
  address para.inputOffset.toNat FPGA_CFG_INPUT_DATA_SIZE.toNat 8 (regStart.toNat + k)

-- Frame `k` is written to slot `k`, counted from where the device starts.
structure Addresses (para : FpgaPara) (regStart : UInt32) (s : Fpga) : Prop where
  unchanged : s.para = para
  start : s.startIndex = regStart
  inputIndex : s.inputIndex = UInt32.ofNat (s.writes.length - s.inputPc.unindexed)
  unindexed : s.inputPc.unindexed ≤ s.writes.length
  writes : ∀ k w, s.writes[k]? = some w → w.1.toNat = inputSlot para regStart k

section Addresses

variable {para : FpgaPara} {regStart : UInt32} {s u : Fpga}

-- The product is taken in 32 bits, which is enough for eight slots.
theorem inputAddress_eq {k : Nat} (hpara : s.para = para) (hstart : s.startIndex = regStart)
    (hk : s.inputIndex = UInt32.ofNat k) : s.inputAddress.toNat = inputSlot para regStart k := by
  have hslot : ((s.inputIndex + s.startIndex) % FPGA_CFG_IO_DATA_MAX_NUM).toNat =
      (regStart.toNat + k) % 8 := by
    rw [UInt32.toNat_mod, UInt32.toNat_add, hk, hstart, UInt32.toNat_ofNat']
    show (k % 4294967296 + regStart.toNat) % 4294967296 % 8 = (regStart.toNat + k) % 8
    omega
  have hoffset : para.inputOffset.toNat < 4294967296 := para.inputOffset.toNat_lt
  have hlt : (regStart.toNat + k) % 8 < 8 := Nat.mod_lt _ (by decide)
  rw [Fpga.inputAddress, UInt64.toNat_add, UInt32.toNat_toUInt64, UInt32.toNat_toUInt64,
    UInt32.toNat_mul, hslot, hpara, inputSlot, address]
  show (para.inputOffset.toNat + 1478656 * ((regStart.toNat + k) % 8) % 4294967296) %
    18446744073709551616 = para.inputOffset.toNat + 1478656 * ((regStart.toNat + k) % 8)
  have hproduct : 1478656 * ((regStart.toNat + k) % 8) < 4294967296 := by omega
  rw [Nat.mod_eq_of_lt hproduct, Nat.mod_eq_of_lt (by omega)]

theorem addresses_init : Addresses para regStart (Fpga.initIndex para regStart) :=
  ⟨rfl, rfl, rfl, Nat.le_refl 0, nofun⟩

theorem Addresses.inputStep (h : Addresses para regStart s) (hu : s.inputStep = some u) :
    Addresses para regStart u := by
  obtain ⟨h1, h2, h3, h4, h5⟩ := h
  cases inputStep_rule hu with
  | acquire input before permit =>
      simp only [before, InputPc.unindexed] at h3 h4
      exact ⟨h1, h2, h3, h4, h5⟩
  | push input before =>
      simp only [before, InputPc.unindexed] at h3 h4
      exact ⟨h1, h2, h3, h4, h5⟩
  | write input before =>
      simp only [before, InputPc.unindexed] at h3 h4
      refine ⟨h1, h2, ?_, ?_, ?_⟩
      · simp only [InputPc.unindexed, List.length_append, List.length_singleton, Nat.add_sub_cancel]
        exact h3
      · simp only [InputPc.unindexed, List.length_append, List.length_singleton]
        omega
      · intro k w hk
        rcases getElem?_concat_eq_some.mp hk with hk | ⟨rfl, rfl⟩
        · exact h5 k w hk
        · exact inputAddress_eq h1 h2 h3
  | release before =>
      simp only [before, InputPc.unindexed] at h3 h4
      exact ⟨h1, h2, h3, h4, h5⟩
  | increment before =>
      simp only [before, InputPc.unindexed] at h3 h4
      refine ⟨h1, h2, ?_, Nat.zero_le _, h5⟩
      simp only [InputPc.unindexed, h3, ofNat_succ]
      congr 1
      omega

theorem Addresses.step {e : FpgaEvent} (h : Addresses para regStart s) (hu : s.step e = some u) :
    Addresses para regStart u := by
  cases e with
  | input input =>
      simp only [Fpga.step] at hu
      split at hu
      · rename_i hpc
        obtain rfl := Option.some.inj hu
        have h3 := h.inputIndex
        rw [hpc] at h3
        exact ⟨h.unchanged, h.start, h3, Nat.zero_le _, h.writes⟩
      · cases hu
  | inputStep => exact h.inputStep hu
  | outputStep =>
      cases outputStep_rule hu <;> exact ⟨h.unchanged, h.start, h.inputIndex, h.unindexed, h.writes⟩
  | store =>
      simp only [Fpga.step, Fpga.store] at hu
      split at hu
      · obtain rfl := Option.some.inj hu
        exact ⟨h.unchanged, h.start, h.inputIndex, h.unindexed, h.writes⟩
      · cases hu
  | count =>
      simp only [Fpga.step, Fpga.count] at hu
      split at hu
      · obtain rfl := Option.some.inj hu
        exact ⟨h.unchanged, h.start, h.inputIndex, h.unindexed, h.writes⟩
      · cases hu
  | stop =>
      obtain rfl := Option.some.inj hu
      exact ⟨h.unchanged, h.start, h.inputIndex, h.unindexed, h.writes⟩

end Addresses

-- The transfers that the writes of a run make. `pixels k` is what frame `k` holds when it is written.
def shmWrites (neon : Bool) (shm : Shm) (inputReg : UInt32) (pixels : Nat → List UInt8)
    (writes : List (UInt64 × FPGAInput)) (m : ShmMemory) : Option ShmMemory :=
  writes.zipIdx.foldlM
    (fun m w => (shmWriteSize neon shm m w.1.1 (pixels w.2) w.1.2.inDataLen .DATA_TYPE_DATA inputReg
      false).map Prod.fst) m

-- What the transfers copy.
def copied (neon : Bool) (pixels : Nat → List UInt8) (writes : List (UInt64 × FPGAInput)) :
    List (Nat × List UInt8) :=
  writes.zipIdx.map fun w => (windowSize neon w.1.2.inDataLen, pixels w.2)

section Transfers

variable {neon : Bool} {shm : Shm} {inputReg : UInt32} {pixels : Nat → List UInt8}
  {writes : List (UInt64 × FPGAInput)} {m : ShmMemory}

theorem shmWrites_concat (w : UInt64 × FPGAInput) :
    shmWrites neon shm inputReg pixels (writes ++ [w]) m =
      (shmWrites neon shm inputReg pixels writes m).bind fun m =>
        (shmWriteSize neon shm m w.1 (pixels writes.length) w.2.inDataLen .DATA_TYPE_DATA inputReg
          false).map Prod.fst := by
  rw [shmWrites, List.zipIdx_append, List.foldlM_append]
  simp [shmWrites]

theorem copied_concat (w : UInt64 × FPGAInput) :
    copied neon pixels (writes ++ [w]) =
      copied neon pixels writes ++ [(windowSize neon w.2.inDataLen, pixels writes.length)] := by
  simp [copied, List.zipIdx_append]

theorem copied_length : (copied neon pixels writes).length = writes.length := by
  rw [copied, List.length_map, List.length_zipIdx]

theorem copied_getElem? {k : Nat} {w : UInt64 × FPGAInput} (hk : writes[k]? = some w) :
    (copied neon pixels writes)[k]? = some (windowSize neon w.2.inDataLen, pixels k) := by
  simp [copied, List.getElem?_map, List.getElem?_zipIdx, hk]

-- A transfer copies its bytes to the first window and starts the device.
theorem shmWriteSize_spec {dstPtr : UInt64} {dataIn : List UInt8} {dataSize : UInt32}
    {out : List UInt8} (hopen : shm.isShmDevOpened = true)
    (hreg : 4 * inputReg.toNat + 4 ≤ FPGA_REG_MAPPED_SIZE)
    (hcopy : Scatter.memcpy (windowSize neon dataSize) dataIn m.shm dstPtr.toNat 0 = some out) :
    ∃ reg, (shmWriteSize neon shm m dstPtr dataIn dataSize .DATA_TYPE_DATA inputReg false).map
      Prod.fst = some { reg := reg, shm := out, shm2 := m.shm2 } := by
  obtain ⟨reg, hstart⟩ := fpgaCalcStartIndex2_spec (m := { m with shm := out }) hopen hreg
  refine ⟨reg, ?_⟩
  simp [shmWriteSize, hopen, hcopy, hstart]

-- The transfers of a run fill the slots of the first window, one after the other.
theorem shmWrites_of_fill {base start : Nat} {out : List UInt8} (hopen : shm.isShmDevOpened = true)
    (hreg : 4 * inputReg.toNat + 4 ≤ FPGA_REG_MAPPED_SIZE)
    (hwrites : ∀ k w, writes[k]? = some w →
      w.1.toNat = address base FPGA_CFG_INPUT_DATA_SIZE.toNat 8 (start + k))
    (hfill : fill base FPGA_CFG_INPUT_DATA_SIZE.toNat 8 start (copied neon pixels writes) m.shm =
      some out) :
    ∃ reg, shmWrites neon shm inputReg pixels writes m =
      some { reg := reg, shm := out, shm2 := m.shm2 } := by
  induction writes using List.reverseRecOn generalizing out with
  | nil =>
      obtain rfl := Option.some.inj hfill
      exact ⟨m.reg, rfl⟩
  | append_singleton writes w ih =>
      rw [copied_concat, fill_concat, copied_length] at hfill
      obtain ⟨mid, hmid, hcopy⟩ := Option.bind_eq_some_iff.mp hfill
      have hinit : ∀ k v, writes[k]? = some v →
          v.1.toNat = address base FPGA_CFG_INPUT_DATA_SIZE.toNat 8 (start + k) := fun k v hk =>
        hwrites k v (getElem?_concat_eq_some.mpr (.inl hk))
      obtain ⟨reg, hreg'⟩ := ih hinit hmid
      rw [← hwrites writes.length w (getElem?_concat_eq_some.mpr (.inr ⟨rfl, rfl⟩))] at hcopy
      obtain ⟨reg', hnext⟩ := shmWriteSize_spec (m := { reg := reg, shm := mid, shm2 := m.shm2 })
        hopen hreg hcopy
      refine ⟨reg', ?_⟩
      rw [shmWrites_concat, hreg', Option.bind_some, hnext]

end Transfers

-- Whatever the order of the threads, a frame stays in its slot until its callback begins, and the
-- frames leave the rest of the memory alone.
theorem fpga_input_slots (neon : Bool) (shm : Shm) (hopen : shm.isShmDevOpened = true)
    (inputReg : UInt32) (hreg : 4 * inputReg.toNat + 4 ≤ FPGA_REG_MAPPED_SIZE) (para : FpgaPara)
    (regStart : UInt32) (m : ShmMemory)
    (hwindow : para.inputOffset.toNat + FPGA_CFG_INPUT_DATA_SIZE.toNat * 8 ≤ m.shm.length)
    (pixels : Nat → List UInt8) (es : List FpgaEvent) (s : Fpga)
    (hr : run Fpga.step (Fpga.initIndex para regStart) es = some s)
    (hlen : ∀ w ∈ s.writes, w.2.inDataLen.toNat ≤ FPGA_CFG_INPUT_DATA_SIZE.toNat)
    (hpixels : ∀ k w, s.writes[k]? = some w → windowSize neon w.2.inDataLen ≤ (pixels k).length) :
    ∃ m', shmWrites neon shm inputReg pixels s.writes m = some m' ∧
      m'.shm2 = m.shm2 ∧ m'.shm.length = m.shm.length ∧
      (∀ p, p < para.inputOffset.toNat ∨
          para.inputOffset.toNat + FPGA_CFG_INPUT_DATA_SIZE.toNat * 8 ≤ p →
        m'.shm[p]? = m.shm[p]?) ∧
      ∀ k w, s.writes[k]? = some w → s.calls.length ≤ k →
        ∀ i, i < w.2.inDataLen.toNat → m'.shm[inputSlot para regStart k + i]? = (pixels k)[i]? := by
  obtain ⟨haddresses, hflow⟩ : Addresses para regStart s ∧ Flow s := by
    refine ⟨run_invariant (fun _ s => Addresses para regStart s) addresses_init
      (fun _ _ _ _ h hu => h.step hu) hr, Counts.toFlow ?_⟩
    exact run_invariant (fun _ s => Counts s) (counts_init para regStart)
      (fun _ _ _ _ h hu => h.step hu) hr
  -- Every transfer fits a slot, also when it is rounded up.
  have hds : ∀ d ∈ copied neon pixels s.writes,
      d.1 ≤ FPGA_CFG_INPUT_DATA_SIZE.toNat ∧ d.1 ≤ d.2.length := by
    intro d hd
    obtain ⟨k, hk⟩ := List.mem_iff_getElem?.mp hd
    have hlt := (List.getElem?_eq_some_iff.mp hk).1
    rw [copied_length] at hlt
    have hw := List.getElem?_eq_getElem hlt
    rw [copied_getElem? hw] at hk
    obtain rfl := Option.some.inj hk
    exact ⟨windowSize_le neon (hlen _ (List.getElem_mem hlt)) (by decide) (by decide) (by decide),
      hpixels k _ hw⟩
  obtain ⟨out, hfill, hfilled⟩ : ∃ out, fill para.inputOffset.toNat FPGA_CFG_INPUT_DATA_SIZE.toNat 8
      regStart.toNat (copied neon pixels s.writes) m.shm = some out ∧ Filled _ _ _ _ _ _ out :=
    exists_fill (by decide) hwindow hds
  obtain ⟨reg, hwrites⟩ := shmWrites_of_fill hopen hreg haddresses.writes hfill
  refine ⟨_, hwrites, rfl, hfilled.length, hfilled.outside, ?_⟩
  intro k w hk hcalls i hi
  have hsize : w.2.inDataLen.toNat < 2147483648 :=
    Nat.lt_of_le_of_lt (hlen w (List.mem_of_getElem? hk)) (by decide)
  have hlap : s.writes.length ≤ k + 8 := by
    have h1 := hflow.permits
    have h2 := hflow.written
    have hreleased : s.outputPc.released ≤ 1 := by
      cases s.outputPc <;> simp [OutputPc.released]
    omega
  refine hfilled.recent k (windowSize neon w.2.inDataLen, pixels k) (copied_getElem? hk) ?_ i ?_
  · rw [copied_length]
    exact hlap
  · exact Nat.lt_of_lt_of_le hi (le_windowSize neon hsize)

def mappedShm : Shm := { devMemAddrReg := 4096, isShmDevOpened := true }

def fullFrame : List UInt8 := List.replicate 1478656 7

def emptyMemory : ShmMemory := ⟨fun _ => 0, List.replicate 11829248 0, []⟩

-- One frame that fills its slot, in a window that the slots fill.
theorem fpga_input_slots_full :
    ∃ s m', run Fpga.step (Fpga.initIndex { samplePara with inputOffset := 0 } 0xFFFFFFFF)
        (sampleEvents.take 8) = some s ∧
      shmWrites true mappedShm 2 (fun _ => fullFrame) s.writes emptyMemory = some m' ∧
      ∀ i, i < 1478656 → m'.shm[10350592 + i]? = fullFrame[i]? := by
  have hwrites : ((run Fpga.step (Fpga.initIndex { samplePara with inputOffset := 0 } 0xFFFFFFFF)
      (sampleEvents.take 8)).map fun s => (s.writes, s.calls.length)) =
        some ([(10350592, sampleFrame)], 0) := by
    decide +kernel
  obtain ⟨s, hr, hs⟩ := Option.map_eq_some_iff.mp hwrites
  obtain ⟨hw, hc⟩ := Prod.mk.inj hs
  have hk : ∀ k w, s.writes[k]? = some w → k = 0 ∧ w = (10350592, sampleFrame) := by
    intro k w hk
    rw [hw] at hk
    cases k with
    | zero => exact ⟨rfl, (Option.some.inj hk).symm⟩
    | succ k => cases hk
  have hlength : emptyMemory.shm.length = 11829248 := List.length_replicate
  obtain ⟨m', hm, -, -, -, hslot⟩ := fpga_input_slots true mappedShm rfl 2 (by decide)
    { samplePara with inputOffset := 0 } 0xFFFFFFFF emptyMemory (by rw [hlength]; decide)
    (fun _ => fullFrame) (sampleEvents.take 8) s hr
    (by
      intro w hmem
      obtain ⟨k, hget⟩ := List.mem_iff_getElem?.mp hmem
      rw [(hk k w hget).2]
      decide)
    (by
      intro k w hget
      rw [(hk k w hget).2, fullFrame, List.length_replicate]
      decide)
  exact ⟨s, m', hr, hm, hslot 0 (10350592, sampleFrame) (by rw [hw]; rfl) (by rw [hc])⟩

end Vcu
