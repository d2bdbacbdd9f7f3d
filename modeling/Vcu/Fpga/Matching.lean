import Vcu.Fpga.Flow
import Vcu.Lib.History
import Vcu.Lib.Machine

namespace Vcu

open Machine History

-- The accounts of results and callbacks, for a device that counts what it has stored.
structure Counts (s : Fpga) : Prop extends Flow s where
  counted : s.counted ≤ s.stored
  stored : s.stored ≤ s.writes.length
  ready : s.calls.length + s.outputPc.ready ≤ s.counted
  opened : s.outputPc.opened ≤ s.calls.length
  outputIndex : s.outputIndex = UInt32.ofNat (s.calls.length - s.outputPc.opened)
  start : s.startIndex = s.regStart

section Counts

variable {s u : Fpga}

theorem counts_init (para : FpgaPara) (regStart : UInt32) : Counts (Fpga.initIndex para regStart) :=
  ⟨flow_init para regStart, Nat.le_refl 0, Nat.le_refl 0, Nat.le_refl 0, Nat.le_refl 0, rfl, rfl⟩

theorem ofNat_succ (n : Nat) : UInt32.ofNat n + 1 = UInt32.ofNat (n + 1) := by
  rw [UInt32.ofNat_add]
  rfl

-- The input thread changes no result, and the device gets more frames only.
theorem Counts.inputStep (h : Counts s) (hu : s.inputStep = some u) : Counts u := by
  have hflow := h.toFlow.inputStep hu
  obtain ⟨-, h4, h5, h6, h7, h9, h11⟩ := h
  cases inputStep_rule hu with
  | acquire input before permit => exact ⟨hflow, h4, h5, h6, h7, h9, h11⟩
  | push input before => exact ⟨hflow, h4, h5, h6, h7, h9, h11⟩
  | write input before =>
      refine ⟨hflow, h4, ?_, h6, h7, h9, h11⟩
      simp only [List.length_append]
      omega
  | release before => exact ⟨hflow, h4, h5, h6, h7, h9, h11⟩
  | increment before => exact ⟨hflow, h4, h5, h6, h7, h9, h11⟩

-- The register differs from the index of the next callback only if its result is counted, since
-- far fewer than 2^32 results are ahead of the callbacks.
theorem Counts.counted_of_reg (h : Counts s) {n : Nat} (hpc : s.outputPc = .poll n)
    (hreg : s.reg - s.startIndex - s.outputIndex > 0) : s.calls.length + 1 ≤ s.counted := by
  obtain ⟨⟨h1, h2, -⟩, h4, h5, h6, -, h9, h11⟩ := h
  simp only [hpc, OutputPc.ready, OutputPc.released, OutputPc.opened] at *
  by_contra hlt
  have heq : s.counted = s.calls.length := by omega
  rw [Fpga.reg, h11, h9, heq] at hreg
  have hz : s.regStart + UInt32.ofNat s.calls.length - s.regStart -
      UInt32.ofNat (s.calls.length - 0) = 0 := by
    rw [Nat.sub_zero, UInt32.add_comm, UInt32.add_sub_cancel, UInt32.sub_self]
  rw [hz] at hreg
  exact absurd hreg (by decide)

theorem Counts.outputStep (h : Counts s) (hu : s.outputStep = some u) : Counts u := by
  have hflow := h.toFlow.outputStep hu
  have hnext := fun n hpc hreg => h.counted_of_reg (n := n) hpc hreg
  obtain ⟨-, h4, h5, h6, h7, h9, h11⟩ := h
  cases outputStep_rule hu with
  | loop pc before after =>
      simp only [before, OutputPc.ready, OutputPc.opened] at h6 h7 h9
      rcases after with rfl | rfl
      · exact ⟨hflow, h4, h5, h6, h7, h9, h11⟩
      · exact ⟨hflow, h4, h5, h6, h7, h9, h11⟩
  | acquire before post =>
      simp only [before, OutputPc.ready, OutputPc.opened] at h6 h7 h9
      exact ⟨hflow, h4, h5, h6, h7, h9, h11⟩
  | wait n pc before after =>
      simp only [before, OutputPc.ready, OutputPc.opened] at h6 h7 h9
      rcases after with rfl | rfl | rfl
      · exact ⟨hflow, h4, h5, h6, h7, h9, h11⟩
      · exact ⟨hflow, h4, h5, h6, h7, h9, h11⟩
      · exact ⟨hflow, h4, h5, h6, h7, h9, h11⟩
  | ready n before counted =>
      have hcounted := hnext n before counted
      simp only [before, OutputPc.ready, OutputPc.opened] at h6 h7 h9
      exact ⟨hflow, h4, h5, hcounted, h7, h9, h11⟩
  | underflow before empty =>
      simp only [before, OutputPc.ready, OutputPc.opened] at h6 h7 h9
      exact ⟨hflow, h4, h5, Nat.le_of_succ_le h6, h7, h9, h11⟩
  | pop input rest before queue =>
      simp only [before, OutputPc.ready, OutputPc.opened] at h6 h7 h9
      exact ⟨hflow, h4, h5, h6, h7, h9, h11⟩
  | release outData input before =>
      simp only [before, OutputPc.ready, OutputPc.opened] at h6 h7 h9
      exact ⟨hflow, h4, h5, h6, h7, h9, h11⟩
  | call outData input before =>
      simp only [before, OutputPc.ready, OutputPc.opened] at h6 h7 h9
      refine ⟨hflow, h4, h5, ?_, ?_, ?_, h11⟩ <;>
        simp only [List.length_append, List.length_singleton, OutputPc.ready, OutputPc.opened,
          Nat.add_sub_cancel]
      · omega
      · omega
      · exact h9
  | calling outData input before =>
      simp only [before, OutputPc.ready, OutputPc.opened] at h6 h7 h9
      exact ⟨hflow, h4, h5, h6, h7, h9, h11⟩
  | delete input before =>
      simp only [before, OutputPc.ready, OutputPc.opened] at h6 h7 h9
      exact ⟨hflow, h4, h5, h6, h7, h9, h11⟩
  | increment before =>
      simp only [before, OutputPc.ready, OutputPc.opened] at h6 h7 h9
      refine ⟨hflow, h4, h5, h6, Nat.zero_le _, ?_, h11⟩
      simp only [OutputPc.opened, h9, ofNat_succ]
      congr 1
      omega

theorem Counts.step {e : FpgaEvent} (h : Counts s) (hu : s.step e = some u) : Counts u := by
  cases e with
  | input input =>
      have hflow := h.toFlow.input hu
      simp only [Fpga.step] at hu
      split at hu
      · obtain rfl := Option.some.inj hu
        exact ⟨hflow, h.counted, h.stored, h.ready, h.opened, h.outputIndex, h.start⟩
      · cases hu
  | inputStep => exact h.inputStep hu
  | outputStep => exact h.outputStep hu
  | store =>
      simp only [Fpga.step, Fpga.store] at hu
      split at hu
      · rename_i hlt
        obtain rfl := Option.some.inj hu
        exact ⟨⟨h.permits, h.written, h.posted⟩, Nat.le_succ_of_le h.counted, hlt, h.ready, h.opened,
          h.outputIndex, h.start⟩
      · cases hu
  | count =>
      simp only [Fpga.step, Fpga.count] at hu
      split at hu
      · rename_i hlt
        obtain rfl := Option.some.inj hu
        exact ⟨⟨h.permits, h.written, h.posted⟩, hlt, h.stored, Nat.le_succ_of_le h.ready, h.opened,
          h.outputIndex, h.start⟩
      · cases hu
  | stop =>
      obtain rfl := Option.some.inj hu
      exact ⟨⟨h.permits, h.written, h.posted⟩, h.counted, h.stored, h.ready, h.opened,
        h.outputIndex, h.start⟩

end Counts

-- The address of an output slot.
def slotAddress (para : FpgaPara) (slot : Nat) : UInt64 :=
  para.mappedMemAddr + (para.outputOffset.toUInt64 + UInt64.ofNat (para.outputSize.toNat * slot))

-- The product is taken in 32 bits, which is enough for eight slots of less than 2^29 bytes.
theorem outputAddress_eq {s : Fpga} {k : Nat} (hsize : s.para.outputSize.toNat < 536870912)
    (hstart : s.startIndex = s.regStart) (hk : s.outputIndex = UInt32.ofNat k) :
    s.outputAddress = slotAddress s.para (s.resultSlot k) := by
  have hslot : ((s.outputIndex + s.startIndex) % FPGA_CFG_IO_DATA_MAX_NUM).toNat =
      s.resultSlot k := by
    rw [UInt32.toNat_mod, UInt32.toNat_add, hk, hstart, UInt32.toNat_ofNat']
    show (k % 4294967296 + s.regStart.toNat) % 4294967296 % 8 = (s.regStart.toNat + k) % 8
    omega
  have hlt : s.resultSlot k < 8 := Nat.mod_lt _ (by decide)
  have hprod : s.para.outputSize.toNat * s.resultSlot k < 4294967296 := by
    have := Nat.mul_le_mul_left s.para.outputSize.toNat (Nat.le_of_lt_succ hlt)
    omega
  have hcast : (s.para.outputSize *
      ((s.outputIndex + s.startIndex) % FPGA_CFG_IO_DATA_MAX_NUM)).toUInt64 =
      UInt64.ofNat (s.para.outputSize.toNat * s.resultSlot k) := by
    rw [← UInt64.toNat_inj, UInt32.toNat_toUInt64, UInt32.toNat_mul, hslot, UInt64.toNat_ofNat']
    show _ % 4294967296 = _ % 18446744073709551616
    rw [Nat.mod_eq_of_lt hprod, Nat.mod_eq_of_lt (by omega)]
  rw [Fpga.outputAddress, hcast, slotAddress]

-- Result `k` belongs to frame `k`, and its slot is the one that the callback is shown.
def Matches (s : Fpga) (k : Nat) (input : FPGAInput) (outData : UInt64) : Prop :=
  s.submitted[k]? = some input ∧ outData = slotAddress s.para (s.resultSlot k)

-- What the callbacks got, and what they are about to get.
structure Contents (s : Fpga) : Prop where
  calls : ∀ k c, s.calls[k]? = some c → Matches s k c.1 c.2
  releasing : ∀ outData input, s.outputPc = .release outData input →
    Matches s s.calls.length input outData
  called : ∀ outData input, s.outputPc = .call outData input →
    Matches s s.calls.length input outData
  slots : ∀ k, k < s.stored → s.stored ≤ k + 8 → s.slots (s.resultSlot k) = some k

section Contents

variable {s u : Fpga}

theorem contents_init (para : FpgaPara) (regStart : UInt32) :
    Contents (Fpga.initIndex para regStart) := by
  constructor <;> simp [Fpga.initIndex]

theorem Matches.append {k : Nat} {input new : FPGAInput} {outData : UInt64}
    (h : Matches s k input outData) : (s.submitted ++ [new])[k]? = some input := by
  have hk := (List.getElem?_eq_some_iff.mp h.1).1
  rw [List.getElem?_append_left hk]
  exact h.1

theorem Contents.inputStep (h : Contents s) (hu : s.inputStep = some u) : Contents u := by
  cases inputStep_rule hu with
  | acquire input before permit => exact ⟨h.calls, h.releasing, h.called, h.slots⟩
  | push input before =>
      exact ⟨fun k c hk => ⟨(h.calls k c hk).append, (h.calls k c hk).2⟩,
        fun o i hpc => ⟨(h.releasing o i hpc).append, (h.releasing o i hpc).2⟩,
        fun o i hpc => ⟨(h.called o i hpc).append, (h.called o i hpc).2⟩, h.slots⟩
  | write input before => exact ⟨h.calls, h.releasing, h.called, h.slots⟩
  | release before => exact ⟨h.calls, h.releasing, h.called, h.slots⟩
  | increment before => exact ⟨h.calls, h.releasing, h.called, h.slots⟩

-- A position without a popped frame says nothing about a callback.
theorem Contents.of_popped (h : Contents s) (pc : OutputPc) (hp : pc.popped = 0) :
    Contents { s with outputPc := pc } := by
  refine ⟨h.calls, ?_, ?_, h.slots⟩
  · rintro outData input rfl
    cases hp
  · rintro outData input rfl
    cases hp

theorem Contents.outputStep (h : Contents s) (hc : Counts s) (hq : Fifo s)
    (hsize : s.para.outputSize.toNat < 536870912) (hu : s.outputStep = some u) : Contents u := by
  cases outputStep_rule hu with
  | loop pc before after =>
      rcases after with rfl | rfl
      · exact h.of_popped _ rfl
      · exact h.of_popped _ rfl
  | acquire before post =>
      have hm := h.of_popped (.poll 0) rfl
      exact ⟨hm.calls, hm.releasing, hm.called, hm.slots⟩
  | wait n pc before after =>
      rcases after with rfl | rfl | rfl
      · exact h.of_popped _ rfl
      · exact h.of_popped _ rfl
      · exact h.of_popped _ rfl
  | ready n before counted => exact h.of_popped _ rfl
  | underflow before empty => exact h.of_popped _ rfl
  | pop input rest before queue =>
      obtain ⟨input', rest', hqueue, hs, -⟩ := hq.pop_nonempty hc.toFlow before
      obtain ⟨rfl, rfl⟩ := List.cons.inj (queue.symm.trans hqueue)
      have hi := hc.outputIndex
      rw [before] at hi
      have haddr := outputAddress_eq hsize hc.start hi
      refine ⟨h.calls, ?_, ?_, h.slots⟩
      · rintro outData i ⟨⟩
        exact ⟨hs, haddr⟩
      · rintro outData i ⟨⟩
  | release outData input before =>
      refine ⟨h.calls, ?_, ?_, h.slots⟩
      · rintro o i ⟨⟩
      · rintro o i ⟨⟩
        exact h.releasing outData input before
  | call outData input before =>
      have hcall := h.called outData input before
      refine ⟨?_, ?_, ?_, h.slots⟩
      · intro k c hk
        rcases getElem?_concat_eq_some.mp hk with hk | ⟨rfl, rfl⟩
        · exact h.calls k c hk
        · exact hcall
      · rintro o i ⟨⟩
      · rintro o i ⟨⟩
  | calling outData input before => exact h.of_popped _ rfl
  | delete input before => exact h.of_popped _ rfl
  | increment before =>
      have hm := h.of_popped .loop rfl
      exact ⟨hm.calls, hm.releasing, hm.called, hm.slots⟩

theorem resultSlot_ne {k m : Nat} (hlt : k < m) (hm : m < k + 8) :
    s.resultSlot k ≠ s.resultSlot m := by
  unfold Fpga.resultSlot
  omega

theorem Contents.store (h : Contents s) (hu : s.store = some u) : Contents u := by
  simp only [Fpga.store] at hu
  split at hu
  · obtain rfl := Option.some.inj hu
    refine ⟨h.calls, h.releasing, h.called, ?_⟩
    intro k hk hwin
    show Function.update s.slots (s.resultSlot s.stored) (some s.stored) (s.resultSlot k) = some k
    by_cases hke : k = s.stored
    · rw [hke, Function.update_self]
    · have hlt : k < s.stored := by
        have : k < s.stored + 1 := hk
        omega
      have hwin : s.stored + 1 ≤ k + 8 := hwin
      rw [Function.update_of_ne (resultSlot_ne hlt (by omega))]
      exact h.slots k hlt (by omega)
  · cases hu

-- One step keeps the queue and what the callbacks get.
theorem contents_step {e : FpgaEvent} (h : Contents s) (hq : Fifo s) (hc : Counts s)
    (hsize : s.para.outputSize.toNat < 536870912) (hu : s.step e = some u) :
    Fifo u ∧ Contents u := by
  cases e with
  | input input =>
      refine ⟨hq.input hu, ?_⟩
      simp only [Fpga.step] at hu
      split at hu
      · obtain rfl := Option.some.inj hu
        exact ⟨h.calls, h.releasing, h.called, h.slots⟩
      · cases hu
  | inputStep => exact ⟨hq.inputStep hc.toFlow hu, h.inputStep hu⟩
  | outputStep => exact ⟨hq.outputStep hc.toFlow hu, h.outputStep hc hq hsize hu⟩
  | store =>
      refine ⟨?_, h.store hu⟩
      simp only [Fpga.step, Fpga.store] at hu
      split at hu
      · obtain rfl := Option.some.inj hu
        exact ⟨hq.queue, hq.frames, hq.writing, hq.defined⟩
      · cases hu
  | count =>
      simp only [Fpga.step, Fpga.count] at hu
      split at hu
      · obtain rfl := Option.some.inj hu
        exact ⟨⟨hq.queue, hq.frames, hq.writing, hq.defined⟩,
          ⟨h.calls, h.releasing, h.called, h.slots⟩⟩
      · cases hu
  | stop =>
      obtain rfl := Option.some.inj hu
      exact ⟨⟨hq.queue, hq.frames, hq.writing, hq.defined⟩,
        ⟨h.calls, h.releasing, h.called, h.slots⟩⟩

end Contents

-- What the claimed steps of the two threads and of the device must find.
def PopsFrame : List FpgaEvent → Fpga → FpgaEvent → Prop := fun _ s e =>
  e = .outputStep → s.outputPc = .pop → s.queInput ≠ []

-- The callback about to begin is number `k`. It gets frame `k`, and result `k` is in its slot.
def CallsMatch : List FpgaEvent → Fpga → FpgaEvent → Prop := fun _ s e =>
  e = .outputStep → ∀ outData input, s.outputPc = .call outData input →
    Matches s s.calls.length input outData ∧ s.calls.length < s.stored ∧
      s.slots (s.resultSlot s.calls.length) = some s.calls.length

-- No result goes into the slot that a running callback reads.
def StoresElsewhere : List FpgaEvent → Fpga → FpgaEvent → Prop := fun _ s e =>
  e = .store → ∀ outData input, s.outputPc = .calling outData input →
    s.resultSlot s.stored ≠ s.resultSlot (s.calls.length - 1)

section Run

variable {s u : Fpga} {e : FpgaEvent} {before : List FpgaEvent}

theorem popsFrame (h : Fifo s) (hc : Counts s) : PopsFrame before s e := by
  intro _ hpc hq
  obtain ⟨input, rest, hqueue, -⟩ := h.pop_nonempty hc.toFlow hpc
  rw [hq] at hqueue
  cases hqueue

theorem callsMatch (h : Contents s) (hc : Counts s) : CallsMatch before s e := by
  intro _ outData input hpc
  have h1 := hc.permits
  have h2 := hc.written
  have h4 := hc.counted
  have h5 := hc.stored
  have h6 := hc.ready
  simp only [hpc, OutputPc.released, OutputPc.ready] at h1 h6
  exact ⟨h.called outData input hpc, by omega, h.slots _ (by omega) (by omega)⟩

-- While callback `k` runs, the device has results k + 1 and k + 2 to store at most.
theorem storesElsewhere (hc : Counts s) (hu : s.step e = some u) : StoresElsewhere before s e := by
  rintro rfl outData input hpc
  have h1 := hc.permits
  have h2 := hc.written
  have h4 := hc.counted
  have h6 := hc.ready
  have h7 := hc.opened
  simp only [hpc, OutputPc.released, OutputPc.ready, OutputPc.opened] at h1 h6 h7
  have hlt : s.stored < s.writes.length := by
    by_contra hn
    simp [Fpga.step, Fpga.store, hn] at hu
  exact (resultSlot_ne (by omega) (by omega)).symm

theorem para_step (hu : s.step e = some u) : u.para = s.para := by
  cases e with
  | input input =>
      simp only [Fpga.step] at hu
      split at hu
      · cases hu; rfl
      · cases hu
  | inputStep => cases inputStep_rule hu <;> rfl
  | outputStep => cases outputStep_rule hu <;> rfl
  | store =>
      simp only [Fpga.step, Fpga.store] at hu
      split at hu
      · cases hu; rfl
      · cases hu
  | count =>
      simp only [Fpga.step, Fpga.count] at hu
      split at hu
      · cases hu; rfl
      · cases hu
  | stop => cases hu; rfl

theorem fpga_run {para : FpgaPara} {regStart : UInt32} (hsize : para.outputSize.toNat < 536870912)
    {es : List FpgaEvent} (hr : run Fpga.step (Fpga.initIndex para regStart) es = some s) :
    s.para = para ∧ Counts s ∧ Fifo s ∧ Contents s := by
  refine run_invariant (fun _ s => s.para = para ∧ Counts s ∧ Fifo s ∧ Contents s)
    ⟨rfl, counts_init para regStart, fifo_init para regStart, contents_init para regStart⟩ ?_ hr
  rintro es t e u ⟨hp, hc, hq, ht⟩ hu
  exact ⟨(para_step hu).trans hp, hc.step hu, contents_step ht hq hc (by rwa [hp]) hu⟩

end Run

-- Frames, results and callbacks stay matched in every run, from every start value. The device
-- gets the frames in the order of the queue, so result `k` is that of frame `k`.
theorem fpga_matching (para : FpgaPara) (regStart : UInt32)
    (hsize : para.outputSize.toNat < 536870912) (es : List FpgaEvent) (s : Fpga)
    (hr : run Fpga.step (Fpga.initIndex para regStart) es = some s) :
    Along Fpga.step PopsFrame (Fpga.initIndex para regStart) es ∧
      Along Fpga.step CallsMatch (Fpga.initIndex para regStart) es ∧
      Along Fpga.step StoresElsewhere (Fpga.initIndex para regStart) es ∧
      s.writes.map Prod.snd = s.submitted.take s.writes.length ∧
      ∀ k c, s.calls[k]? = some c → Matches s k c.1 c.2 := by
  obtain ⟨-, -, hqueue, hend⟩ := fpga_run hsize hr
  refine ⟨?_, ?_, ?_, hqueue.frames, hend.calls⟩
  · intro before e after t _ ht
    obtain ⟨-, hc, hq, -⟩ := fpga_run hsize ht
    exact popsFrame hq hc
  · intro before e after t _ ht
    obtain ⟨-, hc, -, hk⟩ := fpga_run hsize ht
    exact callsMatch hk hc
  · rintro before e after t rfl ht
    obtain ⟨-, hc, -⟩ := fpga_run hsize ht
    obtain ⟨u, hu⟩ := step_of_run hr ht
    exact storesElsewhere hc hu

def samplePara : FpgaPara := ⟨0x6000000, 0x4100000, 0x1C3400, 0x10000000⟩

def sampleFrame : FPGAInput := ⟨0, 0, 1478656, 1080, 1920, 7⟩

-- One frame through the pipeline, with a counter that is about to wrap.
def sampleEvents : List FpgaEvent :=
  .input sampleFrame :: List.replicate 5 .inputStep ++ [.store, .count] ++
    List.replicate 6 .outputStep

theorem fpga_matching_wrapping :
    ∃ s c, run Fpga.step (Fpga.initIndex samplePara 0xFFFFFFFF) sampleEvents = some s ∧
      s.calls[0]? = some c ∧ Matches s 0 c.1 c.2 := by
  have hs : ((run Fpga.step (Fpga.initIndex samplePara 0xFFFFFFFF) sampleEvents).bind
      (·.calls[0]?)).isSome = true := by
    decide +kernel
  obtain ⟨c, hc⟩ := Option.isSome_iff_exists.mp hs
  obtain ⟨s, hr, hc⟩ := Option.bind_eq_some_iff.mp hc
  exact ⟨s, c, hr, hc, (fpga_matching samplePara 0xFFFFFFFF (by decide) sampleEvents s hr).2.2.2.2 0 c hc⟩

end Vcu
