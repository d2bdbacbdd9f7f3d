import Vcu.Lib.Custody
import Vcu.Lib.History
import Vcu.Lib.Machine
import Vcu.Main.Pipeline
import Mathlib.Data.List.Nodup

namespace Vcu

open Machine Custody History

-- The frames in the queues and hands.
def Pipeline.live (s : Pipeline) : List FPGAInput :=
  s.globals.picQueue ++ s.fpga.inputPc.hand ++ s.fpga.queInput ++ s.fpga.outputPc.hand

-- The frames are numbered as they are decoded. Those that are not in the queues and hands are
-- `gone` with object and pixels, and what the device gets is in the order of decoding.
structure Handed (s : Pipeline) (gone : List FPGAInput) : Prop where
  flow : Flow s.fpga
  fifo : Fifo s.fpga
  short : s.globals.picQueue.length ≤ 2
  allocated : s.globals.allocated = s.decoded.length
  named : ∀ k (frame : FPGAInput), s.decoded[k]? = some frame → frame.object = k ∧ frame.inData = k
  kept : (s.live ++ gone).Perm s.decoded
  objects : s.globals.freedObjects = gone.map FPGAInput.object
  data : s.globals.freedData.Perm ((gone ++ s.fpga.outputPc.emptied).map FPGAInput.inData)
  order : (s.fpga.submitted ++ s.fpga.inputPc.hand ++ s.globals.picQueue).Sublist s.decoded

section Steps

variable {s u : Pipeline} {gone : List FPGAInput}

theorem handed_init (type : CodecType) (detectW detectH : UInt32) (para : FpgaPara)
    (regStart : UInt32) : Handed (Pipeline.init type detectW detectH para regStart) [] where
  flow := flow_init para regStart
  fifo := fifo_init para regStart
  short := Nat.zero_le 2
  allocated := rfl
  named := nofun
  kept := List.Perm.refl _
  objects := rfl
  data := List.Perm.refl _
  order := List.nil_sublist _

theorem Handed.startPicture {height width : UInt32} (h : Handed s gone)
    (hu : s.startPicture height width = some u) : Handed u gone := by
  unfold Pipeline.startPicture at hu
  split at hu
  · cases hu
  split at hu
  · obtain rfl := Option.some.inj hu
    exact h
  unfold Globals.popTimestamp at hu
  cases hq : s.globals.queTimestamp with
  | nil =>
      rw [hq] at hu
      cases hu
  | cons time rest =>
      rw [hq] at hu
      obtain rfl := Option.some.inj hu
      exact ⟨h.flow, h.fifo, h.short, h.allocated, h.named, h.kept, h.objects, h.data, h.order⟩

theorem Handed.pushTimestamp {mark : Bool} {time : UInt32} (h : Handed s gone) :
    Handed { s with globals := s.globals.pushTimestamp mark time } gone := by
  unfold Globals.pushTimestamp
  split
  · split
    · exact ⟨h.flow, h.fifo, h.short, h.allocated, h.named, h.kept, h.objects, h.data, h.order⟩
    · exact ⟨h.flow, h.fifo, h.short, h.allocated, h.named, h.kept, h.objects, h.data, h.order⟩
  · exact h

-- Frames that leave the queue at its front are freed with their pixels.
theorem Handed.free (h : Handed s gone) (n : Nat) :
    Handed { s with globals :=
      { s.globals.free (s.globals.picQueue.take n) with picQueue := s.globals.picQueue.drop n } }
      (gone ++ s.globals.picQueue.take n) := by
  refine ⟨h.flow, h.fifo, ?_, h.allocated, h.named, ?_, ?_, ?_, ?_⟩
  · show (s.globals.picQueue.drop n).length ≤ 2
    have := h.short
    rw [List.length_drop]
    omega
  · refine List.Perm.trans (List.perm_iff_count.mpr fun frame => ?_) h.kept
    have hsplit := congrArg (List.count frame) (List.take_append_drop n s.globals.picQueue)
    simp only [List.count_append] at hsplit
    simp only [Pipeline.live, List.count_append]
    omega
  · simp only [Globals.free, h.objects, List.map_append]
  · refine (h.data.append_right _).trans (List.perm_iff_count.mpr fun id => ?_)
    simp only [List.map_append, List.count_append]
    omega
  · exact ((List.drop_sublist n _).append_left _).trans h.order

-- A new frame enters a queue that has room.
theorem Handed.add {time height width : UInt32} (h : Handed s gone)
    (hroom : s.globals.picQueue.length ≤ 1) :
    Handed { s with
      globals := { s.globals with
        allocated := s.globals.allocated + 1
        picQueue := s.globals.picQueue ++ [s.globals.newFrame time height width] }
      picture := none
      decoded := s.decoded ++ [s.globals.newFrame time height width] } gone := by
  refine ⟨h.flow, h.fifo, ?_, ?_, ?_, ?_, h.objects, h.data, ?_⟩
  · show (s.globals.picQueue ++ [_]).length ≤ 2
    rw [List.length_append, List.length_singleton]
    omega
  · show s.globals.allocated + 1 = (s.decoded ++ [_]).length
    rw [List.length_append, List.length_singleton, h.allocated]
  · intro k frame hk
    rcases getElem?_concat_eq_some.mp hk with hk | ⟨rfl, rfl⟩
    · exact h.named k frame hk
    · exact ⟨h.allocated, h.allocated⟩
  · refine List.Perm.trans (List.perm_iff_count.mpr fun frame => ?_) (h.kept.append_right _)
    simp only [Pipeline.live, List.count_append]
    omega
  · show (s.fpga.submitted ++ s.fpga.inputPc.hand ++ (s.globals.picQueue ++ [_])).Sublist _
    rw [← List.append_assoc]
    exact h.order.append (List.Sublist.refl _)

theorem Handed.enqueue (h : Handed s gone) (hu : s.enqueue = some u) : ∃ gone, Handed u gone := by
  unfold Pipeline.enqueue at hu
  split at hu
  · cases hu
  rename_i time height width hp
  obtain rfl := Option.some.inj hu
  unfold Globals.enqueue
  by_cases hfull : s.globals.picQueue.length > 1
  · have hroom : (s.globals.picQueue.drop 1).length ≤ 1 := by
      have := h.short
      rw [List.length_drop]
      omega
    simp only [if_pos hfull]
    exact ⟨_, (h.free 1).add hroom⟩
  · simp only [if_neg hfull]
    exact ⟨_, h.add (by omega)⟩

theorem Handed.clearStep (h : Handed s gone) : ∃ gone, Handed s.clearStep gone := by
  unfold Pipeline.clearStep
  split
  · exact ⟨gone, h.flow, h.fifo, h.short, h.allocated, h.named, h.kept, h.objects, h.data, h.order⟩
  · have hall := h.free s.globals.picQueue.length
    rw [List.take_length, List.drop_length] at hall
    exact ⟨_, hall.flow, hall.fifo, hall.short, hall.allocated, hall.named, hall.kept, hall.objects,
      hall.data, hall.order⟩
  · exact ⟨gone, h.flow, h.fifo, h.short, h.allocated, h.named, h.kept, h.objects, h.data, h.order⟩

theorem Handed.take (h : Handed s gone) (hu : s.take = some u) : Handed u gone := by
  unfold Pipeline.take at hu
  obtain ⟨⟨input, globals⟩, hg, hu⟩ := Option.bind_eq_some_iff.mp hu
  obtain ⟨fpga, hf, hu⟩ := Option.bind_eq_some_iff.mp hu
  obtain rfl := Option.some.inj hu
  have hflow := h.flow.input hf
  have hfifo := h.fifo.input hf
  cases hq : s.globals.picQueue with
  | nil =>
      rw [Globals.takePic, hq] at hg
      cases hg
  | cons head rest =>
      rw [Globals.takePic, hq] at hg
      cases hg
      simp only [Fpga.step] at hf
      split at hf
      swap
      · cases hf
      rename_i hpc
      obtain rfl := Option.some.inj hf
      refine ⟨hflow, hfifo, ?_, h.allocated, h.named, ?_, h.objects, h.data, ?_⟩
      · have hs := h.short
        rw [hq] at hs
        exact Nat.le_of_succ_le hs
      · refine List.Perm.trans (List.perm_iff_count.mpr fun frame => ?_) h.kept
        simp only [Pipeline.live, hq, hpc, InputPc.hand, List.count_append, List.count_cons,
          List.count_nil]
        omega
      · have ho := h.order
        rw [hpc, hq] at ho
        simpa [InputPc.hand] using ho

theorem Handed.inputStep {fpga : Fpga} (h : Handed s gone) (hu : s.fpga.inputStep = some fpga) :
    Handed { s with fpga := fpga } gone := by
  obtain ⟨hout, hsub, hque⟩ := inputStep_moves hu
  refine ⟨h.flow.inputStep hu, h.fifo.inputStep h.flow hu, h.short, h.allocated, h.named, ?_,
    h.objects, ?_, ?_⟩
  · refine List.Perm.trans (List.perm_iff_count.mpr fun frame => ?_) h.kept
    have hcount := congrArg (List.count frame) hque
    simp only [List.count_append] at hcount
    simp only [Pipeline.live, hout, List.count_append]
    omega
  · show s.globals.freedData.Perm ((gone ++ fpga.outputPc.emptied).map FPGAInput.inData)
    rw [hout]
    exact h.data
  · show (fpga.submitted ++ fpga.inputPc.hand ++ s.globals.picQueue).Sublist s.decoded
    rw [hsub]
    exact h.order

-- A frame whose pixels are freed stays in hand until its object is freed as well.
theorem Handed.outputStep (h : Handed s gone) (hu : s.outputStep = some u) :
    ∃ gone, Handed u gone := by
  unfold Pipeline.outputStep at hu
  obtain ⟨fpga, hf, hu⟩ := Option.bind_eq_some_iff.mp hu
  obtain rfl := Option.some.inj hu
  obtain ⟨hin, hsub, hmove⟩ := outputStep_moves h.flow h.fifo hf
  obtain ⟨hpic, halloc⟩ := picQueue_afterOutput s.globals s.fpga.outputPc
  suffices hkept : ∃ gone',
      (s.globals.picQueue ++ s.fpga.inputPc.hand ++ fpga.queInput ++ fpga.outputPc.hand ++ gone').Perm
        s.decoded ∧
      (s.globals.afterOutput s.fpga.outputPc).freedObjects = gone'.map FPGAInput.object ∧
      (s.globals.afterOutput s.fpga.outputPc).freedData.Perm
        ((gone' ++ fpga.outputPc.emptied).map FPGAInput.inData) by
    obtain ⟨gone', hperm, hobjects, hdata⟩ := hkept
    refine ⟨gone', h.flow.outputStep hf, h.fifo.outputStep h.flow hf, hpic ▸ h.short,
      halloc ▸ h.allocated, h.named, ?_, hobjects, hdata, ?_⟩
    · simpa only [Pipeline.live, hpic, hin] using hperm
    · show (fpga.submitted ++ fpga.inputPc.hand ++ (s.globals.afterOutput _).picQueue).Sublist _
      rw [hsub, hin, hpic]
      exact h.order
  have hold := h.kept
  have hdata := h.data
  simp only [Pipeline.live, OutputPc.hand] at hold
  cases hmove with
  | keep queue data emptied free =>
      refine ⟨gone, ?_, ?_, ?_⟩
      · rwa [OutputPc.hand, queue, data, emptied]
      · rw [free, h.objects]
      · rwa [free, emptied]
  | pop input queue before after =>
      rw [before] at hdata ⊢
      rw [before, queue] at hold
      rw [after]
      refine ⟨gone, List.Perm.trans (List.perm_iff_count.mpr fun frame => ?_) hold, h.objects, hdata⟩
      simp only [OutputPc.hand, OutputPc.dataHand, OutputPc.emptied, List.count_append,
        List.count_cons, List.count_nil]
      omega
  | deleteData outData input queue before after =>
      rw [before] at hdata hold ⊢
      rw [after, queue]
      refine ⟨gone, hold, h.objects, ?_⟩
      rw [List.map_append] at hdata ⊢
      rw [OutputPc.emptied, List.map_nil, List.append_nil] at hdata
      exact hdata.append_right _
      all_goals nofun
  | deleteObject input queue before after =>
      rw [before] at hdata hold ⊢
      rw [after, queue]
      refine ⟨gone ++ [input], ?_, ?_, ?_⟩
      · refine List.Perm.trans (List.perm_iff_count.mpr fun frame => ?_) hold
        simp only [OutputPc.hand, OutputPc.dataHand, OutputPc.emptied, List.count_append,
          List.count_nil]
        omega
      · simp only [Globals.afterOutput, Globals.deleteObject, h.objects, List.map_append,
          List.map_singleton]
      · simpa only [Globals.afterOutput, Globals.deleteObject, OutputPc.emptied, List.append_nil]
          using hdata

theorem Handed.step {e : PipelineEvent} (h : Handed s gone) (hu : s.step e = some u) :
    ∃ gone, Handed u gone := by
  cases e with
  | sendBox can =>
      obtain rfl := Option.some.inj hu
      exact ⟨gone, h.flow, h.fifo, h.short, h.allocated, h.named, h.kept, h.objects, h.data, h.order⟩
  | pushData data =>
      obtain rfl := Option.some.inj hu
      exact ⟨gone, h.flow, h.fifo, h.short, h.allocated, h.named, h.kept, h.objects, h.data, h.order⟩
  | pushTimestamp mark time =>
      obtain rfl := Option.some.inj hu
      exact ⟨gone, h.pushTimestamp⟩
  | picture height width => exact ⟨gone, h.startPicture hu⟩
  | enqueue => exact h.enqueue hu
  | clear =>
      obtain rfl := Option.some.inj hu
      exact h.clearStep
  | take => exact ⟨gone, h.take hu⟩
  | inputStep =>
      obtain ⟨fpga, hf, rfl⟩ := Option.map_eq_some_iff.mp hu
      exact ⟨gone, h.inputStep hf⟩
  | outputStep => exact h.outputStep hu
  | register counted =>
      obtain rfl := Option.some.inj hu
      exact ⟨gone, ⟨h.flow.permits, h.flow.written, h.flow.posted⟩,
        ⟨h.fifo.queue, h.fifo.frames, h.fifo.writing, h.fifo.defined⟩, h.short, h.allocated, h.named,
        h.kept, h.objects, h.data, h.order⟩
  | stop =>
      obtain rfl := Option.some.inj hu
      exact ⟨gone, ⟨h.flow.permits, h.flow.written, h.flow.posted⟩,
        ⟨h.fifo.queue, h.fifo.frames, h.fifo.writing, h.fifo.defined⟩, h.short, h.allocated, h.named,
        h.kept, h.objects, h.data, h.order⟩

end Steps

-- A frame is at one place, and nothing of it is freed twice. Once it is in none of the queues and
-- hands, its object and its pixels have been freed.
structure Pipeline.Owned (s : Pipeline) (frame : FPGAInput) : Prop where
  place : ∃! place, frame.object ∈ s.objects place
  object : s.globals.freedObjects.count frame.object ≤ 1
  data : s.globals.freedData.count frame.inData ≤ 1
  left : (∀ place, frame ∉ s.frames place) →
    s.globals.freedObjects.count frame.object = 1 ∧ s.globals.freedData.count frame.inData = 1

section Run

variable {s : Pipeline} {gone : List FPGAInput} {frame : FPGAInput}

theorem handed_run {type : CodecType} {detectW detectH : UInt32} {para : FpgaPara}
    {regStart : UInt32} {es : List PipelineEvent}
    (hr : run Pipeline.step (Pipeline.init type detectW detectH para regStart) es = some s) :
    ∃ gone, Handed s gone := by
  refine run_invariant (fun _ s => ∃ gone, Handed s gone)
    ⟨[], handed_init type detectW detectH para regStart⟩ ?_ hr
  rintro es t e u ⟨gone, h⟩ hu
  exact h.step hu

-- The number of a frame is its place in the order of decoding.
theorem Handed.map_named (h : Handed s gone) (name : FPGAInput → Nat)
    (hname : ∀ k (frame : FPGAInput), s.decoded[k]? = some frame → name frame = k) :
    s.decoded.map name = List.range s.globals.allocated := by
  refine List.ext_getElem? fun k => ?_
  rw [List.getElem?_map, h.allocated]
  cases hk : s.decoded[k]? with
  | none => rw [Option.map_none, List.getElem?_eq_none (by simpa using hk)]
  | some frame =>
      have hlt := (List.getElem?_eq_some_iff.mp hk).1
      rw [Option.map_some, List.getElem?_range hlt, hname k frame hk]

theorem Handed.map_object (h : Handed s gone) :
    s.decoded.map FPGAInput.object = List.range s.globals.allocated :=
  h.map_named _ fun k frame hk => (h.named k frame hk).1

theorem Handed.map_inData (h : Handed s gone) :
    s.decoded.map FPGAInput.inData = List.range s.globals.allocated :=
  h.map_named _ fun k frame hk => (h.named k frame hk).2

-- The objects and the pixels are one for each number.
theorem Handed.placed_objects (h : Handed s gone) :
    Placed Place.all s.objects s.globals.allocated := by
  rw [Placed, ← h.map_object]
  refine List.Perm.trans (List.Perm.of_eq ?_) (h.kept.map FPGAInput.object)
  simp [Place.all, Pipeline.objects, Pipeline.frames, Pipeline.live, h.objects]

theorem Handed.placed_data (h : Handed s gone) : Placed Place.all s.data s.globals.allocated := by
  rw [Placed, ← h.map_inData]
  refine List.Perm.trans (List.perm_iff_count.mpr fun id => ?_) (h.kept.map FPGAInput.inData)
  have hdata := h.data.count_eq id
  simp only [List.map_append, List.count_append] at hdata
  simp only [Place.all, List.flatMap_cons, List.flatMap_nil, Pipeline.data, Pipeline.frames,
    Pipeline.live, OutputPc.hand, List.map_append, List.count_append, List.count_nil, hdata]
  omega

-- A frame that is nowhere is gone.
theorem Handed.mem_gone (h : Handed s gone) (hm : frame ∈ s.decoded)
    (hout : ∀ place, frame ∉ s.frames place) : frame ∈ gone := by
  rcases List.mem_append.mp (h.kept.mem_iff.mpr hm) with hlive | hgone
  · simp only [Pipeline.live, List.mem_append] at hlive
    rcases hlive with ((hp | hp) | hp) | hp
    · exact absurd hp (hout .picQueue)
    · exact absurd hp (hout .inputThread)
    · exact absurd hp (hout .fpgaQueue)
    · exact absurd hp (hout .outputThread)
  · exact hgone

theorem Handed.owned (h : Handed s gone) (hm : frame ∈ s.decoded) : s.Owned frame := by
  have hlt : frame.object < s.globals.allocated := by
    rw [← List.mem_range, ← h.map_object]
    exact List.mem_map_of_mem hm
  have honce : s.globals.freedObjects.Nodup := h.placed_objects.nodup_of_mem (Place.mem_all .freed)
  have hdonce : s.globals.freedData.Nodup := h.placed_data.nodup_of_mem (Place.mem_all .freed)
  obtain ⟨place, -, hobject, hu⟩ := h.placed_objects.exists_place hlt
  refine ⟨⟨place, hobject, fun q hq => hu q q.mem_all hq⟩, List.nodup_iff_count.mp honce _,
    List.nodup_iff_count.mp hdonce _, fun hout => ⟨?_, ?_⟩⟩
  · refine List.count_eq_one_of_mem honce ?_
    rw [h.objects]
    exact List.mem_map_of_mem (h.mem_gone hm hout)
  · refine List.count_eq_one_of_mem hdonce (h.data.mem_iff.mpr ?_)
    exact List.mem_map_of_mem (List.mem_append_left _ (h.mem_gone hm hout))

-- The device has got a part of the frames, in the order of decoding.
theorem Handed.writes_sublist (h : Handed s gone) :
    (s.fpga.writes.map Prod.snd).Sublist s.decoded := by
  rw [h.fifo.frames]
  refine (List.take_sublist _ _).trans (List.Sublist.trans ?_ h.order)
  rw [List.append_assoc]
  exact List.sublist_append_left _ _

end Run

-- No frame is lost or freed twice, whatever the threads, the client and the device do.
theorem frames_owned (type : CodecType) (detectW detectH : UInt32) (para : FpgaPara)
    (regStart : UInt32) (es : List PipelineEvent) (s : Pipeline)
    (hr : run Pipeline.step (Pipeline.init type detectW detectH para regStart) es = some s) :
    s.globals.picQueue.length ≤ 2 ∧
      s.decoded.map FPGAInput.object = List.range s.globals.allocated ∧
      (∀ frame ∈ s.decoded, s.Owned frame) ∧
      (s.fpga.writes.map Prod.snd).Sublist s.decoded ∧ (s.fpga.writes.map Prod.snd).Nodup := by
  obtain ⟨gone, h⟩ := handed_run hr
  have hnodup : s.decoded.Nodup := by
    refine List.Nodup.of_map FPGAInput.object ?_
    rw [h.map_object]
    exact List.nodup_range
  exact ⟨h.short, h.map_object, fun frame hm => h.owned hm, h.writes_sublist,
    hnodup.sublist h.writes_sublist⟩

-- Four pictures. The first is dropped from a full queue, the second gets through the device, and
-- the client comes back while the third is on its way, so that the fourth is dropped.
def fourPictures : List PipelineEvent :=
  .sendBox true :: List.replicate 4 (.pushTimestamp true 90000) ++
    (List.replicate 3 [.picture 1080 1920, .enqueue]).flatten ++ [.take] ++
    List.replicate 5 .inputStep ++ [.take, .picture 1080 1920, .enqueue] ++
    List.replicate 3 .clear ++ [.register 1] ++ List.replicate 8 .outputStep

theorem frames_owned_four :
    ∃ s, run Pipeline.step (Pipeline.init .H265 416 416 ⟨0x6000000, 0x4100000, 0x1C3400, 0x10000000⟩ 0)
        fourPictures = some s ∧
      s.globals.freedObjects = [0, 3, 1] ∧ s.decoded.length = 4 ∧ ∀ frame ∈ s.decoded, s.Owned frame := by
  have hs : (run Pipeline.step
      (Pipeline.init .H265 416 416 ⟨0x6000000, 0x4100000, 0x1C3400, 0x10000000⟩ 0) fourPictures).map
      (fun s => (s.globals.freedObjects, s.decoded.length)) = some ([0, 3, 1], 4) := by
    decide +kernel
  obtain ⟨s, hr, hs⟩ := Option.map_eq_some_iff.mp hs
  obtain ⟨hfreed, hlen⟩ := Prod.mk.inj hs
  exact ⟨s, hr, hfreed, hlen, (frames_owned _ _ _ _ _ _ s hr).2.2.1⟩

end Vcu
