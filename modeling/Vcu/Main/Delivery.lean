import Vcu.Main.Frames

namespace Vcu

open Machine

-- The frame that output_thread has taken from the queue for a callback that has not begun.
def OutputPc.waiting : OutputPc → List FPGAInput
  | .release _ input => [input]
  | .call _ input => [input]
  | _ => []

-- The callbacks get the frames of the queue in its order.
def CalledInOrder (s : Fpga) : Prop :=
  s.calls.map Prod.fst ++ s.outputPc.waiting = s.submitted.take (s.calls.length + s.outputPc.popped)

section Fpga

variable {s u : Fpga}

theorem CalledInOrder.inputStep (h : CalledInOrder s) (hf : Flow s) (hu : s.inputStep = some u) :
    CalledInOrder u := by
  cases inputStep_rule hu with
  | acquire input before permit => exact h
  | push input before =>
      show _ = (s.submitted ++ [input]).take _
      rw [List.take_append_of_le_length hf.popped_le]
      exact h
  | write input before => exact h
  | release before => exact h
  | increment before => exact h

-- A position without a frame in hand.
theorem CalledInOrder.move (h : CalledInOrder s) (pc : OutputPc) (hw : pc.waiting = s.outputPc.waiting)
    (hp : pc.popped = s.outputPc.popped) : CalledInOrder { s with outputPc := pc } := by
  rw [CalledInOrder, hw, hp]
  exact h

theorem CalledInOrder.outputStep (h : CalledInOrder s) (hf : Flow s) (hq : Fifo s)
    (hu : s.outputStep = some u) : CalledInOrder u := by
  cases outputStep_rule hu with
  | loop pc before after =>
      rcases after with rfl | rfl
      · exact h.move _ (by rw [before]; rfl) (by rw [before]; rfl)
      · exact h.move _ (by rw [before]; rfl) (by rw [before]; rfl)
  | acquire before post => exact h.move (.poll 0) (by rw [before]; rfl) (by rw [before]; rfl)
  | wait n pc before after =>
      rcases after with rfl | rfl | rfl
      · exact h.move _ (by rw [before]; rfl) (by rw [before]; rfl)
      · exact h.move _ (by rw [before]; rfl) (by rw [before]; rfl)
      · exact h.move _ (by rw [before]; rfl) (by rw [before]; rfl)
  | ready n before counted => exact h.move _ (by rw [before]; rfl) (by rw [before]; rfl)
  | underflow before empty => exact h.move _ (by rw [before]; rfl) (by rw [before]; rfl)
  | pop input rest before queue =>
      obtain ⟨input', rest', hqueue, hnext, -⟩ := hq.pop_nonempty hf before
      obtain ⟨rfl, -⟩ := List.cons.inj (queue.symm.trans hqueue)
      rw [CalledInOrder, before] at h
      simp only [OutputPc.waiting, OutputPc.popped, List.append_nil, Nat.add_zero] at h
      show s.calls.map Prod.fst ++ [input] = s.submitted.take (s.calls.length + 1)
      rw [h, List.take_add_one, hnext]
      rfl
  | release outData input before =>
      exact h.move (.call outData input) (by rw [before]; rfl) (by rw [before]; rfl)
  | call outData input before =>
      rw [CalledInOrder, before] at h
      show (s.calls ++ [(input, outData)]).map Prod.fst ++ [] = _
      rw [List.append_nil, List.map_append, List.length_append]
      exact h
  | calling outData input before => exact h.move _ (by rw [before]; rfl) (by rw [before]; rfl)
  | delete input before => exact h.move _ (by rw [before]; rfl) (by rw [before]; rfl)
  | increment before => exact h.move .loop (by rw [before]; rfl) (by rw [before]; rfl)

theorem CalledInOrder.calls_of_submitted (h : CalledInOrder s) : s.calls.map Prod.fst <+: s.submitted :=
  (List.prefix_append _ _).trans (h ▸ List.take_prefix _ _)

end Fpga

-- The timestamps that the access units of a run are marked with.
def marks : List PipelineEvent → List UInt32 :=
  List.filterMap fun
    | .pushTimestamp true time => some time
    | _ => none

-- The timestamps of the decoded frames, of the picture in work and of the queue come in the order of
-- their access units. Some may be missing.
structure Ordered (es : List PipelineEvent) (s : Pipeline) : Prop where
  calls : CalledInOrder s.fpga
  stamps : (s.decoded.map FPGAInput.picId ++ (s.picture.map Prod.fst).toList ++
    s.globals.queTimestamp).Sublist (marks es)

section Steps

variable {s u : Pipeline} {es : List PipelineEvent} {e : PipelineEvent} {gone : List FPGAInput}

theorem marks_concat (es : List PipelineEvent) (e : PipelineEvent) :
    marks (es ++ [e]) = marks es ++ marks [e] := List.filterMap_append

theorem Ordered.mono (h : Ordered es s) (e : PipelineEvent) : Ordered (es ++ [e]) s := by
  refine ⟨h.calls, h.stamps.trans ?_⟩
  rw [marks_concat]
  exact List.sublist_append_left _ _

theorem ordered_init (type : CodecType) (detectW detectH : UInt32) (para : FpgaPara)
    (regStart : UInt32) : Ordered [] (Pipeline.init type detectW detectH para regStart) :=
  ⟨rfl, List.Sublist.refl _⟩

theorem queTimestamp_enqueue (g : Globals) (time height width : UInt32) :
    (g.enqueue time height width).queTimestamp = g.queTimestamp := by
  unfold Globals.enqueue
  dsimp only
  split
  · rfl
  · rfl

theorem queTimestamp_afterOutput (g : Globals) (pc : OutputPc) :
    (g.afterOutput pc).queTimestamp = g.queTimestamp := by
  cases pc <;> rfl

theorem Ordered.pushTimestamp {mark : Bool} {time : UInt32} (h : Ordered es s) :
    Ordered (es ++ [.pushTimestamp mark time])
      { s with globals := s.globals.pushTimestamp mark time } := by
  cases mark with
  | false => exact ⟨h.calls, (h.mono _).stamps⟩
  | true =>
      refine ⟨h.calls, ?_⟩
      simp only [Globals.pushTimestamp, if_true]
      split
      · rw [marks_concat]
        have hs := h.stamps.append (List.Sublist.refl [time])
        rw [List.append_assoc] at hs
        exact hs
      · exact (h.mono _).stamps

theorem Ordered.startPicture {height width : UInt32} (h : Ordered es s)
    (hu : s.startPicture height width = some u) : Ordered es u := by
  unfold Pipeline.startPicture at hu
  split at hu
  · cases hu
  rename_i hnone
  split at hu
  · obtain rfl := Option.some.inj hu
    exact h
  unfold Globals.popTimestamp at hu
  cases hq : s.globals.queTimestamp with
  | nil =>
      rw [hq] at hu
      cases hu
  | cons time rest =>
      rw [hq] at hu
      obtain rfl := Option.some.inj hu
      have hs := h.stamps
      rw [hq, Option.not_isSome_iff_eq_none.mp hnone] at hs
      refine ⟨h.calls, ?_⟩
      simpa using hs

theorem Ordered.enqueue (h : Ordered es s) (hu : s.enqueue = some u) : Ordered es u := by
  unfold Pipeline.enqueue at hu
  split at hu
  · cases hu
  rename_i time height width hp
  obtain rfl := Option.some.inj hu
  have hs := h.stamps
  rw [hp] at hs
  refine ⟨h.calls, ?_⟩
  simp only [queTimestamp_enqueue]
  simpa [Globals.newFrame] using hs

theorem Ordered.clearStep (h : Ordered es s) : Ordered es s.clearStep := by
  unfold Pipeline.clearStep
  split
  · exact ⟨h.calls, h.stamps⟩
  · exact ⟨h.calls, h.stamps⟩
  · refine ⟨h.calls, List.Sublist.trans ?_ h.stamps⟩
    exact (List.Sublist.refl _).append (List.nil_sublist _)

theorem Ordered.take (h : Ordered es s) (hu : s.take = some u) : Ordered es u := by
  unfold Pipeline.take at hu
  obtain ⟨⟨input, globals⟩, hg, hu⟩ := Option.bind_eq_some_iff.mp hu
  obtain ⟨fpga, hf, hu⟩ := Option.bind_eq_some_iff.mp hu
  obtain rfl := Option.some.inj hu
  unfold Globals.takePic at hg
  split at hg
  · cases hg
  obtain ⟨rfl, rfl⟩ := Prod.mk.inj (Option.some.inj hg)
  simp only [Fpga.step] at hf
  split at hf
  · obtain rfl := Option.some.inj hf
    exact ⟨h.calls, h.stamps⟩
  · cases hf

theorem Ordered.step (h : Ordered es s) (hh : Handed s gone) (hu : s.step e = some u) :
    Ordered (es ++ [e]) u := by
  cases e with
  | sendBox can =>
      obtain rfl := Option.some.inj hu
      exact ⟨h.calls, (h.mono _).stamps⟩
  | pushData data =>
      obtain rfl := Option.some.inj hu
      exact ⟨h.calls, (h.mono _).stamps⟩
  | pushTimestamp mark time =>
      obtain rfl := Option.some.inj hu
      exact h.pushTimestamp
  | picture height width => exact (h.startPicture hu).mono _
  | enqueue => exact (h.enqueue hu).mono _
  | clear =>
      obtain rfl := Option.some.inj hu
      exact h.clearStep.mono _
  | take => exact (h.take hu).mono _
  | inputStep =>
      obtain ⟨fpga, hf, rfl⟩ := Option.map_eq_some_iff.mp hu
      exact ⟨h.calls.inputStep hh.flow hf, (h.mono _).stamps⟩
  | outputStep =>
      obtain ⟨fpga, hf, hu⟩ := Option.bind_eq_some_iff.mp hu
      obtain rfl := Option.some.inj hu
      refine ⟨h.calls.outputStep hh.flow hh.fifo hf, ?_⟩
      rw [queTimestamp_afterOutput]
      exact (h.mono _).stamps
  | register counted =>
      obtain rfl := Option.some.inj hu
      exact ⟨h.calls, (h.mono _).stamps⟩
  | stop =>
      obtain rfl := Option.some.inj hu
      exact ⟨h.calls, (h.mono _).stamps⟩

end Steps

theorem ordered_run {type : CodecType} {detectW detectH : UInt32} {para : FpgaPara}
    {regStart : UInt32} {es : List PipelineEvent} {s : Pipeline}
    (hr : run Pipeline.step (Pipeline.init type detectW detectH para regStart) es = some s) :
    Ordered es s ∧ ∃ gone, Handed s gone := by
  refine run_invariant (fun es s => Ordered es s ∧ ∃ gone, Handed s gone)
    ⟨ordered_init type detectW detectH para regStart, [],
      handed_init type detectW detectH para regStart⟩ ?_ hr
  rintro es t e u ⟨ho, gone, hh⟩ hu
  exact ⟨ho.step hh hu, hh.step hu⟩

-- From the access units to the results nothing is reordered and nothing is repeated.
theorem results_in_order (type : CodecType) (detectW detectH : UInt32) (para : FpgaPara)
    (regStart : UInt32) (es : List PipelineEvent) (s : Pipeline)
    (hr : run Pipeline.step (Pipeline.init type detectW detectH para regStart) es = some s) :
    (s.fpga.calls.map fun c => c.1.picId).Sublist (marks es) ∧
      (s.fpga.calls.map fun c => c.1.object).Nodup := by
  obtain ⟨ho, gone, hh⟩ := ordered_run hr
  have hcalls : (s.fpga.calls.map Prod.fst).Sublist s.decoded := by
    refine ho.calls.calls_of_submitted.sublist.trans (List.Sublist.trans ?_ hh.order)
    rw [List.append_assoc]
    exact List.sublist_append_left _ _
  constructor
  · have hids := hcalls.map FPGAInput.picId
    rw [List.map_map] at hids
    refine hids.trans (List.Sublist.trans ?_ ho.stamps)
    rw [List.append_assoc]
    exact List.sublist_append_left _ _
  · have hobjects := hcalls.map FPGAInput.object
    rw [List.map_map, hh.map_object] at hobjects
    exact hobjects.nodup List.nodup_range

-- One access unit of H.265, from its timestamp to the result.
def oneResult : List PipelineEvent :=
  [.sendBox true, .pushTimestamp true 90000, .picture 1080 1920, .enqueue, .take] ++
    List.replicate 5 .inputStep ++ [.register 1] ++ List.replicate 6 .outputStep

theorem results_in_order_one :
    ∃ s, run Pipeline.step (Pipeline.init .H265 608 608 ⟨0x6000000, 0x4100000, 0x1C3400, 0x10000000⟩ 0)
        oneResult = some s ∧ s.fpga.calls.length = 1 ∧
      (s.fpga.calls.map fun c => c.1.picId).Sublist (marks oneResult) := by
  have hs : ((run Pipeline.step (Pipeline.init .H265 608 608
      ⟨0x6000000, 0x4100000, 0x1C3400, 0x10000000⟩ 0) oneResult).map
        fun s => s.fpga.calls.length) = some 1 := by
    decide +kernel
  obtain ⟨s, hr, hlength⟩ := Option.map_eq_some_iff.mp hs
  exact ⟨s, hr, hlength, (results_in_order _ _ _ _ _ _ s hr).1⟩

-- What is left of the decoded frames on their way to the device.
def Pipeline.kept (s : Pipeline) : List FPGAInput :=
  s.fpga.submitted ++ s.fpga.inputPc.hand ++ s.globals.picQueue

-- The steps that would drop a frame: a picture for a full queue, and clear() with frames waiting.
def DropsNone : List PipelineEvent → Pipeline → PipelineEvent → Prop := fun _ s e =>
  (e = .enqueue → s.globals.picQueue.length ≤ 1) ∧
    (e = .clear → s.clearPc = .pics → s.globals.picQueue = [])

section Drops

variable {s u : Pipeline} {es : List PipelineEvent} {e : PipelineEvent} {gone : List FPGAInput}

-- How a step changes the number of decoded frames that are not kept.
structure Drops (s u : Pipeline) (none : Prop) : Prop where
  kept : none → u.kept.length + s.decoded.length = s.kept.length + u.decoded.length
  dropped : ¬ none → u.kept.length + s.decoded.length < s.kept.length + u.decoded.length

theorem Drops.of_same {none : Prop} (hnone : none) (hkept : u.kept.length = s.kept.length)
    (hdecoded : u.decoded = s.decoded) : Drops s u none := by
  refine ⟨fun _ => by rw [hkept, hdecoded], fun h => absurd hnone h⟩

theorem drops_enqueue (hshort : s.globals.picQueue.length ≤ 2) (hu : s.enqueue = some u) :
    Drops s u (DropsNone es s .enqueue) := by
  unfold Pipeline.enqueue at hu
  split at hu
  · cases hu
  rename_i time height width hp
  obtain rfl := Option.some.inj hu
  by_cases hroom : s.globals.picQueue.length ≤ 1
  · have hlow : ¬ s.globals.picQueue.length > 1 := by omega
    refine ⟨fun _ => ?_, fun h => absurd ⟨fun _ => hroom, nofun⟩ h⟩
    simp only [Pipeline.kept, Globals.enqueue, hlow, if_false, List.length_append,
      List.length_singleton]
    omega
  · have hhigh : s.globals.picQueue.length > 1 := by omega
    refine ⟨fun h => absurd (h.1 rfl) hroom, fun _ => ?_⟩
    simp only [Pipeline.kept, Globals.enqueue, hhigh, if_true, List.length_append,
      List.length_singleton, List.length_drop]
    omega

theorem drops_clear : Drops s s.clearStep (DropsNone es s .clear) := by
  unfold Pipeline.clearStep
  split
  · rename_i hpc
    exact Drops.of_same ⟨nofun, fun _ h => by rw [hpc] at h; cases h⟩ rfl rfl
  · rename_i hpc
    by_cases hempty : s.globals.picQueue = []
    · refine Drops.of_same ⟨nofun, fun _ _ => hempty⟩ ?_ rfl
      simp only [Pipeline.kept, Globals.clearPics, hempty]
    · refine ⟨fun h => absurd (h.2 rfl hpc) hempty, fun _ => ?_⟩
      have := List.length_pos_iff.mpr hempty
      simp only [Pipeline.kept, Globals.clearPics, List.length_append, List.length_nil]
      omega
  · rename_i hpc
    exact Drops.of_same ⟨nofun, fun _ h => by rw [hpc] at h; cases h⟩ rfl rfl

theorem drops_take (hu : s.take = some u) : u.kept.length = s.kept.length ∧ u.decoded = s.decoded := by
  unfold Pipeline.take at hu
  obtain ⟨⟨input, globals⟩, hg, hu⟩ := Option.bind_eq_some_iff.mp hu
  obtain ⟨fpga, hf, hu⟩ := Option.bind_eq_some_iff.mp hu
  obtain rfl := Option.some.inj hu
  unfold Globals.takePic at hg
  split at hg
  · cases hg
  rename_i head rest hq
  obtain ⟨rfl, rfl⟩ := Prod.mk.inj (Option.some.inj hg)
  simp only [Fpga.step] at hf
  split at hf
  · rename_i hpc
    obtain rfl := Option.some.inj hf
    refine ⟨?_, rfl⟩
    simp only [Pipeline.kept, hq, hpc, InputPc.hand, List.length_append, List.length_cons,
      List.length_nil]
    omega
  · cases hf

theorem startPicture_keeps {height width : UInt32} (hu : s.startPicture height width = some u) :
    u.kept = s.kept ∧ u.decoded = s.decoded := by
  unfold Pipeline.startPicture at hu
  split at hu
  · cases hu
  split at hu
  · obtain rfl := Option.some.inj hu
    exact ⟨rfl, rfl⟩
  unfold Globals.popTimestamp at hu
  cases hq : s.globals.queTimestamp with
  | nil =>
      rw [hq] at hu
      cases hu
  | cons time rest =>
      rw [hq] at hu
      obtain rfl := Option.some.inj hu
      exact ⟨rfl, rfl⟩

theorem picQueue_pushTimestamp (g : Globals) (mark : Bool) (time : UInt32) :
    (g.pushTimestamp mark time).picQueue = g.picQueue := by
  unfold Globals.pushTimestamp
  split
  · split
    · rfl
    · rfl
  · rfl

theorem drops_step (h : Handed s gone) (hu : s.step e = some u) : Drops s u (DropsNone es s e) := by
  cases e with
  | sendBox can =>
      obtain rfl := Option.some.inj hu
      exact Drops.of_same ⟨nofun, nofun⟩ rfl rfl
  | pushData data =>
      obtain rfl := Option.some.inj hu
      exact Drops.of_same ⟨nofun, nofun⟩ rfl rfl
  | pushTimestamp mark time =>
      obtain rfl := Option.some.inj hu
      refine Drops.of_same ⟨nofun, nofun⟩ ?_ rfl
      simp only [Pipeline.kept, picQueue_pushTimestamp]
  | picture height width =>
      obtain ⟨hkept, hdecoded⟩ := startPicture_keeps hu
      exact Drops.of_same ⟨nofun, nofun⟩ (by rw [hkept]) hdecoded
  | enqueue => exact drops_enqueue h.short hu
  | clear =>
      obtain rfl := Option.some.inj hu
      exact drops_clear
  | take =>
      obtain ⟨hkept, hdecoded⟩ := drops_take hu
      exact Drops.of_same ⟨nofun, nofun⟩ hkept hdecoded
  | inputStep =>
      obtain ⟨fpga, hf, rfl⟩ := Option.map_eq_some_iff.mp hu
      obtain ⟨-, hsubmitted, -⟩ := inputStep_moves hf
      refine Drops.of_same ⟨nofun, nofun⟩ ?_ rfl
      simp only [Pipeline.kept, hsubmitted]
  | outputStep =>
      obtain ⟨fpga, hf, hu⟩ := Option.bind_eq_some_iff.mp hu
      obtain rfl := Option.some.inj hu
      obtain ⟨hin, hsubmitted, -⟩ := outputStep_moves h.flow h.fifo hf
      refine Drops.of_same ⟨nofun, nofun⟩ ?_ rfl
      simp only [Pipeline.kept, hin, hsubmitted, (picQueue_afterOutput _ _).1]
  | register counted =>
      obtain rfl := Option.some.inj hu
      exact Drops.of_same ⟨nofun, nofun⟩ rfl rfl
  | stop =>
      obtain rfl := Option.some.inj hu
      exact Drops.of_same ⟨nofun, nofun⟩ rfl rfl

end Drops

-- Every decoded frame reaches the device, or is on its way there, exactly in the runs in which no
-- picture finds a full queue and clear() finds an empty one.
theorem no_frame_dropped_iff (type : CodecType) (detectW detectH : UInt32) (para : FpgaPara)
    (regStart : UInt32) (es : List PipelineEvent) (s : Pipeline)
    (hr : run Pipeline.step (Pipeline.init type detectW detectH para regStart) es = some s) :
    s.fpga.submitted ++ s.fpga.inputPc.hand ++ s.globals.picQueue = s.decoded ↔
      Along Pipeline.step DropsNone (Pipeline.init type detectW detectH para regStart) es := by
  suffices h : s.kept.length = s.decoded.length ↔
      Along Pipeline.step DropsNone (Pipeline.init type detectW detectH para regStart) es by
    obtain ⟨-, gone, hh⟩ := ordered_run hr
    rw [← h]
    exact ⟨fun heq => congrArg List.length heq, hh.order.eq_of_length⟩
  induction es using List.reverseRecOn generalizing s with
  | nil =>
      obtain rfl := Option.some.inj hr
      exact iff_of_true rfl along_nil
  | append_singleton es e ih =>
      obtain ⟨t, ht, hu⟩ := run_concat_eq_some hr
      obtain ⟨-, gone, hh⟩ := ordered_run ht
      have hle : t.kept.length ≤ t.decoded.length := hh.order.length_le
      have hdrops : Drops t s (DropsNone es t e) := drops_step hh hu
      rw [along_concat, ← ih t ht]
      constructor
      · intro heq
        have hnone : DropsNone es t e := by
          by_contra hn
          have := hdrops.dropped hn
          omega
        have hkept := hdrops.kept hnone
        refine ⟨by omega, fun t' ht' => ?_⟩
        obtain rfl := Option.some.inj (ht.symm.trans ht')
        exact hnone
      · rintro ⟨heq, hnone⟩
        have hkept := hdrops.kept (hnone t ht)
        omega

def dropsNone : Pipeline → PipelineEvent → Bool
  | s, .enqueue => s.globals.picQueue.length ≤ 1
  | s, .clear => s.clearPc ≠ .pics || s.globals.picQueue.isEmpty
  | _, _ => true

theorem dropsNone_of_check (before : List PipelineEvent) (s : Pipeline) (e : PipelineEvent)
    (h : dropsNone s e = true) : DropsNone before s e := by
  refine ⟨?_, ?_⟩
  · rintro rfl
    simpa [dropsNone] using h
  · rintro rfl hpc
    simpa [dropsNone, hpc] using h

theorem no_frame_dropped_iff_one :
    ∃ s, run Pipeline.step (Pipeline.init .H265 608 608 ⟨0x6000000, 0x4100000, 0x1C3400, 0x10000000⟩ 0)
        oneResult = some s ∧
      s.fpga.submitted ++ s.fpga.inputPc.hand ++ s.globals.picQueue = s.decoded := by
  have hs : (run Pipeline.step (Pipeline.init .H265 608 608
      ⟨0x6000000, 0x4100000, 0x1C3400, 0x10000000⟩ 0) oneResult).isSome = true := by
    decide +kernel
  obtain ⟨s, hr⟩ := Option.isSome_iff_exists.mp hs
  exact ⟨s, hr, (no_frame_dropped_iff _ _ _ _ _ _ s hr).mpr
    (along_of_check dropsNone dropsNone_of_check (by decide +kernel))⟩

end Vcu
