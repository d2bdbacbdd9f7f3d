import Vcu.YoloDetect.Passes
import Vcu.YoloDetect.Selection

namespace Vcu

section Frame

variable {F : Type} [Zero F] [Add F] [Sub F] [Mul F] [Div F] [OfNat F 2] [LT F] [DecidableLT F] [BEq F]
  {β : Type}

-- A view of the detections that suppression does not change, as long as `good` holds of all views.
structure Unchanged (pow : F → F → F) (thresh : F) (nmsKind : NmsKind) (beta1 : F) (f : Detection F → β)
    (good : β → Prop) : Prop where
  sortClass : ∀ (d : Detection F) (k : Int), f { d with sortClass := k } = f d
  strike : ∀ (k : Nat) (a b : Detection F), good (f a) → good (f b) →
    f (diouStrike pow thresh nmsKind beta1 k a b) = f b

variable {qsort : Qsort (Detection F)} {pow : F → F → F} {thresh beta1 : F} {nmsKind : NmsKind}
  {f : Detection F → β} {good : β → Prop}

theorem Unchanged.diouClass_perm (h : Unchanged pow thresh nmsKind beta1 f good) {dets : List (Detection F)}
    (hgood : ∀ d ∈ dets, good (f d)) (total k : Nat) :
    ((diouClass qsort pow thresh nmsKind beta1 total dets k).map f).Perm (dets.map f) := by
  rw [diouClass]
  generalize hset : (List.range total).foldl
    (fun dets i => dets.modify i fun d => { d with sortClass := (k : Int) }) dets = marked
  have hmarked : marked.map f = dets.map f := by
    rw [← hset]
    refine Counting.map_foldl_of ?_ _
    intro m i hm
    rw [Counting.map_modify_of fun d _ => h.sortClass d k]
    exact hm
  have hsorted : ((qsort.sort nmsComparatorV3 (marked.take total) ++ marked.drop total).map f).Perm
      (dets.map f) := by
    rw [← hmarked]
    refine List.Perm.map f (((qsort.perm _ _).append_right _).trans (.of_eq ?_))
    exact List.take_append_drop total marked
  rw [Greedy.map_sweepLoop (h.strike k) (Counting.forall_of_map_perm hsorted hgood)]
  exact hsorted

theorem Unchanged.diounmsSort_perm (h : Unchanged pow thresh nmsKind beta1 f good) {classNum total : Int}
    {dets out : List (Detection F)} (hgood : ∀ d ∈ dets, good (f d))
    (hrun : diounmsSort qsort pow classNum dets total thresh nmsKind beta1 = some out) :
    (out.map f).Perm (dets.map f) := by
  obtain ⟨⟨first, k⟩, hpart, rfl⟩ := Option.map_eq_some_iff.mp hrun
  have hfirst := ((partition_some (Nat.zero_le _) hpart).1.map f)
  simp only
  generalize List.range classNum.toNat = classes
  induction classes using List.reverseRecOn with
  | nil => exact hfirst
  | append_singleton classes k' ih =>
      rw [List.foldl_append, List.foldl_cons, List.foldl_nil]
      exact (h.diouClass_perm (Counting.forall_of_map_perm ih hgood) _ k').trans ih

-- The default suppression is the greedy one.
def NetDetect.kind (net : NetDetect F) : NmsKind :=
  if net.nmsType = .default then .greedy else net.nmsType

theorem suppress_eq (qsort : Qsort (Detection F)) (pow : F → F → F) (net : NetDetect F) (num : Int)
    (dets : List (Detection F)) :
    suppress qsort pow net num dets =
      diounmsSort qsort pow net.classNum dets num net.iou net.kind net.betaNms := by
  rw [suppress, NetDetect.kind]
  split
  · rw [doNmsSort, diounmsSort, map_partition_greedy]
  · rfl

theorem unchanged_frame (pow : F → F → F) (thresh : F) (nmsKind : NmsKind) (beta1 : F) :
    Unchanged pow thresh nmsKind beta1 (frame (F := F)) fun _ => True := by
  refine ⟨fun _ _ => rfl, ?_⟩
  intro k a b _ _
  rw [diouStrike]
  split
  · rfl
  · split <;> rfl

theorem suppress_frame {net : NetDetect F} {num : Int} {dets out : List (Detection F)}
    (h : suppress qsort pow net num dets = some out) : (out.map frame).Perm (dets.map frame) := by
  rw [suppress_eq] at h
  exact (unchanged_frame pow net.iou net.kind net.betaNms).diounmsSort_perm (fun _ _ => trivial) h

theorem suppress_length {net : NetDetect F} {num : Int} {dets out : List (Detection F)}
    (h : suppress qsort pow net num dets = some out) : out.length = dets.length := by
  have hlen := (suppress_frame h).length_eq
  rwa [List.length_map, List.length_map] at hlen

end Frame

section Lengths

variable {F : Type} [Zero F] [One F] [Add F] [Sub F] [Mul F] [Div F] [OfNat F 2] [IntCast F] [LT F]
  [DecidableLT F] {qsort : Qsort (Detection F)} {pow : F → F → F} {toInt : F → Int}
  {net : NetDetect F} {inputData : Int → F} {heap : Nat → Detection F} {srcW srcH : Int}
  {thresh : F} {dets out : List (Detection F)} {infos : List (NetDetect.BoxInfo2 F)}

omit [Zero F] [One F] [Add F] [Sub F] [Mul F] [Div F] [OfNat F 2] [IntCast F] in
theorem makeNetworkBoxes_some (h : makeNetworkBoxes net inputData thresh heap = some dets) :
    (dets.length : Int) = boxNum net inputData thresh ∧ 0 ≤ net.maxBoxNum := by
  rw [makeNetworkBoxes] at h
  split at h
  · cases h
  · rename_i hnum
    obtain rfl := Option.some.inj h
    have hnonneg : 0 ≤ boxNum net inputData thresh := by
      by_contra hneg
      exact hnum (.inl (Int.not_le.mp hneg))
    refine ⟨by rw [List.length_map, List.length_range, Int.toNat_of_nonneg hnonneg], ?_⟩
    by_contra hmax
    rw [boxNum] at hnonneg
    split at hnonneg <;> omega

omit [Zero F] [One F] [Add F] [Sub F] [Mul F] [Div F] [OfNat F 2] [IntCast F] in
theorem makeNetworkBoxes_length (h : makeNetworkBoxes net inputData thresh heap = some dets) :
    dets.length = (chosen net inputData thresh).length := by
  obtain ⟨hlen, hmax⟩ := makeNetworkBoxes_some h
  rw [boxNum_eq net inputData thresh hmax] at hlen
  exact Int.ofNat_inj.mp hlen

-- The detections that are filled, in the order of their cells.
theorem fillNetworkBoxes_eq (hmake : makeNetworkBoxes net inputData thresh heap = some dets) :
    fillNetworkBoxes net inputData srcW srcH thresh dets =
      (scaledSize F net.fpgaNetw net.fpgaNeth srcW srcH).map fun new =>
        (List.zipWith (fun c d => writeBox net inputData thresh c.layer c.pData c.loc c.n d)
          (chosen net inputData thresh) dets).map fun d =>
            { d with bbox := unpadBox net.fpgaNetw net.fpgaNeth new.1 new.2 d.bbox } := by
  have hlen := makeNetworkBoxes_length hmake
  have hcount := (foldl_writeCell_count net inputData thresh (chosen net inputData thresh)
    { dets := dets }).1
  rw [← fillLayers_eq_chosen net inputData thresh { dets := dets } rfl, Nat.zero_add] at hcount
  have hdets := fillLayers_dets net inputData thresh hlen
  rw [fillNetworkBoxes]
  simp only [hcount, hdets]
  rw [List.take_of_length_le, List.drop_of_length_le]
  · simp only [correctYoloBoxes, List.append_nil, Option.map_map, Function.comp_def]
  · rw [List.length_zipWith]
    exact Nat.min_le_left ..
  · rw [List.length_zipWith]
    exact Nat.min_le_left ..

theorem fillNetworkBoxes_length (hmake : makeNetworkBoxes net inputData thresh heap = some dets)
    (hfill : fillNetworkBoxes net inputData srcW srcH thresh dets = some out) :
    out.length = (chosen net inputData thresh).length := by
  have hlen := makeNetworkBoxes_length hmake
  rw [fillNetworkBoxes_eq hmake] at hfill
  obtain ⟨new, -, rfl⟩ := Option.map_eq_some_iff.mp hfill
  rw [List.length_map, List.length_zipWith, hlen, Nat.min_self]

-- Every detection that is filled comes from a cell.
theorem mem_fillNetworkBoxes (hmake : makeNetworkBoxes net inputData thresh heap = some dets)
    (hfill : fillNetworkBoxes net inputData srcW srcH thresh dets = some out) {d : Detection F}
    (hd : d ∈ out) :
    ∃ new, scaledSize F net.fpgaNetw net.fpgaNeth srcW srcH = some new ∧
      ∃ c ∈ chosen net inputData thresh, ∃ e f : Detection F,
        f = writeBox net inputData thresh c.layer c.pData c.loc c.n e ∧
          d = { f with bbox := unpadBox net.fpgaNetw net.fpgaNeth new.1 new.2 f.bbox } := by
  rw [fillNetworkBoxes_eq hmake] at hfill
  obtain ⟨new, hnew, rfl⟩ := Option.map_eq_some_iff.mp hfill
  obtain ⟨f, hf, rfl⟩ := List.mem_map.mp hd
  rw [← List.map_uncurry_zip_eq_zipWith] at hf
  obtain ⟨⟨c, e⟩, hce, rfl⟩ := List.mem_map.mp hf
  exact ⟨new, hnew, c, (List.of_mem_zip hce).1, e, _, rfl, rfl⟩

-- The boxes depend on the cells alone.
theorem fillNetworkBoxes_bbox (hmake : makeNetworkBoxes net inputData thresh heap = some dets)
    (hfill : fillNetworkBoxes net inputData srcW srcH thresh dets = some out) :
    ∃ new, scaledSize F net.fpgaNetw net.fpgaNeth srcW srcH = some new ∧
      out.map Detection.bbox = (chosen net inputData thresh).map fun c =>
        unpadBox net.fpgaNetw net.fpgaNeth new.1 new.2
          (getYoloBox2 net (fun index => inputData (c.pData + index)) (c.layer.mask c.n)
            (getIndex2 c.n c.loc c.layer.netC 85 0) (Int.tmod c.loc c.layer.netH)
            (Int.tdiv c.loc c.layer.netW) c.layer.netW c.layer.netH) := by
  have hlen := makeNetworkBoxes_length hmake
  rw [fillNetworkBoxes_eq hmake] at hfill
  obtain ⟨new, hnew, rfl⟩ := Option.map_eq_some_iff.mp hfill
  refine ⟨new, hnew, ?_⟩
  have hcells : ((chosen net inputData thresh).zip dets).map Prod.fst = chosen net inputData thresh :=
    List.map_fst_zip hlen.ge
  conv_rhs => rw [← hcells]
  rw [← List.map_uncurry_zip_eq_zipWith, List.map_map, List.map_map, List.map_map]
  rfl

-- The stages of a run.
theorem getDetectBoxInfo_some [BEq F]
    (h : getDetectBoxInfo qsort pow toInt net inputData heap srcW srcH = some infos) :
    ∃ made filled out, makeNetworkBoxes net inputData net.thresh heap = some made ∧
      fillNetworkBoxes net inputData srcW srcH net.thresh made = some filled ∧
      suppress qsort pow net made.length filled = some out ∧
      infos = (getActualDetections out net.thresh).map (boxInfo toInt srcW srcH) := by
  simp only [getDetectBoxInfo, Option.bind_eq_bind, Option.bind_eq_some_iff, Option.some.injEq] at h
  obtain ⟨made, hmade, filled, hfilled, out, hout, hinfos⟩ := h
  exact ⟨made, filled, out, hmade, hfilled, hout, hinfos.symm⟩

end Lengths

-- A detection in memory that is zero.
def zeroDet (F : Type) [Zero F] : Detection F :=
  { bbox := ⟨0, 0, 0, 0⟩, prob := fun _ => 0, objectness := 0, sortClass := 0 }

end Vcu
