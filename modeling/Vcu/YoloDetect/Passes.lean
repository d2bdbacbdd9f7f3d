import Mathlib.Algebra.Order.Ring.Int
import Vcu.YoloDetect.Boxes

namespace Vcu

open Counting

-- An anchor at a location of a layer whose output starts at `pData`.
structure Cell where
  layer : YoloLayer
  pData : Int
  loc : Nat
  n : Nat

-- The cells in the order of fillNetworkBoxes.
def layerCells (layer : YoloLayer) (pData : Int) : List Cell :=
  grid (layer.netH * layer.netW) layer.gridBoxNum (Cell.mk layer pData)

def scan : List YoloLayer → Int → List Cell
  | [], _ => []
  | layer :: vecLayer, pData => layerCells layer pData ++ scan vecLayer (pData + layer.outputSize >>> (2 : Nat))

theorem mem_scan {c : Cell} {vecLayer : List YoloLayer} {pData : Int} (h : c ∈ scan vecLayer pData) :
    c.layer ∈ vecLayer ∧ c.loc < c.layer.netH * c.layer.netW ∧ c.n < c.layer.gridBoxNum := by
  induction vecLayer generalizing pData with
  | nil => cases h
  | cons layer vecLayer ih =>
      rw [scan, List.mem_append] at h
      rcases h with h | h
      · obtain ⟨j, n, hj, hn, rfl⟩ := mem_grid.mp h
        exact ⟨List.mem_cons_self, hj, hn⟩
      · obtain ⟨hlayer, hloc, hn⟩ := ih h
        exact ⟨List.mem_cons_of_mem _ hlayer, hloc, hn⟩

section Passes

variable {F : Type} [One F] [Add F] [Sub F] [Mul F] [Div F] [IntCast F] [Zero F] [LT F] [DecidableLT F]
  (net : NetDetect F) (inputData : Int → F) (thresh : F)

def exceeds (c : Cell) : Bool := inputData (c.pData + getIndex2 c.n c.loc c.layer.netC 85 4) > thresh

-- The cells whose detections are kept.
def chosen : List Cell := taken (exceeds inputData thresh) net.maxBoxNum.toNat (scan net.vecLayer 0)

section Count

omit [One F] [Add F] [Sub F] [Mul F] [Div F] [IntCast F] [Zero F]

theorem countLayer_eq (layer : YoloLayer) (pData : Int) (boxNum : Nat) :
    countLayer inputData thresh layer pData boxNum =
      boxNum + (layerCells layer pData).countP (exceeds inputData thresh) := by
  have hfold : ∀ (cells : List Cell) (boxNum : Nat),
      cells.foldl (fun boxNum c => if exceeds inputData thresh c = true then boxNum + 1 else boxNum) boxNum =
        boxNum + cells.countP (exceeds inputData thresh) := by
    intro cells
    induction cells with
    | nil => exact fun _ => rfl
    | cons c cells ih =>
        intro boxNum
        rw [List.foldl_cons, ih, List.countP_cons]
        split <;> omega
  have hloops := loop_loop layer.gridBoxNum (layer.netW * layer.netH)
    (fun n i => Cell.mk layer pData i n)
    (fun boxNum c => if exceeds inputData thresh c = true then boxNum + 1 else boxNum) boxNum
  simp only [exceeds, decide_eq_true_eq] at hloops
  rw [countLayer, hloops, layerCells, Int.mul_comm layer.netH,
    (grid_perm (layer.netW * layer.netH) layer.gridBoxNum (Cell.mk layer pData)).countP_eq, ← hfold]
  simp only [exceeds, decide_eq_true_eq]

theorem countLayers_eq (vecLayer : List YoloLayer) (pData : Int) (boxNum : Nat) :
    countLayers inputData thresh vecLayer pData boxNum =
      boxNum + (scan vecLayer pData).countP (exceeds inputData thresh) := by
  induction vecLayer generalizing pData boxNum with
  | nil => rfl
  | cons layer vecLayer ih =>
      rw [countLayers, ih, countLayer_eq, scan, List.countP_append]
      omega

theorem boxNum_eq (hmax : 0 ≤ net.maxBoxNum) :
    boxNum net inputData thresh = (chosen net inputData thresh).length := by
  rw [boxNum, countLayers_eq, chosen, length_taken, Nat.zero_add]
  split <;> omega

end Count

def writeCell (s : Filling F) (c : Cell) : Filling F :=
  { dets := s.dets.modify s.count (writeBox net inputData thresh c.layer c.pData c.loc c.n)
    count := s.count + 1
    writes := s.writes ++ [s.count] }

def fillCell (s : Filling F) (c : Cell) : Filling F :=
  if inputData (c.pData + getIndex2 c.n c.loc c.layer.netC 85 4) > thresh ∧ s.count < net.maxBoxNum then
    writeCell net inputData thresh s c
  else s

theorem fillLayers_eq_foldl (vecLayer : List YoloLayer) (pData : Int) (s : Filling F) :
    fillLayers net inputData thresh vecLayer pData s =
      (scan vecLayer pData).foldl (fillCell net inputData thresh) s := by
  induction vecLayer generalizing pData s with
  | nil => rfl
  | cons layer vecLayer ih =>
      have hloops := loop_loop (layer.netH * layer.netW) layer.gridBoxNum (Cell.mk layer pData)
        (fillCell net inputData thresh) s
      rw [fillLayers, ih, scan, List.foldl_append, layerCells, ← hloops]
      rfl

theorem fillLayers_eq_chosen (s : Filling F) (hs : s.count = 0) :
    fillLayers net inputData thresh net.vecLayer 0 s =
      (chosen net inputData thresh).foldl (writeCell net inputData thresh) s := by
  have hcond : ∀ (s : Filling F) (c : Cell),
      (exceeds inputData thresh c = true ∧ s.count < net.maxBoxNum.toNat) ↔
        inputData (c.pData + getIndex2 c.n c.loc c.layer.netC 85 4) > thresh ∧
          s.count < net.maxBoxNum := by
    intro s c
    rw [exceeds, decide_eq_true_iff, Int.lt_toNat]
  rw [fillLayers_eq_foldl, chosen]
  refine foldl_taken (show Filling.count s = 0 from hs) (fun _ _ => rfl) ?_ ?_ _
  · intro s c h
    rw [fillCell, if_pos ((hcond s c).mp h)]
  · intro s c h
    rw [fillCell, if_neg (mt (hcond s c).mpr h)]

theorem foldl_writeCell_count (cells : List Cell) (s : Filling F) :
    (cells.foldl (writeCell net inputData thresh) s).count = s.count + cells.length ∧
      (cells.foldl (writeCell net inputData thresh) s).writes =
        s.writes ++ List.range' s.count cells.length := by
  induction cells generalizing s with
  | nil => simp
  | cons c cells ih =>
      obtain ⟨hcount, hwrites⟩ := ih (writeCell net inputData thresh s c)
      have hnext : (writeCell net inputData thresh s c).count = s.count + 1 := rfl
      have happend : (writeCell net inputData thresh s c).writes = s.writes ++ [s.count] := rfl
      rw [List.foldl_cons, hcount, hwrites, hnext, happend, List.length_cons, List.range'_succ,
        List.append_assoc]
      exact ⟨by omega, rfl⟩

-- The writes follow each other, from the entry behind `front` on.
theorem foldl_writeCell (cells : List Cell) (front rest : List (Detection F)) (writes : List Nat)
    (hlen : cells.length ≤ rest.length) :
    cells.foldl (writeCell net inputData thresh)
        { dets := front ++ rest, count := front.length, writes := writes } =
      { dets := front ++ (List.zipWith (fun c d =>
          writeBox net inputData thresh c.layer c.pData c.loc c.n d) cells rest ++ rest.drop cells.length)
        count := front.length + cells.length
        writes := writes ++ List.range' front.length cells.length } := by
  induction cells generalizing front rest writes with
  | nil => simp
  | cons c cells ih =>
      cases rest with
      | nil => cases hlen
      | cons d rest =>
          have hnext := ih (front ++ [writeBox net inputData thresh c.layer c.pData c.loc c.n d]) rest
            (writes ++ [front.length]) (Nat.le_of_succ_le_succ hlen)
          rw [List.length_append, List.length_singleton, List.append_assoc, List.append_assoc,
            List.append_assoc, List.singleton_append, List.singleton_append, List.singleton_append] at hnext
          rw [List.foldl_cons, writeCell, Counting.modify_append_cons, hnext, List.zipWith_cons_cons,
            List.length_cons, List.range'_succ, Nat.add_right_comm, Nat.add_assoc]
          rfl

theorem fillLayers_dets {dets : List (Detection F)}
    (hdets : dets.length = (chosen net inputData thresh).length) :
    (fillLayers net inputData thresh net.vecLayer 0 { dets := dets }).dets =
      List.zipWith (fun c d => writeBox net inputData thresh c.layer c.pData c.loc c.n d)
        (chosen net inputData thresh) dets := by
  have hwrites := foldl_writeCell net inputData thresh (chosen net inputData thresh) [] dets []
    (Nat.le_of_eq hdets.symm)
  rw [List.nil_append, List.length_nil, ← hdets, List.drop_length, List.append_nil] at hwrites
  rw [fillLayers_eq_chosen net inputData thresh { dets := dets } rfl, hwrites]
  rfl

-- A detection with the box, the objectness and the scores that a cell has in the output.
structure FilledFrom (c : Cell) (d : Detection F) : Prop where
  bbox : d.bbox = getYoloBox2 net (fun index => inputData (c.pData + index)) (c.layer.mask c.n)
    (getIndex2 c.n c.loc c.layer.netC 85 0) (Int.tmod c.loc c.layer.netH) (Int.tdiv c.loc c.layer.netW)
    c.layer.netW c.layer.netH
  objectness : d.objectness = inputData (c.pData + getIndex2 c.n c.loc c.layer.netC 85 4)
  above : d.objectness > thresh
  classes : d.classes = net.classNum
  prob : ∀ k : Nat, k < net.classNum → d.prob k =
    if d.objectness * inputData (c.pData + getIndex2 c.n c.loc c.layer.netC 85 (4 + 1 + k)) > thresh then
      d.objectness * inputData (c.pData + getIndex2 c.n c.loc c.layer.netC 85 (4 + 1 + k))
    else 0

theorem filledFrom_writeBox {c : Cell} (hc : c ∈ chosen net inputData thresh) (d : Detection F) :
    FilledFrom net inputData thresh c (writeBox net inputData thresh c.layer c.pData c.loc c.n d) where
  bbox := rfl
  objectness := rfl
  above := of_decide_eq_true (of_mem_taken hc).2
  classes := rfl
  prob _ hk := if_pos hk

-- The two passes see the same cells, so the detections that are filled are those allocated, each
-- from the cell of its turn.
theorem fill_count_eq_boxNum (hmax : 0 ≤ net.maxBoxNum) (dets : List (Detection F)) :
    (fillLayers net inputData thresh net.vecLayer 0 { dets := dets }).count =
        boxNum net inputData thresh ∧
      (fillLayers net inputData thresh net.vecLayer 0 { dets := dets }).writes =
        List.range (boxNum net inputData thresh).toNat ∧
      ∀ heap, makeNetworkBoxes net inputData thresh heap = some dets →
        (∀ i ∈ (fillLayers net inputData thresh net.vecLayer 0 { dets := dets }).writes,
          i < dets.length) ∧
        (fillLayers net inputData thresh net.vecLayer 0 { dets := dets }).dets =
          List.zipWith (fun c d => writeBox net inputData thresh c.layer c.pData c.loc c.n d)
            (chosen net inputData thresh) dets ∧
        List.Forall₂ (FilledFrom net inputData thresh) (chosen net inputData thresh)
          (fillLayers net inputData thresh net.vecLayer 0 { dets := dets }).dets := by
  have hnum := boxNum_eq net inputData thresh hmax
  obtain ⟨hcount, hwrites⟩ :=
    foldl_writeCell_count net inputData thresh (chosen net inputData thresh) { dets := dets }
  rw [← fillLayers_eq_chosen net inputData thresh { dets := dets } rfl] at hcount hwrites
  rw [Nat.zero_add] at hcount
  rw [List.nil_append, ← List.range_eq_range'] at hwrites
  refine ⟨by rw [hcount, hnum], by rw [hwrites, hnum, Int.toNat_natCast], ?_⟩
  intro heap hmake
  have hlen : dets.length = (chosen net inputData thresh).length := by
    rw [makeNetworkBoxes] at hmake
    split at hmake
    · cases hmake
    · rw [← Option.some.inj hmake, List.length_map, List.length_range, hnum, Int.toNat_natCast]
  have hdets := fillLayers_dets net inputData thresh hlen
  refine ⟨?_, hdets, ?_⟩
  · intro i hi
    rw [hwrites, List.mem_range] at hi
    rwa [hlen]
  · rw [hdets]
    refine List.forall₂_iff_get.mpr ⟨by rw [List.length_zipWith, hlen, Nat.min_self], ?_⟩
    intro i hi _
    rw [List.get_eq_getElem, List.get_eq_getElem, List.getElem_zipWith]
    exact filledFrom_writeBox net inputData thresh (List.getElem_mem hi) _

end Passes

-- One layer of two by one cells, and room for one detection.
def smallNet : NetDetect Int where
  maxBoxNum := 1
  thresh := 0
  iou := 0
  classNum := 1
  fpgaNetw := 2
  fpgaNeth := 1
  boxLen := 100
  anchorArr := fun _ => 1
  nmsType := .default
  betaNms := 0
  vecLayer := [{ netH := 1, netW := 2, netC := 256, outputSize := 2048, gridBoxNum := 1, mask := fun _ => 0 }]

def blankDet : Detection Int := { bbox := ⟨0, 0, 0, 0⟩, prob := fun _ => 0, objectness := 0, sortClass := 0 }

theorem fill_count_eq_boxNum_small :
    boxNum smallNet (fun _ => 1) 0 = 1 ∧
      makeNetworkBoxes smallNet (fun _ => 1) 0 (fun _ => blankDet) = some [blankDet] ∧
      (fillLayers smallNet (fun _ => 1) 0 smallNet.vecLayer 0 { dets := [blankDet] }).count =
        boxNum smallNet (fun _ => 1) 0 ∧
      (fillLayers smallNet (fun _ => 1) 0 smallNet.vecLayer 0 { dets := [blankDet] }).writes =
        List.range (boxNum smallNet (fun _ => 1) 0).toNat ∧
      ∀ heap, makeNetworkBoxes smallNet (fun _ => 1) 0 heap = some [blankDet] →
        (∀ i ∈ (fillLayers smallNet (fun _ => 1) 0 smallNet.vecLayer 0 { dets := [blankDet] }).writes,
          i < [blankDet].length) ∧
        (fillLayers smallNet (fun _ => 1) 0 smallNet.vecLayer 0 { dets := [blankDet] }).dets =
          List.zipWith (fun c d => writeBox smallNet (fun _ => 1) 0 c.layer c.pData c.loc c.n d)
            (chosen smallNet (fun _ => 1) 0) [blankDet] ∧
        List.Forall₂ (FilledFrom smallNet (fun _ => 1) 0) (chosen smallNet (fun _ => 1) 0)
          (fillLayers smallNet (fun _ => 1) 0 smallNet.vecLayer 0 { dets := [blankDet] }).dets :=
  ⟨by decide, rfl, fill_count_eq_boxNum smallNet (fun _ => 1) 0 (by decide) [blankDet]⟩

end Vcu
