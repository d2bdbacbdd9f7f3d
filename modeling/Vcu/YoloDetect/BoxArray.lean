import Mathlib.Algebra.Order.Ring.Rat
import Mathlib.Tactic.Linarith
import Mathlib.Tactic.Positivity
import Vcu.YoloDetect.Construct
import Vcu.YoloDetect.Frame
import Vcu.YoloDetect.Letterbox
import Vcu.YoloDetect.Suppression

namespace Vcu

open Counting Loop NetDetect

section Room

variable {F : Type}

-- The boxes of all grids.
def NetDetect.gridBoxes (net : NetDetect F) : Nat :=
  (net.vecLayer.map fun layer => (layer.netH * layer.netW).toNat * layer.gridBoxNum.toNat).sum

-- No more detections than the array has by default, for want of boxes or of classes.
def NetDetect.HasRoom (net : NetDetect F) : Prop :=
  net.maxBoxNum ≤ defaultMaxBoxNum ∨ net.gridBoxes ≤ defaultMaxBoxNum ∨ net.classNum ≤ 0

theorem length_scan (vecLayer : List YoloLayer) (pData : Int) : (scan vecLayer pData).length =
    (vecLayer.map fun layer => (layer.netH * layer.netW).toNat * layer.gridBoxNum.toNat).sum := by
  induction vecLayer generalizing pData with
  | nil => rfl
  | cons layer vecLayer ih =>
      rw [scan, List.length_append, ih, List.map_cons, List.sum_cons, layerCells, grid,
        List.length_flatMap]
      simp [Nat.mul_comm]

variable [LT F] [DecidableLT F]

theorem length_chosen_le (net : NetDetect F) (inputData : Int → F) (thresh : F) :
    (chosen net inputData thresh).length ≤ net.maxBoxNum.toNat ∧
      (chosen net inputData thresh).length ≤ net.gridBoxes := by
  have hcount := List.countP_le_length (p := exceeds inputData thresh) (l := scan net.vecLayer 0)
  rw [length_scan] at hcount
  rw [chosen, length_taken]
  exact ⟨Nat.min_le_left .., (Nat.min_le_right ..).trans hcount⟩

theorem withBestClass_of_classes {d : Detection F} (h : d.classes ≤ 0) (thresh : F) :
    withBestClass thresh d = none := by
  have hbest : bestClass thresh d = (-1, thresh) := by
    rw [bestClass, loop, Int.toNat_of_nonpos h]
    rfl
  rw [withBestClass, hbest]
  rfl

end Room

section Runs

variable {F : Type} [Zero F] [One F] [Add F] [Sub F] [Mul F] [Div F] [OfNat F 2] [IntCast F] [LT F]
  [DecidableLT F] [BEq F]

-- Every box that getDetectBoxInfo writes lies in boxArr.
def InBoxArr (pow : F → F → F) (toInt : F → Int) (net : NetDetect F) : Prop :=
  ∀ (qsort : Qsort (Detection F)) (inputData : Int → F) (heap : Nat → Detection F) (srcW srcH : Int)
    (infos : List (NetDetect.BoxInfo2 F)),
    getDetectBoxInfo qsort pow toInt net inputData heap srcW srcH = some infos →
      ∀ i < infos.length, i < net.boxLen

variable {qsort : Qsort (Detection F)} {pow : F → F → F} {toInt : F → Int} {net : NetDetect F}
  {inputData : Int → F} {heap : Nat → Detection F} {srcW srcH : Int} {infos : List (NetDetect.BoxInfo2 F)}

theorem getDetectBoxInfo_length
    (h : getDetectBoxInfo qsort pow toInt net inputData heap srcW srcH = some infos) :
    infos.length ≤ net.maxBoxNum.toNat ∧ infos.length ≤ net.gridBoxes ∧
      (net.classNum ≤ 0 → infos.length = 0) := by
  obtain ⟨made, filled, out, hmade, hfilled, hout, rfl⟩ := getDetectBoxInfo_some h
  have hle : ((getActualDetections out net.thresh).map (boxInfo toInt srcW srcH)).length ≤
      (chosen net inputData net.thresh).length := by
    rw [List.length_map, ← fillNetworkBoxes_length hmade hfilled, ← suppress_length hout]
    exact List.length_filterMap_le ..
  obtain ⟨hmax, hgrid⟩ := length_chosen_le net inputData net.thresh
  refine ⟨hle.trans hmax, hle.trans hgrid, ?_⟩
  intro hclass
  have hnone : getActualDetections out net.thresh = [] := by
    apply List.filterMap_eq_nil_iff.mpr
    intro d hd
    apply withBestClass_of_classes
    have hframes : ∀ e ∈ out, (frame e).2.2 ≤ 0 := by
      refine forall_of_map_perm (p := fun v => v.2.2 ≤ 0) (suppress_frame hout) ?_
      intro e he
      obtain ⟨_, -, _, -, _, _, rfl, rfl⟩ := mem_fillNetworkBoxes hmade hfilled he
      exact hclass
    exact hframes d hd
  rw [hnone, List.map_nil, List.length_nil]

theorem inBoxArr_of_hasRoom (hlen : net.boxLen = defaultMaxBoxNum) (hroom : net.HasRoom) :
    InBoxArr pow toInt net := by
  intro qsort inputData heap srcW srcH infos h i hi
  obtain ⟨hmax, hgrid, hclass⟩ := getDetectBoxInfo_length h
  rw [hlen]
  rcases hroom with hroom | hroom | hroom
  · omega
  · omega
  · rw [hclass hroom] at hi
    cases hi

end Runs

-- Boxes without an inside overlap nothing.
def Box.Flat (b : Box ℚ) : Prop := b.w ≤ 0 ∧ b.h ≤ 0

section Flat

variable {a b : Box ℚ}

theorem overlap_le (x1 w1 x2 w2 : ℚ) : overlap x1 w1 x2 w2 ≤ w1 := by
  simp only [overlap]
  split <;> split <;> linarith

theorem Box.Flat.boxIou_eq (h : a.Flat) (b : Box ℚ) : boxIou a b = 0 := by
  have hinter : boxIntersection a b = 0 := by
    have hw := (overlap_le a.x a.w b.x b.w).trans h.1
    have hh := (overlap_le a.y a.h b.y b.h).trans h.2
    simp only [boxIntersection]
    split
    · rfl
    · rename_i hneg
      rw [not_or, not_lt, not_lt] at hneg
      rw [le_antisymm hw hneg.1, zero_mul]
  simp [boxIou, hinter]

theorem Box.Flat.boxDiounms_le (h : a.Flat) (b : Box ℚ) {pow : ℚ → ℚ → ℚ}
    (hpow : ∀ x y, 0 ≤ x → 0 ≤ pow x y) (beta1 : ℚ) : boxDiounms pow a b beta1 ≤ 0 := by
  simp only [boxDiounms, h.boxIou_eq b]
  split
  · exact le_refl 0
  · rw [zero_sub, neg_nonpos]
    apply hpow
    apply div_nonneg
    · exact add_nonneg (mul_self_nonneg _) (mul_self_nonneg _)
    · exact add_nonneg (mul_self_nonneg _) (mul_self_nonneg _)

theorem bestClass_nonneg {thresh : ℚ} {d : Detection ℚ} (hclasses : 0 < d.classes)
    (hprob : thresh < d.prob 0) : 0 ≤ (bestClass thresh d).1 := by
  obtain ⟨n, hn⟩ := Nat.exists_eq_succ_of_ne_zero (n := d.classes.toNat) (by omega)
  have hstep : ∀ (js : List Nat) (best : Int × ℚ), 0 ≤ best.1 → 0 ≤ (js.foldl
      (fun best j => if d.prob j > best.2 then ((j : Int), d.prob j) else best) best).1 := by
    intro js
    induction js with
    | nil => exact fun _ h => h
    | cons j js ih =>
        intro best hbest
        rw [List.foldl_cons]
        apply ih
        split
        · exact Int.natCast_nonneg j
        · exact hbest
  rw [bestClass, loop, hn, List.range_succ_eq_map, List.foldl_cons, if_pos hprob]
  exact hstep _ _ (Int.natCast_nonneg 0)

end Flat

-- Nothing in the configuration is negative that should not be.
structure NetDetect.Sane (net : NetDetect ℚ) : Prop where
  iou : 0 ≤ net.iou
  fpgaNetw : 0 < net.fpgaNetw ∧ net.fpgaNetw ≤ 2147483647
  fpgaNeth : 0 < net.fpgaNeth ∧ net.fpgaNeth ≤ 2147483647
  anchors : ∀ layer ∈ net.vecLayer, ∀ n : Nat, n < layer.gridBoxNum →
    0 ≤ net.anchorArr (2 * layer.mask n) ∧ 0 ≤ net.anchorArr (2 * layer.mask n + 1)

-- An output that makes a detection of every box, in every class. No box has an inside.
def loud (net : NetDetect ℚ) : Int → ℚ := fun _ => |net.thresh| + 2

section Loud

variable {qsort : Qsort (Detection ℚ)} {pow : ℚ → ℚ → ℚ} {toInt : ℚ → Int} {net : NetDetect ℚ}
  {heap : Nat → Detection ℚ}

theorem loud_spec (net : NetDetect ℚ) (i j : Int) :
    net.thresh < loud net i ∧ net.thresh < loud net i * loud net j ∧ 1 < loud net i := by
  have habs := le_abs_self net.thresh
  have hnonneg := abs_nonneg net.thresh
  simp only [loud]
  refine ⟨by linarith, ?_, by linarith⟩
  nlinarith

theorem chosen_loud (net : NetDetect ℚ) :
    (chosen net (loud net) net.thresh).length = min net.maxBoxNum.toNat net.gridBoxes := by
  have hall : ∀ c ∈ scan net.vecLayer 0, exceeds (loud net) net.thresh c = true :=
    fun c _ => decide_eq_true (loud_spec net _ 0).1
  rw [chosen, length_taken, List.countP_eq_length.mpr hall, length_scan]
  rfl

theorem scaledSize_one (hw : 0 < net.fpgaNetw ∧ net.fpgaNetw ≤ 2147483647)
    (hh : 0 < net.fpgaNeth ∧ net.fpgaNeth ≤ 2147483647) :
    ∃ new, scaledSize ℚ net.fpgaNetw net.fpgaNeth 1 1 = some new ∧ 0 ≤ new.1 ∧ 0 ≤ new.2 := by
  rw [scaledSize]
  split
  · rw [intMul, one_mul, if_pos ⟨by omega, hw.2⟩]
    exact ⟨_, rfl, hw.1.le, by rw [Int.tdiv_one]; exact hw.1.le⟩
  · rw [intMul, one_mul, if_pos ⟨by omega, hh.2⟩]
    exact ⟨_, rfl, by rw [Int.tdiv_one]; exact hh.1.le, hh.1.le⟩

theorem Box.Flat.unpadBox {b : Box ℚ} (h : b.Flat) {fpgaNetw fpgaNeth newW newH : Int}
    (hw : 0 ≤ fpgaNetw) (hh : 0 ≤ fpgaNeth) (hnewW : 0 ≤ newW) (hnewH : 0 ≤ newH) :
    (unpadBox fpgaNetw fpgaNeth newW newH b).Flat := by
  have hratio : ∀ {new fpga : Int}, 0 ≤ new → 0 ≤ fpga → (0 : ℚ) ≤ 1 / ((new : ℚ) / fpga) := by
    intro new fpga hnew hfpga
    have hnew' : (0 : ℚ) ≤ new := Int.cast_nonneg hnew
    have hfpga' : (0 : ℚ) ≤ fpga := Int.cast_nonneg hfpga
    positivity
  exact ⟨mul_nonpos_of_nonpos_of_nonneg h.1 (hratio hnewW hw),
    mul_nonpos_of_nonpos_of_nonneg h.2 (hratio hnewH hh)⟩

theorem getYoloBox2_flat (hsane : net.Sane) {x : Int → ℚ} (hx : ∀ i, 1 < x i)
    {n index col row lw lh : Int} (hanchor : 0 ≤ net.anchorArr (2 * n) ∧ 0 ≤ net.anchorArr (2 * n + 1)) :
    (getYoloBox2 net x n index col row lw lh).Flat := by
  have hside : ∀ (i anchor fpga : Int), 0 ≤ anchor → 0 ≤ fpga →
      x i / (1 - x i) * anchor / fpga ≤ 0 := by
    intro i anchor fpga hanchor hfpga
    have hi := hx i
    have hquot : x i / (1 - x i) ≤ 0 := div_nonpos_of_nonneg_of_nonpos (by linarith) (by linarith)
    exact div_nonpos_of_nonpos_of_nonneg
      (mul_nonpos_of_nonpos_of_nonneg hquot (Int.cast_nonneg hanchor)) (Int.cast_nonneg hfpga)
  exact ⟨hside _ _ _ hanchor.1 hsane.fpgaNetw.1.le, hside _ _ _ hanchor.2 hsane.fpgaNeth.1.le⟩

-- What the detections of such an output have in common.
structure Loud (net : NetDetect ℚ) (v : Box ℚ × Int × (Nat → ℚ)) : Prop where
  flat : v.1.Flat
  classes : v.2.1 = net.classNum
  prob : net.thresh < v.2.2 0

def scores (d : Detection ℚ) : Box ℚ × Int × (Nat → ℚ) := (d.bbox, d.classes, d.prob)

-- Suppression has nothing to do.
theorem unchanged_scores (hpow : ∀ x y, 0 ≤ x → 0 ≤ pow x y) (hiou : 0 ≤ net.iou) :
    Unchanged pow net.iou net.kind net.betaNms scores (Loud net) := by
  refine ⟨fun _ _ => rfl, ?_⟩
  intro k a b ha _
  rw [diouStrike, if_neg, if_neg]
  · rintro ⟨hhit, -⟩
    exact not_lt.mpr ((ha.flat.boxDiounms_le b.bbox hpow net.betaNms).trans hiou) hhit
  · rintro ⟨hhit, -⟩
    exact not_lt.mpr ((ha.flat.boxIou_eq b.bbox).trans_le hiou) hhit

theorem loud_of_mem {made filled : List (Detection ℚ)} (hsane : net.Sane) (hclass : 0 < net.classNum)
    (hmade : makeNetworkBoxes net (loud net) net.thresh heap = some made)
    (hfilled : fillNetworkBoxes net (loud net) 1 1 net.thresh made = some filled) {d : Detection ℚ}
    (hd : d ∈ filled) : Loud net (scores d) := by
  obtain ⟨new, hnew, c, hc, e, f, rfl, rfl⟩ := mem_fillNetworkBoxes hmade hfilled hd
  obtain ⟨new', hnew', hw, hh⟩ := scaledSize_one hsane.fpgaNetw hsane.fpgaNeth
  obtain rfl := Option.some.inj (hnew'.symm.trans hnew)
  obtain ⟨hlayer, -, hn⟩ := mem_scan (of_mem_taken hc).1
  refine ⟨?_, rfl, ?_⟩
  · refine Box.Flat.unpadBox ?_ hsane.fpgaNetw.1.le hsane.fpgaNeth.1.le hw hh
    exact getYoloBox2_flat hsane (fun i => (loud_spec net _ 0).2.2) (hsane.anchors _ hlayer _ hn)
  · simp only [scores, writeBox, Nat.cast_zero, if_pos hclass]
    rw [if_pos (loud_spec net _ _).2.1]
    exact (loud_spec net _ _).2.1

-- All boxes of the grids are reported, as far as maxboxes allows.
theorem getDetectBoxInfo_loud (qsort : Qsort (Detection ℚ)) (toInt : ℚ → Int) (heap : Nat → Detection ℚ)
    (hpow : ∀ x y, 0 ≤ x → 0 ≤ pow x y) (hsane : net.Sane) (hclass : 0 < net.classNum) (hmax : 0 ≤ net.maxBoxNum) :
    ∃ infos, getDetectBoxInfo qsort pow toInt net (loud net) heap 1 1 = some infos ∧
      infos.length = min net.maxBoxNum.toNat net.gridBoxes := by
  have hnum := boxNum_eq net (loud net) net.thresh hmax
  obtain ⟨made, hmade⟩ : ∃ made, makeNetworkBoxes net (loud net) net.thresh heap = some made := by
    refine ⟨_, if_neg ?_⟩
    rw [hnum]
    omega
  obtain ⟨new, hnew, -⟩ := scaledSize_one hsane.fpgaNetw hsane.fpgaNeth
  obtain ⟨filled, hfilled⟩ : ∃ filled,
      fillNetworkBoxes net (loud net) 1 1 net.thresh made = some filled :=
    ⟨_, by rw [fillNetworkBoxes_eq hmade, hnew, Option.map_some]⟩
  have hlen : filled.length = made.length := by
    rw [fillNetworkBoxes_length hmade hfilled, makeNetworkBoxes_length hmade]
  obtain ⟨out, hout⟩ : ∃ out, suppress qsort pow net made.length filled = some out := by
    obtain ⟨first, m, hpart, -⟩ := partition_total filled
    exact ⟨_, by rw [suppress_eq, diounmsSort, ← hlen, hpart, Option.map_some]⟩
  have hloud : ∀ d ∈ out, Loud net (scores d) := by
    have hrun := hout
    rw [suppress_eq] at hrun
    have hfill : ∀ d ∈ filled, Loud net (scores d) :=
      fun _ hd => loud_of_mem hsane hclass hmade hfilled hd
    exact forall_of_map_perm ((unchanged_scores hpow hsane.iou).diounmsSort_perm hfill hrun) hfill
  refine ⟨(getActualDetections out net.thresh).map (boxInfo toInt 1 1), ?_, ?_⟩
  · simp only [getDetectBoxInfo, hmade, hfilled, hout, Option.bind_eq_bind, Option.bind_some]
  · have hselected : (getActualDetections out net.thresh).length = out.length := by
      apply List.filterMap_length_eq_length.mpr
      intro d hd
      have hclasses : 0 < d.classes := hclass.trans_eq (hloud d hd).classes.symm
      rw [withBestClass, if_pos (bestClass_nonneg hclasses (hloud d hd).prob)]
      rfl
    rw [List.length_map, hselected, suppress_length hout, fillNetworkBoxes_length hmade hfilled,
      chosen_loud]

theorem hasRoom_of_inBoxArr (hlen : net.boxLen = defaultMaxBoxNum) (hpow : ∀ x y, 0 ≤ x → 0 ≤ pow x y)
    (hsane : net.Sane) (h : InBoxArr pow toInt net) : net.HasRoom := by
  by_contra hroom
  simp only [NetDetect.HasRoom, not_or, not_le] at hroom
  obtain ⟨hmax, hgrid, hclass⟩ := hroom
  obtain ⟨infos, hinfos, hlength⟩ := getDetectBoxInfo_loud (insertionQsort _) toInt
    (fun _ => zeroDet ℚ) hpow hsane hclass (by omega)
  have hlast := h _ _ _ _ _ infos hinfos defaultMaxBoxNum (by omega)
  omega

end Loud

section Accepted

variable {F : Type} [Zero F] [One F] [Add F] [Sub F] [Mul F] [Div F] [OfNat F 2] [IntCast F] [LT F]
  [DecidableLT F] [BEq F]

-- The array has its default size. The boxes fit whatever the arithmetic is, if there are too few of them
-- or of classes to leave it, or maxboxes keeps to the default. If there is no room and the arithmetic
-- is exact, some output of the FPGA leaves the array.
theorem accepted_inBoxArr_iff (env : Env F) (env' : Env ℚ) (pow : F → F → F) (pow' : ℚ → ℚ → ℚ)
    (toInt : F → Int) (toInt' : ℚ → Int) (fpgaNetw fpgaNeth : Int) (content key : List Char)
    (hpow : ∀ x y, 0 ≤ x → 0 ≤ pow' x y) :
    (∀ net : NetDetect F, Accepts env fpgaNetw fpgaNeth content key net → net.HasRoom →
      InBoxArr pow toInt net) ∧
    ∀ net : NetDetect ℚ, Accepts env' fpgaNetw fpgaNeth content key net → net.Sane →
      (InBoxArr pow' toInt' net ↔ net.HasRoom) := by
  refine ⟨fun net h hroom => inBoxArr_of_hasRoom h.sizes.1 hroom, ?_⟩
  intro net h hsane
  exact ⟨hasRoom_of_inBoxArr h.sizes.1 hpow hsane, inBoxArr_of_hasRoom h.sizes.1⟩

end Accepted

-- One layer of eleven by eleven cells.
def crowdedFile : List Char :=
  ("[net]\niou=0.5\nthresh=0.5\nclasses=1\nmaxboxes=200\nanchors=10,10\n\n[yolo]\nmask=0\nnet_h=11\n" ++
    "net_w=11\nnet_c=256\noutput_size=123904\nnms_kind=nms\nbeta_nms=1\n").toList

-- The numbers of that file, and the default of betaNms.
def crowdedEnv : Env ℚ where
  stringToFloat str := if str = "0.5".toList then 1 / 2 else if str = "0.6".toList then 3 / 5 else 1
  data := 0
  nmsKind := .default
  heap := fun _ => 0

theorem accepts_crowded : ∃ net, Accepts crowdedEnv 352 352 crowdedFile [] net ∧ net.Sane ∧
    net.maxBoxNum = 200 ∧ net.classNum = 1 ∧ net.gridBoxes = 121 := by
  have hrun : ((rounds NetCfgParser.step 16 (parserNetCfg crowdedFile [] ∅)).bind fun p =>
      (ofNetData crowdedEnv 352 352 p.mpNetData).map fun net =>
        (p.step.isNone, net.iou, [net.maxBoxNum, net.classNum, net.gridBoxes],
          net.vecLayer.map fun layer =>
            [layer.gridBoxNum, net.anchorArr (2 * layer.mask 0), net.anchorArr (2 * layer.mask 0 + 1)])) =
      some (true, 1 / 2, [200, 1, 121], [[1, 10, 10]]) := by decide +kernel
  obtain ⟨p, hp, hnet⟩ := Option.bind_eq_some_iff.mp hrun
  obtain ⟨net, hnet, hsame⟩ := Option.map_eq_some_iff.mp hnet
  simp only [Prod.mk.injEq, List.cons.injEq, and_true] at hsame
  obtain ⟨hend, hiou, ⟨hmax, hclass, hgrid⟩, hlayers⟩ := hsame
  have haccepts : Accepts crowdedEnv 352 352 crowdedFile [] net :=
    ⟨16, p, hp, Option.isNone_iff_eq_none.mp hend, hnet⟩
  obtain ⟨-, hw, hh⟩ := haccepts.sizes
  refine ⟨net, haccepts, ?_, hmax, hclass, by omega⟩
  refine ⟨by rw [hiou]; norm_num, by omega, by omega, ?_⟩
  intro layer hlayer n hn
  have hmem := List.mem_map_of_mem (f := fun layer : YoloLayer =>
    [layer.gridBoxNum, net.anchorArr (2 * layer.mask 0), net.anchorArr (2 * layer.mask 0 + 1)]) hlayer
  simp only [hlayers, List.mem_singleton, List.cons.injEq, and_true] at hmem
  obtain ⟨hnum, hfirst, hsecond⟩ := hmem
  obtain rfl : n = 0 := by omega
  exact ⟨by omega, by omega⟩

theorem accepted_inBoxArr_iff_crowded : ∃ net, Accepts crowdedEnv 352 352 crowdedFile [] net ∧ net.Sane ∧
    (net.HasRoom → InBoxArr (fun x _ => x) toInt net) ∧
    (InBoxArr (fun x _ => x) toInt net ↔ net.HasRoom) ∧ ¬ net.HasRoom := by
  obtain ⟨net, haccepts, hsane, hmax, hclass, hgrid⟩ := accepts_crowded
  have h := accepted_inBoxArr_iff crowdedEnv crowdedEnv (fun x _ => x) (fun x _ => x) toInt toInt 352 352
    crowdedFile [] fun _ _ h => h
  refine ⟨net, haccepts, hsane, h.1 net haccepts, h.2 net haccepts hsane, ?_⟩
  rw [NetDetect.HasRoom, defaultMaxBoxNum]
  omega

-- The box behind the last element of the array.
theorem crowded_overflows : ∃ net, Accepts crowdedEnv 352 352 crowdedFile [] net ∧
    ∃ infos, getDetectBoxInfo (insertionQsort _) (fun x _ => x) toInt net (loud net)
        (fun _ => zeroDet ℚ) 1 1 = some infos ∧
      ∃ i < infos.length, ¬ i < net.boxLen := by
  obtain ⟨net, haccepts, hsane, hmax, hclass, hgrid⟩ := accepts_crowded
  have hpow : ∀ x y : ℚ, 0 ≤ x → 0 ≤ (fun x _ => x : ℚ → ℚ → ℚ) x y := fun _ _ h => h
  obtain ⟨infos, hinfos, hlength⟩ := getDetectBoxInfo_loud (insertionQsort _) toInt
    (fun _ => zeroDet ℚ) hpow hsane (by omega) (by omega)
  refine ⟨net, haccepts, infos, hinfos, 100, by omega, ?_⟩
  rw [haccepts.sizes.1, defaultMaxBoxNum]
  omega

end Vcu
