import Mathlib.Data.List.Perm.Basic
import Vcu.YoloDetect.Frame
import Vcu.YoloDetect.Grid
import Vcu.YoloDetect.Letterbox
import Vcu.YoloDetect.Suppression

namespace Vcu

open Counting

-- A reported box lies in a picture of that size.
structure Inside (srcW srcH : Int) (info : NetDetect.BoxInfo2 ℚ) : Prop where
  left : 0 ≤ info.left
  across : info.left ≤ info.right
  right : info.right ≤ srcW - 1
  top : 0 ≤ info.top
  down : info.top ≤ info.bottom
  bottom : info.bottom ≤ srcH - 1

-- Along one axis of the network input, whose middle is filled by `new` pixels of the source: the box
-- begins before they end, and ends behind their beginning or less than a source pixel before it.
def Meets (fpgaNet new src : Int) (x w : ℚ) : Prop :=
  (x - w / 2) * fpgaNet < (fpgaNet + new : ℚ) / 2 ∧
    (fpgaNet - new : ℚ) / 2 - (new : ℚ) / src < (x + w / 2) * fpgaNet

section Axis

theorem toInt_mono {p q : ℚ} (h : p ≤ q) : toInt p ≤ toInt q := by
  simp only [toInt]
  split <;> split
  · exact Int.ceil_mono h
  · rename_i hp hq
    exact (Int.ceil_nonpos.mpr (le_of_lt hp)).trans (Int.floor_nonneg.mpr (not_lt.mp hq))
  · linarith
  · exact Int.floor_mono h

theorem toInt_lt_iff (q : ℚ) {k : Int} (hk : 0 < k) : toInt q < k ↔ q < k := by
  have hk' : (0 : ℚ) < k := Int.cast_pos.mpr hk
  rw [toInt]
  split
  · rename_i hq
    have hceil := Int.ceil_nonpos.mpr (le_of_lt hq)
    exact ⟨fun _ => by linarith, fun _ => by omega⟩
  · exact Int.floor_lt

theorem toInt_nonneg_iff (q : ℚ) : 0 ≤ toInt q ↔ -1 < q := by
  rw [toInt]
  split
  · rw [← Int.sub_one_lt_iff, Int.lt_ceil]
    norm_num
  · rename_i hq
    exact ⟨fun _ => by linarith, fun _ => Int.floor_nonneg.mpr (not_lt.mp hq)⟩

variable {fpgaNet new src : Int} {x w : ℚ}

-- The two clamps repair each side at one end only.
theorem clamped_iff {l r : Int} (hsrc : 0 < src) (hlr : l ≤ r) :
    (0 ≤ (if l < 0 then 0 else l) ∧ (if l < 0 then 0 else l) ≤ (if r > src - 1 then src - 1 else r) ∧
      (if r > src - 1 then src - 1 else r) ≤ src - 1) ↔ l < src ∧ 0 ≤ r := by
  split <;> split <;> omega

theorem inside_axis_iff (hsrc : 0 < src) (hw : 0 ≤ w) :
    (0 ≤ (if toInt ((x - w / 2) * src) < 0 then 0 else toInt ((x - w / 2) * src)) ∧
      (if toInt ((x - w / 2) * src) < 0 then 0 else toInt ((x - w / 2) * src)) ≤
        (if toInt ((x + w / 2) * src) > src - 1 then src - 1 else toInt ((x + w / 2) * src)) ∧
      (if toInt ((x + w / 2) * src) > src - 1 then src - 1 else toInt ((x + w / 2) * src)) ≤ src - 1) ↔
      (x - w / 2) * src < src ∧ -1 < (x + w / 2) * src := by
  have hsrc' : (0 : ℚ) < src := Int.cast_pos.mpr hsrc
  have horder : toInt ((x - w / 2) * src) ≤ toInt ((x + w / 2) * src) :=
    toInt_mono (mul_le_mul_of_nonneg_right (by linarith) hsrc'.le)
  rw [clamped_iff hsrc horder, toInt_lt_iff _ hsrc, toInt_nonneg_iff]

-- Back in the network input.
theorem edges_iff (hfpga : 0 < fpgaNet) (hnew : 0 < new) (hsrc : 0 < src) :
    ((x - ((fpgaNet - new : Int) : ℚ) / 2 / fpgaNet) / ((new : ℚ) / fpgaNet) -
        w * (1 / ((new : ℚ) / fpgaNet)) / 2) * src < src ∧
      -1 < ((x - ((fpgaNet - new : Int) : ℚ) / 2 / fpgaNet) / ((new : ℚ) / fpgaNet) +
        w * (1 / ((new : ℚ) / fpgaNet)) / 2) * src ↔ Meets fpgaNet new src x w := by
  have hfpga' : (0 : ℚ) < fpgaNet := Int.cast_pos.mpr hfpga
  have hnew' : (0 : ℚ) < new := Int.cast_pos.mpr hnew
  have hsrc' : (0 : ℚ) < src := Int.cast_pos.mpr hsrc
  have hedge : ∀ e : ℚ, (x - ((fpgaNet - new : Int) : ℚ) / 2 / fpgaNet) / ((new : ℚ) / fpgaNet) +
      e * (1 / ((new : ℚ) / fpgaNet)) / 2 =
        ((x + e / 2) * fpgaNet - (fpgaNet - new : ℚ) / 2) / new := by
    intro e
    push_cast
    field_simp
    ring
  have hneg := hedge (-w)
  rw [neg_mul, neg_div, ← sub_eq_add_neg, neg_div, ← sub_eq_add_neg] at hneg
  rw [hneg, hedge w, Meets, mul_lt_iff_lt_one_left hsrc', div_lt_one hnew', ← div_lt_iff₀ hsrc',
    lt_div_iff₀ hnew']
  have hpixel : -1 / (src : ℚ) * new = -((new : ℚ) / src) := by ring
  rw [hpixel]
  constructor
  · rintro ⟨hl, hr⟩
    exact ⟨by linarith, by linarith⟩
  · rintro ⟨hl, hr⟩
    exact ⟨by linarith, by linarith⟩

end Axis

-- The box of a cell in the network input.
def Cell.netBox (net : NetDetect ℚ) (inputData : Int → ℚ) (c : Cell) : Box ℚ :=
  getYoloBox2 net (fun index => inputData (c.pData + index)) (c.layer.mask c.n)
    (getIndex2 c.n c.loc c.layer.netC 85 0) c.col c.row c.layer.netW c.layer.netH

section Boxes

variable {fpgaNetw fpgaNeth srcW srcH newW newH : Int} {b : Box ℚ}

theorem boxInfo_inside_iff (hfpga : 0 < fpgaNetw ∧ 0 < fpgaNeth) (hnew : 0 < newW ∧ 0 < newH)
    (hsrc : 0 < srcW ∧ 0 < srcH) (hb : 0 ≤ b.w ∧ 0 ≤ b.h) {s : DetectionWithClass ℚ}
    (hs : s.det.bbox = unpadBox fpgaNetw fpgaNeth newW newH b) :
    Inside srcW srcH (boxInfo toInt srcW srcH s) ↔
      Meets fpgaNetw newW srcW b.x b.w ∧ Meets fpgaNeth newH srcH b.y b.h := by
  have hside : ∀ {w : ℚ} {fpga new : Int}, 0 ≤ w → 0 < fpga → 0 < new →
      0 ≤ w * (1 / ((new : ℚ) / fpga)) := by
    intro w fpga new hw hfpga hnew
    have hfpga' : (0 : ℚ) < fpga := Int.cast_pos.mpr hfpga
    have hnew' : (0 : ℚ) < new := Int.cast_pos.mpr hnew
    positivity
  rw [← edges_iff hfpga.1 hnew.1 hsrc.1, ← edges_iff hfpga.2 hnew.2 hsrc.2,
    ← inside_axis_iff hsrc.1 (hside hb.1 hfpga.1 hnew.1), ← inside_axis_iff hsrc.2 (hside hb.2 hfpga.2 hnew.2)]
  constructor
  · rintro ⟨hleft, hacross, hright, htop, hdown, hbottom⟩
    simp only [boxInfo, hs, unpadBox] at hleft hacross hright htop hdown hbottom
    exact ⟨⟨hleft, hacross, hright⟩, htop, hdown, hbottom⟩
  · rintro ⟨⟨hleft, hacross, hright⟩, htop, hdown, hbottom⟩
    refine ⟨?_, ?_, ?_, ?_, ?_, ?_⟩ <;> simp only [boxInfo, hs, unpadBox] <;> assumption

end Boxes

-- The scaled picture has pixels, and the box of the cell touches them.
structure InPicture (net : NetDetect ℚ) (inputData : Int → ℚ) (srcW srcH : Int) (new : Int × Int)
    (c : Cell) : Prop where
  width : new.1 ≠ 0
  height : new.2 ≠ 0
  across : Meets net.fpgaNetw new.1 srcW (c.netBox net inputData).x (c.netBox net inputData).w
  down : Meets net.fpgaNeth new.2 srcH (c.netBox net inputData).y (c.netBox net inputData).h

-- The sizes and the anchors are positive, and the entries of a box lie in [0,1).
structure ValidOutput (net : NetDetect ℚ) (inputData : Int → ℚ) : Prop where
  fpgaNetw : 0 < net.fpgaNetw
  fpgaNeth : 0 < net.fpgaNeth
  anchors : ∀ c ∈ scan net.vecLayer 0,
    0 < net.anchorArr (2 * c.layer.mask c.n) ∧ 0 < net.anchorArr (2 * c.layer.mask c.n + 1)
  entries : ∀ c ∈ scan net.vecLayer 0, ∀ k : Int, 0 ≤ k → k < 4 →
    0 ≤ inputData (c.pData + getIndex2 c.n c.loc c.layer.netC 85 k) ∧
      inputData (c.pData + getIndex2 c.n c.loc c.layer.netC 85 k) < 1

section Reported

variable {qsort : Qsort (Detection ℚ)} {pow : ℚ → ℚ → ℚ} {net : NetDetect ℚ} {inputData : Int → ℚ}
  {heap : Nat → Detection ℚ} {srcW srcH : Int} {infos : List (NetDetect.BoxInfo2 ℚ)}

theorem ValidOutput.netBox_nonneg (h : ValidOutput net inputData) {c : Cell}
    (hc : c ∈ scan net.vecLayer 0) :
    0 ≤ (c.netBox net inputData).w ∧ 0 ≤ (c.netBox net inputData).h := by
  have hside : ∀ {q : ℚ} {anchor fpga : Int}, 0 ≤ q ∧ q < 1 → 0 < anchor → 0 < fpga →
      0 ≤ q / (1 - q) * anchor / fpga := by
    intro q anchor fpga hq hanchor hfpga
    have hrest : 0 < 1 - q := sub_pos.mpr hq.2
    have hq' := hq.1
    have hanchor' : (0 : ℚ) < anchor := Int.cast_pos.mpr hanchor
    have hfpga' : (0 : ℚ) < fpga := Int.cast_pos.mpr hfpga
    positivity
  have hw := h.entries c hc 2 (by omega) (by omega)
  have hh := h.entries c hc 3 (by omega) (by omega)
  obtain ⟨hfirst, hsecond⟩ := h.anchors c hc
  simp only [getIndex2] at hw hh
  simp only [Cell.netBox, getYoloBox2, getIndex2, Int.add_zero]
  exact ⟨hside hw hfirst h.fpgaNetw, hside hh hsecond h.fpgaNeth⟩

theorem scaledSize_nonneg {fpgaNetw fpgaNeth : Int} {new : Int × Int} (hfpgaw : 0 < fpgaNetw)
    (hfpgah : 0 < fpgaNeth) (hsrcw : 0 < srcW) (hsrch : 0 < srcH)
    (h : scaledSize ℚ fpgaNetw fpgaNeth srcW srcH = some new) : 0 ≤ new.1 ∧ 0 ≤ new.2 := by
  have hmul : ∀ {a b p : Int}, 0 < a → 0 < b → intMul a b = some p → 0 ≤ p := by
    intro a b p ha hb hp
    rw [intMul] at hp
    split at hp
    · obtain rfl := Option.some.inj hp
      exact (Int.mul_pos ha hb).le
    · cases hp
  rw [scaledSize] at h
  split at h
  · obtain ⟨p, hp, hnew⟩ := Option.bind_eq_some_iff.mp h
    obtain rfl := Option.some.inj hnew
    exact ⟨hfpgaw.le, Int.tdiv_nonneg (hmul hsrch hfpgaw hp) hsrcw.le⟩
  · obtain ⟨p, hp, hnew⟩ := Option.bind_eq_some_iff.mp h
    obtain rfl := Option.some.inj hnew
    exact ⟨Int.tdiv_nonneg (hmul hsrcw hfpgah hp) hsrch.le, hfpgah.le⟩

-- What is selected keeps its cells.
theorem exists_selected_cells {box : Cell → Box ℚ} {out : List (Detection ℚ)} {cells : List Cell}
    (h : List.Forall₂ (fun d c => d.bbox = box c) out cells) (thresh : ℚ) :
    ∃ selected, selected.Sublist cells ∧
      List.Forall₂ (fun s c => s.det.bbox = box c) (getActualDetections out thresh) selected := by
  induction h with
  | nil => exact ⟨[], .slnil, .nil⟩
  | @cons d c out cells hd hrest ih =>
      obtain ⟨selected, hsub, hboxes⟩ := ih
      rw [getActualDetections, List.filterMap_cons]
      cases hs : withBestClass thresh d with
      | none => exact ⟨selected, hsub.cons c, hboxes⟩
      | some s =>
          have hdet : s.det = d := by
            simp only [withBestClass, Option.ite_none_right_eq_some, Option.some.injEq] at hs
            rw [← hs.2]
          exact ⟨c :: selected, hsub.cons_cons c, .cons (hdet ▸ hd) hboxes⟩

-- Every reported box has a cell, and suppression neither changes boxes nor makes new ones.
theorem exists_reported_cells
    (h : getDetectBoxInfo qsort pow toInt net inputData heap srcW srcH = some infos) :
    ∃ new cells, scaledSize ℚ net.fpgaNetw net.fpgaNeth srcW srcH = some new ∧
      cells.Subperm (chosen net inputData net.thresh) ∧
      List.Forall₂ (fun info c => ∃ s : DetectionWithClass ℚ, info = boxInfo toInt srcW srcH s ∧
        s.det.bbox = unpadBox net.fpgaNetw net.fpgaNeth new.1 new.2 (c.netBox net inputData))
        infos cells := by
  obtain ⟨made, filled, out, hmade, hfilled, hout, rfl⟩ := getDetectBoxInfo_some h
  obtain ⟨new, hnew, hboxes⟩ := fillNetworkBoxes_bbox hmade hfilled
  have hperm : (out.map Detection.bbox).Perm (filled.map Detection.bbox) := by
    have hfst := (suppress_frame hout).map Prod.fst
    rwa [List.map_map, List.map_map] at hfst
  have hfilled' : List.Forall₂ (fun b c => b = unpadBox net.fpgaNetw net.fpgaNeth new.1 new.2
      (c.netBox net inputData)) (filled.map Detection.bbox) (chosen net inputData net.thresh) := by
    rw [hboxes, List.forall₂_map_left_iff]
    exact List.forall₂_same.mpr fun _ _ => rfl
  obtain ⟨cells, hcells, hchosen⟩ := List.perm_comp_forall₂ hperm hfilled'
  rw [List.forall₂_map_left_iff] at hcells
  obtain ⟨selected, hsub, hselected⟩ := exists_selected_cells hcells net.thresh
  refine ⟨new, selected, hnew, hsub.subperm.trans hchosen.subperm, ?_⟩
  rw [List.forall₂_map_left_iff]
  exact hselected.imp fun s c hs => ⟨s, rfl, hs⟩

theorem forall_mem_iff_of_forall₂ {α β : Type} {p : α → Prop} {q : β → Prop} {l : List α} {m : List β}
    (h : List.Forall₂ (fun a b => p a ↔ q b) l m) : (∀ a ∈ l, p a) ↔ ∀ b ∈ m, q b := by
  induction h with
  | nil => exact iff_of_true (fun _ h => nomatch h) fun _ h => nomatch h
  | cons hab _ ih => rw [List.forall_mem_cons, List.forall_mem_cons, hab, ih]

-- A reported box lies in the picture exactly if the box of its cell touches the picture.
theorem inside_iff_inPicture (hvalid : ValidOutput net inputData) (hsrc : 0 < srcW ∧ 0 < srcH)
    {new : Int × Int} (hnew : scaledSize ℚ net.fpgaNetw net.fpgaNeth srcW srcH = some new) {c : Cell}
    (hc : c ∈ chosen net inputData net.thresh) {s : DetectionWithClass ℚ}
    (hs : s.det.bbox = unpadBox net.fpgaNetw net.fpgaNeth new.1 new.2 (c.netBox net inputData)) :
    (new.1 ≠ 0 ∧ new.2 ≠ 0 ∧ Inside srcW srcH (boxInfo toInt srcW srcH s)) ↔
      InPicture net inputData srcW srcH new c := by
  have hnonneg := scaledSize_nonneg hvalid.fpgaNetw hvalid.fpgaNeth hsrc.1 hsrc.2 hnew
  have hbox := hvalid.netBox_nonneg (of_mem_taken hc).1
  have hiff : new.1 ≠ 0 → new.2 ≠ 0 → (Inside srcW srcH (boxInfo toInt srcW srcH s) ↔ _) :=
    fun hw hh => boxInfo_inside_iff ⟨hvalid.fpgaNetw, hvalid.fpgaNeth⟩ ⟨by omega, by omega⟩ hsrc hbox hs
  constructor
  · rintro ⟨hw, hh, hinside⟩
    obtain ⟨hacross, hdown⟩ := (hiff hw hh).mp hinside
    exact ⟨hw, hh, hacross, hdown⟩
  · intro h
    exact ⟨h.width, h.height, (hiff h.width h.height).mpr ⟨h.across, h.down⟩⟩

-- The reported boxes are those of some of the chosen cells. A box is inside exactly if its cell is in
-- the picture, so that all are inside exactly if all of these cells are.
theorem reported_inside_iff (hvalid : ValidOutput net inputData) (hsrcw : 1 ≤ srcW) (hsrch : 1 ≤ srcH)
    (h : getDetectBoxInfo qsort pow toInt net inputData heap srcW srcH = some infos) :
    ∃ new cells, scaledSize ℚ net.fpgaNetw net.fpgaNeth srcW srcH = some new ∧
      cells.Subperm (chosen net inputData net.thresh) ∧
      List.Forall₂ (fun info c => (∃ s : DetectionWithClass ℚ, info = boxInfo toInt srcW srcH s ∧
          s.det.bbox = unpadBox net.fpgaNetw net.fpgaNeth new.1 new.2 (c.netBox net inputData)) ∧
        (new.1 ≠ 0 ∧ new.2 ≠ 0 ∧ Inside srcW srcH info ↔ InPicture net inputData srcW srcH new c))
        infos cells ∧
      ((∀ info ∈ infos, new.1 ≠ 0 ∧ new.2 ≠ 0 ∧ Inside srcW srcH info) ↔
        ∀ c ∈ cells, InPicture net inputData srcW srcH new c) := by
  obtain ⟨new, cells, hnew, hsub, hcells⟩ := exists_reported_cells h
  have hiff : ∀ {info : NetDetect.BoxInfo2 ℚ} {c : Cell}, (info, c) ∈ infos.zip cells →
      (new.1 ≠ 0 ∧ new.2 ≠ 0 ∧ Inside srcW srcH info ↔ InPicture net inputData srcW srcH new c) := by
    intro info c hmem
    obtain ⟨s, rfl, hs⟩ := List.forall₂_zip hcells hmem
    exact inside_iff_inPicture hvalid ⟨hsrcw, hsrch⟩ hnew (hsub.subset (List.of_mem_zip hmem).2) hs
  refine ⟨new, cells, hnew, hsub, ?_, ?_⟩
  · exact List.forall₂_iff_zip.mpr
      ⟨hcells.length_eq, fun hmem => ⟨List.forall₂_zip hcells hmem, hiff hmem⟩⟩
  · exact forall_mem_iff_of_forall₂ (List.forall₂_iff_zip.mpr ⟨hcells.length_eq, hiff⟩)

end Reported

-- A picture twice as wide as high, in a square network. A quarter of the network is padding above it.
def paddedNet : NetDetect ℚ where
  maxBoxNum := 100
  thresh := 1 / 2
  iou := 1 / 2
  classNum := 1
  fpgaNetw := 100
  fpgaNeth := 100
  boxLen := 100
  anchorArr := fun _ => 10
  nmsType := .default
  betaNms := 3 / 5
  vecLayer := [{ netH := 4, netW := 4, netC := 256, outputSize := 16384, gridBoxNum := 1, mask := fun _ => 0 }]

-- One detection, in the first cell.
def cornerOutput (index : Int) : ℚ := if index = 4 ∨ index = 5 then 9 / 10 else 0

theorem validOutput_corner : ValidOutput paddedNet cornerOutput := by
  have hanchor : ∀ i, 0 < paddedNet.anchorArr i := fun _ => show (0 : Int) < 10 by decide
  refine ⟨by decide, by decide, fun _ _ => ⟨hanchor _, hanchor _⟩, ?_⟩
  intro c _ k _ _
  rw [cornerOutput]
  split <;> norm_num

-- What is reported for a picture of that shape.
theorem corner_reported :
    (getDetectBoxInfo (insertionQsort _) (fun x _ => x) toInt paddedNet cornerOutput
        (fun _ => zeroDet ℚ) 100 50).map
      (fun infos => infos.map fun info => [info.left, info.top, info.right, info.bottom]) =
        some [[0, 0, 0, -25]] := by decide +kernel

-- The detection of the first cell ends above the picture.
theorem corner_outside : ∃ infos info,
    getDetectBoxInfo (insertionQsort _) (fun x _ => x) toInt paddedNet cornerOutput (fun _ => zeroDet ℚ) 100 50 =
      some infos ∧ info ∈ infos ∧ ValidOutput paddedNet cornerOutput ∧ ¬ Inside 100 50 info := by
  obtain ⟨infos, hinfos, hsides⟩ := Option.map_eq_some_iff.mp corner_reported
  obtain ⟨info, hinfo, hside⟩ : ∃ info ∈ infos, [info.left, info.top, info.right, info.bottom] = [0, 0, 0, -25] := by
    apply List.mem_map.mp
    rw [hsides]
    exact List.mem_singleton.mpr rfl
  refine ⟨infos, info, hinfos, hinfo, validOutput_corner, ?_⟩
  intro h
  have hdown := h.down
  simp only [List.cons.injEq] at hside
  omega

theorem reported_inside_iff_corner : ∃ infos,
    getDetectBoxInfo (insertionQsort _) (fun x _ => x) toInt paddedNet cornerOutput (fun _ => zeroDet ℚ) 100 50 =
      some infos ∧
    ∃ new cells, scaledSize ℚ paddedNet.fpgaNetw paddedNet.fpgaNeth 100 50 = some new ∧
      cells.Subperm (chosen paddedNet cornerOutput paddedNet.thresh) ∧
      List.Forall₂ (fun info c => (∃ s : DetectionWithClass ℚ, info = boxInfo toInt 100 50 s ∧
          s.det.bbox = unpadBox paddedNet.fpgaNetw paddedNet.fpgaNeth new.1 new.2
            (c.netBox paddedNet cornerOutput)) ∧
        (new.1 ≠ 0 ∧ new.2 ≠ 0 ∧ Inside 100 50 info ↔ InPicture paddedNet cornerOutput 100 50 new c))
        infos cells ∧
      ((∀ info ∈ infos, new.1 ≠ 0 ∧ new.2 ≠ 0 ∧ Inside 100 50 info) ↔
        ∀ c ∈ cells, InPicture paddedNet cornerOutput 100 50 new c) := by
  obtain ⟨infos, hinfos, -⟩ := Option.map_eq_some_iff.mp corner_reported
  exact ⟨infos, hinfos, reported_inside_iff validOutput_corner (by decide) (by decide) hinfos⟩

end Vcu
