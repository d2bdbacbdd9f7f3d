import Mathlib.Tactic.Ring
import Vcu.YoloDetect.Frame
import Vcu.YoloDetect.Suppression

namespace Vcu

open Elimination NetDetect

section Kinds

variable {F : Type} [Zero F] [Add F] [Sub F] [Mul F] [Div F] [OfNat F 2] [LT F] [DecidableLT F] [BEq F]

-- The overlap that one kind of suppression does not allow.
def NmsKind.hits (kind : NmsKind) (pow : F → F → F) (thresh beta1 : F) (a b : Box F) : Bool :=
  match kind with
  | .default => false
  | .greedy => boxIou a b > thresh
  | .diou => boxDiounms pow a b beta1 > thresh
  | .corners => false

theorem diouStrike_eq (pow : F → F → F) (thresh beta1 : F) (kind : NmsKind) (k : Nat) (a b : Detection F) :
    diouStrike pow thresh kind beta1 k a b =
      Greedy.strike frame (fun u v => kind.hits pow thresh beta1 u.1 v.1)
        (fun d => { d with prob := Function.update d.prob k 0 }) a b := by
  rw [diouStrike, Greedy.strike]
  cases kind with
  | default => simp [NmsKind.hits]
  | greedy => simp [NmsKind.hits, frame]
  | diou => simp [NmsKind.hits, frame]
  | corners => simp [NmsKind.hits]

end Kinds

theorem boxDiounms_comm (pow : ℚ → ℚ → ℚ) (beta1 : ℚ) (a b : Box ℚ) :
    boxDiounms pow a b beta1 = boxDiounms pow b a beta1 := by
  have hmin : ∀ u v : ℚ, fmin u v = fmin v u := by
    intro u v
    rw [fmin, fmin]
    exact smaller_comm v u
  have hmax : ∀ u v : ℚ, fmax u v = fmax v u := by
    intro u v
    rw [fmax, fmax]
    exact greater_comm v u
  have hc : boxC a b = boxC b a := by
    simp only [boxC]
    rw [hmin (a.x - a.w / 2), hmax (a.x + a.w / 2), hmin (a.y - a.h / 2), hmax (a.y + a.h / 2)]
  have hd : (a.x - b.x) * (a.x - b.x) + (a.y - b.y) * (a.y - b.y) =
      (b.x - a.x) * (b.x - a.x) + (b.y - a.y) * (b.y - a.y) := by ring
  simp only [boxDiounms]
  rw [hc, hd, boxIou_comm]

theorem NmsKind.hits_comm (kind : NmsKind) (pow : ℚ → ℚ → ℚ) (thresh beta1 : ℚ) (a b : Box ℚ) :
    kind.hits pow thresh beta1 a b = kind.hits pow thresh beta1 b a := by
  cases kind with
  | default => rfl
  | greedy => simp only [hits, boxIou_comm]
  | diou => simp only [hits, boxDiounms_comm]
  | corners => rfl

section Rounds

variable {qsort : Qsort (Detection ℚ)} {pow : ℚ → ℚ → ℚ} {thresh beta1 : ℚ} {kind : NmsKind}
  {dets : List (Detection ℚ)} {k : Nat}

-- One iteration of the loop over the classes sweeps the sorted array.
theorem diouClass_eq (k : Nat) (dets : List (Detection ℚ)) :
    diouClass qsort pow thresh kind beta1 dets.length dets k =
      Greedy.sweep classContest.key (classContest.live k) (fun u v => kind.hits pow thresh beta1 u.1 v.1)
        (classContest.kill k)
        (qsort.sort nmsComparatorV3 (dets.map fun d => { d with sortClass := (k : Int) })) := by
  have hset := Counting.foldl_modify (fun d : Detection ℚ => { d with sortClass := (k : Int) }) [] dets []
  rw [List.length_nil, ← List.range_eq_range', List.nil_append, List.nil_append, List.append_nil,
    List.append_nil] at hset
  have hlen : (qsort.sort nmsComparatorV3
      (dets.map fun d => { d with sortClass := (k : Int) })).length = dets.length := by
    rw [(qsort.perm _ _).length_eq, List.length_map]
  have hsweep := Greedy.sweepLoop_eq (fun d : Detection ℚ => !(d.prob k == 0))
    (diouStrike_eq pow thresh beta1 kind k)
    (qsort.sort nmsComparatorV3 (dets.map fun d => { d with sortClass := (k : Int) })) []
  rw [hlen, List.append_nil, List.append_nil] at hsweep
  rw [diouClass, hset]
  simp only [List.take_of_length_le (Nat.le_of_eq (List.length_map _)),
    List.drop_of_length_le (Nat.le_of_eq (List.length_map _)), List.append_nil]
  exact hsweep

-- A run on detections that all have an object, for every kind of suppression.
theorem diounmsSort_rounds (qsort : Qsort (Detection ℚ)) (pow : ℚ → ℚ → ℚ) (classNum : Int)
    (thresh beta1 : ℚ) (kind : NmsKind) (hobj : ∀ d ∈ dets, d.objectness ≠ 0) :
    ∃ pairs out, diounmsSort qsort pow classNum dets dets.length thresh kind beta1 = some out ∧
      Elimination.Tracked classContest (fun u v => kind.hits pow thresh beta1 u.1 v.1) dets
        classNum.toNat pairs out := by
  obtain ⟨front, m, hpart, hperm, hm, -, htail⟩ := partition_total dets
  have hall : m = front.length := by
    by_contra hne
    have hlt : m < front.length := by omega
    have hmem : front[m] ∈ front.drop m := List.mem_drop_iff_getElem.mpr ⟨0, by simpa using hlt, by simp⟩
    exact hobj _ (hperm.mem_iff.mp (List.getElem_mem hlt)) (beq_iff_eq.mp (htail _ hmem))
  have hsymm : ∀ u v : Box ℚ × ℚ × Int,
      kind.hits pow thresh beta1 u.1 v.1 = kind.hits pow thresh beta1 v.1 u.1 :=
    fun u v => kind.hits_comm pow thresh beta1 u.1 v.1
  have hround : ∀ (l : List (Detection ℚ)) (k : Nat), l.length = front.length →
      ∃ sorted, Arranged classContest k l sorted ∧
        diouClass qsort pow thresh kind beta1 front.length l k =
          Greedy.sweep classContest.key (classContest.live k)
            (fun u v => kind.hits pow thresh beta1 u.1 v.1) (classContest.kill k) sorted := by
    intro l k hl
    refine ⟨_, arranged_qsort qsort k l, ?_⟩
    rw [← hl]
    exact diouClass_eq k l
  obtain ⟨pairs, h⟩ := exists_tracked hsymm hround classNum.toNat
  refine ⟨pairs, _, ?_, h.fst.trans hperm, h.snd, h.kept, h.decided⟩
  have htotal : ((m : Int) - 1 + 1).toNat = front.length := by omega
  rw [diounmsSort, hpart, Option.map_some]
  simp only [htotal]

end Rounds

section BestClass

variable {thresh : ℚ} {d : Detection ℚ}

-- The classes below `n` have been looked at.
structure Best (thresh : ℚ) (prob : Nat → ℚ) (n : Nat) (best : Int × ℚ) : Prop where
  le : ∀ j < n, prob j ≤ best.2
  found : best = (-1, thresh) ∨ ∃ j < n, best = ((j : Int), prob j) ∧ thresh < prob j ∧
    ∀ i < j, prob i < prob j

theorem best_loop (thresh : ℚ) (prob : Nat → ℚ) (n : Nat) :
    Best thresh prob n ((List.range n).foldl (fun best j =>
      if prob j > best.2 then ((j : Int), prob j) else best) (-1, thresh)) := by
  induction n with
  | zero => exact ⟨nofun, .inl rfl⟩
  | succ n ih =>
      rw [List.range_succ, List.foldl_append, List.foldl_cons, List.foldl_nil]
      generalize (List.range n).foldl (fun best j =>
        if prob j > best.2 then ((j : Int), prob j) else best) (-1, thresh) = best at ih
      obtain ⟨hle, hfound⟩ := ih
      have hthresh : thresh ≤ best.2 := by
        rcases hfound with rfl | ⟨j, -, rfl, hlt, -⟩
        · exact le_refl _
        · exact hlt.le
      split
      · rename_i hlt
        refine ⟨?_, .inr ⟨n, Nat.lt_succ_self n, rfl, lt_of_le_of_lt hthresh hlt, ?_⟩⟩
        · intro j hj
          rcases Nat.lt_succ_iff_lt_or_eq.mp hj with hj | rfl
          · exact (hle j hj).trans hlt.le
          · exact le_refl _
        · exact fun i hi => lt_of_le_of_lt (hle i hi) hlt
      · rename_i hge
        refine ⟨?_, hfound.imp id ?_⟩
        · intro j hj
          rcases Nat.lt_succ_iff_lt_or_eq.mp hj with hj | rfl
          · exact hle j hj
          · exact not_lt.mp hge
        · rintro ⟨j, hj, hrest⟩
          exact ⟨j, Nat.lt_succ_of_lt hj, hrest⟩

-- The class with the highest score above the threshold, the first of them if there are more.
theorem withBestClass_some {s : DetectionWithClass ℚ} (h : withBestClass thresh d = some s) :
    s.det = d ∧ ∃ j : Nat, j < d.classes ∧ s.bestClass = j ∧ thresh < d.prob j ∧
      (∀ i : Nat, i < d.classes → d.prob i ≤ d.prob j) ∧ ∀ i < j, d.prob i < d.prob j := by
  have hbest := best_loop thresh d.prob d.classes.toNat
  rw [withBestClass, bestClass, Counting.loop] at h
  split at h
  · rename_i hnonneg
    obtain rfl := Option.some.inj h
    refine ⟨rfl, ?_⟩
    rcases hbest.found with hnone | ⟨j, hj, hfound, hlt, hfirst⟩
    · rw [hnone] at hnonneg
      cases hnonneg
    · refine ⟨j, Int.lt_toNat.mp hj, by rw [hfound], hlt, ?_, hfirst⟩
      intro i hi
      have := hbest.le i (Int.lt_toNat.mpr hi)
      rwa [hfound] at this
  · cases h

theorem withBestClass_none (h : withBestClass thresh d = none) {j : Nat} (hj : j < d.classes) :
    d.prob j ≤ thresh := by
  have hbest := best_loop thresh d.prob d.classes.toNat
  rw [withBestClass, bestClass, Counting.loop] at h
  split at h
  · cases h
  · rename_i hneg
    rcases hbest.found with hnone | ⟨k, -, hfound, -⟩
    · have := hbest.le j (Int.lt_toNat.mpr hj)
      rwa [hnone] at this
    · rw [hfound] at hneg
      exact absurd (Int.natCast_nonneg k) hneg

end BestClass

-- The detection that fillNetworkBoxes makes of a cell, over memory that is zero.
def cellDetection {F : Type} [Zero F] [One F] [Add F] [Sub F] [Mul F] [Div F] [OfNat F 2] [IntCast F] [LT F]
    [DecidableLT F] (net : NetDetect F) (inputData : Int → F) (new : Int × Int) (c : Cell) : Detection F :=
  let d := writeBox net inputData net.thresh c.layer c.pData c.loc c.n (zeroDet F)
  { d with bbox := unpadBox net.fpgaNetw net.fpgaNeth new.1 new.2 d.bbox }

-- Whatever was in memory, the detection of a cell has its box and its scores.
structure FromCell (net : NetDetect ℚ) (inputData : Int → ℚ) (new : Int × Int) (d : Detection ℚ) (c : Cell) :
    Prop where
  frame : frame d = frame (cellDetection net inputData new c)
  prob : ∀ k : Nat, k < net.classNum → d.prob k = (cellDetection net inputData new c).prob k

section Report

variable {qsort : Qsort (Detection ℚ)} {pow : ℚ → ℚ → ℚ} {toInt : ℚ → Int} {net : NetDetect ℚ}
  {inputData : Int → ℚ} {heap : Nat → Detection ℚ} {srcW srcH : Int} {new : Int × Int} {c : Cell}
  {dets out : List (Detection ℚ)} {d : Detection ℚ} {info : NetDetect.BoxInfo2 ℚ}

theorem fillNetworkBoxes_cells (hmake : makeNetworkBoxes net inputData net.thresh heap = some dets)
    (hfill : fillNetworkBoxes net inputData srcW srcH net.thresh dets = some out) :
    ∃ new, scaledSize ℚ net.fpgaNetw net.fpgaNeth srcW srcH = some new ∧
      List.Forall₂ (FromCell net inputData new) out (chosen net inputData net.thresh) := by
  have hlen := makeNetworkBoxes_length hmake
  rw [fillNetworkBoxes_eq hmake] at hfill
  obtain ⟨new, hnew, rfl⟩ := Option.map_eq_some_iff.mp hfill
  refine ⟨new, hnew, List.forall₂_iff_get.mpr ⟨by simp [hlen], ?_⟩⟩
  intro i h1 h2
  simp only [List.get_eq_getElem, List.getElem_map, List.getElem_zipWith]
  refine ⟨rfl, fun k hk => ?_⟩
  simp only [cellDetection, writeBox, hk, if_true]

-- A score is above the threshold or zero.
theorem cellDetection_prob (k : Nat) : (cellDetection net inputData new c).prob k = 0 ∨
    net.thresh < (cellDetection net inputData new c).prob k := by
  simp only [cellDetection, writeBox]
  split
  · split
    · rename_i hlt
      exact .inr hlt
    · exact .inl rfl
  · exact .inl rfl

-- A detection behind the suppression, and the cell that it comes from.
structure Remains (net : NetDetect ℚ) (inputData : Int → ℚ) (new : Int × Int) (d : Detection ℚ) (c : Cell) :
    Prop where
  frame : frame d = frame (cellDetection net inputData new c)
  prob : ∀ k : Nat, k < net.classNum →
    d.prob k = (cellDetection net inputData new c).prob k ∨ d.prob k = 0

def report (net : NetDetect ℚ) (toInt : ℚ → Int) (srcW srcH : Int) (d : Detection ℚ) :
    Option (NetDetect.BoxInfo2 ℚ) :=
  (withBestClass net.thresh d).map (boxInfo toInt srcW srcH)

theorem Remains.classes (h : Remains net inputData new d c) : d.classes = net.classNum :=
  congrArg (fun f => f.2.2) h.frame

theorem Remains.alive (h : Remains net inputData new d c) {k : Nat} (hk : k < net.classNum)
    (halive : d.prob k ≠ 0) : d.prob k = (cellDetection net inputData new c).prob k ∧
      net.thresh < d.prob k := by
  have hsame := (h.prob k hk).resolve_right halive
  refine ⟨hsame, ?_⟩
  rw [hsame] at halive ⊢
  exact (cellDetection_prob k).resolve_left halive

-- The box that is reported for a cell is that of its best class that is left.
theorem Remains.report_some (h : Remains net inputData new d c) (hthresh : 0 ≤ net.thresh)
    (hreport : report net toInt srcW srcH d = some info) :
    ∃ j : Nat, j < net.classNum ∧ net.thresh < (cellDetection net inputData new c).prob j ∧
      info = boxInfo toInt srcW srcH { det := cellDetection net inputData new c, bestClass := j } ∧
      d.prob j ≠ 0 ∧ (∀ i : Nat, i < net.classNum → d.prob i ≤ info.score) ∧
      ∀ i < j, d.prob i < info.score := by
  obtain ⟨s, hs, rfl⟩ := Option.map_eq_some_iff.mp hreport
  obtain ⟨rfl, j, hj, hbest, hlt, hmax, hfirst⟩ := withBestClass_some hs
  rw [h.classes] at hj hmax
  have halive : s.det.prob j ≠ 0 := ne_of_gt (lt_of_le_of_lt hthresh hlt)
  have hsame := (h.alive hj halive).1
  have hscore : (boxInfo toInt srcW srcH s).score = s.det.prob j := by
    simp only [boxInfo, hbest, Int.toNat_natCast]
  refine ⟨j, hj, hsame ▸ hlt, ?_, halive, by rwa [hscore], by rwa [hscore]⟩
  have hbbox : s.det.bbox = (cellDetection net inputData new c).bbox := congrArg Prod.fst h.frame
  simp only [boxInfo, hbest, hbbox, Int.toNat_natCast, hsame]

theorem Remains.reported (h : Remains net inputData new d c) {k : Nat} (hk : k < net.classNum)
    (halive : d.prob k ≠ 0) : ∃ info, report net toInt srcW srcH d = some info := by
  cases hbest : withBestClass net.thresh d with
  | some s => exact ⟨boxInfo toInt srcW srcH s, by rw [report, hbest, Option.map_some]⟩
  | none =>
      have hle := withBestClass_none hbest (j := k) (by rwa [h.classes])
      exact absurd (h.alive hk halive).2 (not_lt.mpr hle)

-- A class that would have been reported in the place of what was is one that the cell has lost.
theorem Remains.lost (h : Remains net inputData new d c) (hthresh : 0 ≤ net.thresh) {k : Nat}
    (hk : k < net.classNum)
    (hbetter : ∀ info, report net toInt srcW srcH d = some info →
      info.score < (cellDetection net inputData new c).prob k ∨
        info.score = (cellDetection net inputData new c).prob k ∧ k < info.classNo) :
    d.prob k = 0 := by
  by_contra halive
  obtain ⟨info, hinfo⟩ : ∃ info, report net toInt srcW srcH d = some info := h.reported hk halive
  obtain ⟨j, -, -, hbox, -, hmax, hfirst⟩ := h.report_some hthresh hinfo
  rcases hbetter info hinfo with hlt | ⟨hsame, hearlier⟩
  · rw [← (h.alive hk halive).1] at hlt
    exact absurd (hmax k hk) (not_le.mpr hlt)
  · have hno : info.classNo = j := by rw [hbox]; rfl
    rw [hno] at hearlier
    have hless := hfirst k (by omega)
    rw [(h.alive hk halive).1, hsame] at hless
    exact lt_irrefl _ hless

-- The entries behind the suppression, each before and after it and with its cell.
theorem suppress_cells (hthresh : 0 ≤ net.thresh)
    (hmake : makeNetworkBoxes net inputData net.thresh heap = some dets) {filled : List (Detection ℚ)}
    (hfill : fillNetworkBoxes net inputData srcW srcH net.thresh dets = some filled)
    (hrun : suppress qsort pow net dets.length filled = some out) :
    ∃ new pairs cells, scaledSize ℚ net.fpgaNetw net.fpgaNeth srcW srcH = some new ∧
      cells.Perm (chosen net inputData net.thresh) ∧
      List.Forall₂ (fun p c => FromCell net inputData new p.1 c ∧ Remains net inputData new p.2 c)
        pairs cells ∧
      Elimination.Tracked classContest (fun u v => net.kind.hits pow net.iou net.betaNms u.1 v.1) filled
        net.classNum.toNat pairs out := by
  obtain ⟨new, hnew, hcells⟩ := fillNetworkBoxes_cells hmake hfill
  have hobj : ∀ d ∈ filled, d.objectness ≠ 0 := by
    intro d hd
    obtain ⟨new, -, c, hc, e, f, rfl, rfl⟩ := mem_fillNetworkBoxes hmake hfill hd
    have hlt := of_decide_eq_true (Counting.of_mem_taken hc).2
    exact ne_of_gt (lt_of_le_of_lt hthresh hlt)
  have hlen : filled.length = dets.length := by
    rw [fillNetworkBoxes_length hmake hfill, makeNetworkBoxes_length hmake]
  rw [suppress_eq, ← hlen] at hrun
  obtain ⟨pairs, out', hout, htracked⟩ :=
    diounmsSort_rounds qsort pow net.classNum net.iou net.betaNms net.kind hobj
  obtain rfl := Option.some.inj (hout.symm.trans hrun)
  obtain ⟨cells, hfrom, hperm⟩ := List.perm_comp_forall₂ htracked.fst hcells
  refine ⟨new, pairs, cells, hnew, hperm, ?_, htracked⟩
  rw [List.forall₂_map_left_iff] at hfrom
  refine List.forall₂_iff_zip.mpr ⟨hfrom.length_eq, ?_⟩
  intro p c hpc
  have hc := (List.forall₂_iff_zip.mp hfrom).2 hpc
  have hkept := htracked.kept p (List.of_mem_zip hpc).1
  refine ⟨hc, hkept.key.trans hc.frame, ?_⟩
  intro k hk
  rw [← hc.prob k hk]
  exact hkept.score k

end Report

-- The boxes of a frame, for every kind of suppression. Every entry is a cell above the threshold with
-- the box that is reported for it, if there is one.
theorem detections_reported (qsort : Qsort (Detection ℚ)) (pow : ℚ → ℚ → ℚ) (toInt : ℚ → Int)
    (net : NetDetect ℚ) (inputData : Int → ℚ) (heap : Nat → Detection ℚ) (srcW srcH : Int)
    (infos : List (NetDetect.BoxInfo2 ℚ)) (hthresh : 0 ≤ net.thresh)
    (h : getDetectBoxInfo qsort pow toInt net inputData heap srcW srcH = some infos) :
    ∃ (new : Int × Int) (entries : List (Cell × Option (NetDetect.BoxInfo2 ℚ))),
      scaledSize ℚ net.fpgaNetw net.fpgaNeth srcW srcH = some new ∧
      (entries.map Prod.fst).Perm (chosen net inputData net.thresh) ∧
      entries.filterMap Prod.snd = infos ∧
      (∀ c info, (c, some info) ∈ entries → ∃ k : Nat, k < net.classNum ∧
        net.thresh < (cellDetection net inputData new c).prob k ∧
        info = boxInfo toInt srcW srcH { det := cellDetection net inputData new c, bestClass := k }) ∧
      (entries.Pairwise fun e f => ∀ i j, e.2 = some i → f.2 = some j → i.classNo = j.classNo →
        net.kind.hits pow net.iou net.betaNms (cellDetection net inputData new e.1).bbox
          (cellDetection net inputData new f.1).bbox = false) ∧
      ∀ e ∈ entries, ∀ k : Nat, k < net.classNum →
        net.thresh < (cellDetection net inputData new e.1).prob k →
        (∀ info, e.2 = some info → info.score < (cellDetection net inputData new e.1).prob k ∨
          info.score = (cellDetection net inputData new e.1).prob k ∧ k < info.classNo) →
        ∃ f ∈ entries, f.2.isSome ∧
          (cellDetection net inputData new e.1).prob k ≤ (cellDetection net inputData new f.1).prob k ∧
          net.kind.hits pow net.iou net.betaNms (cellDetection net inputData new f.1).bbox
            (cellDetection net inputData new e.1).bbox = true := by
  obtain ⟨made, filled, out, hmade, hfilled, hout, rfl⟩ := getDetectBoxInfo_some h
  obtain ⟨new, pairs, cells, hnew, hperm, hcells, htracked⟩ :=
    suppress_cells hthresh hmade hfilled hout
  obtain ⟨hlen, hzip⟩ := List.forall₂_iff_zip.mp hcells
  have hfst : (pairs.zip cells).map Prod.fst = pairs := List.map_fst_zip (Nat.le_of_eq hlen)
  have hsnd : (pairs.zip cells).map Prod.snd = cells := List.map_snd_zip (Nat.le_of_eq hlen.symm)
  have hbbox : ∀ t ∈ pairs.zip cells, t.1.2.bbox = (cellDetection net inputData new t.2).bbox :=
    fun t ht => congrArg Prod.fst (hzip ht).2.frame
  refine ⟨new, (pairs.zip cells).map fun t => (t.2, report net toInt srcW srcH t.1.2), hnew, ?_, ?_,
    ?_, ?_, ?_⟩
  · rw [List.map_map]
    exact (List.Perm.of_eq hsnd).trans hperm
  · have hreports : (pairs.zip cells).filterMap (fun t => report net toInt srcW srcH t.1.2) =
        ((pairs.zip cells).map Prod.fst).filterMap fun p => report net toInt srcW srcH p.2 := by
      rw [List.filterMap_map]
      rfl
    rw [List.filterMap_map, getActualDetections, List.map_filterMap, ← htracked.snd, List.filterMap_map]
    rw [hfst] at hreports
    exact hreports
  · intro c info hmem
    obtain ⟨t, ht, heq⟩ := List.mem_map.mp hmem
    obtain ⟨rfl, hreport⟩ := Prod.mk.inj heq
    obtain ⟨j, hj, hlt, hbox, -⟩ := (hzip ht).2.report_some hthresh hreport
    exact ⟨j, hj, hlt, hbox⟩
  · -- two boxes of one class have both kept their score for it
    have hapart : pairs.Pairwise fun p q => ∀ k : Nat, k < net.classNum → p.2.prob k ≠ 0 →
        q.2.prob k ≠ 0 → net.kind.hits pow net.iou net.betaNms p.2.bbox q.2.bbox = false := by
      rw [List.pairwise_iff_getElem]
      intro i j hi hj hij k hk
      exact List.pairwise_iff_getElem.mp (htracked.decided k (Int.lt_toNat.mpr hk)).apart i j hi hj hij
    rw [← hfst, List.pairwise_map] at hapart
    refine List.pairwise_map.mpr (hapart.imp_of_mem ?_)
    intro t u ht hu htu i j hi hj hclass
    obtain ⟨k, hk, -, rfl, halive, -⟩ := (hzip ht).2.report_some hthresh hi
    obtain ⟨k', -, -, rfl, halive', -⟩ := (hzip hu).2.report_some hthresh hj
    obtain rfl : k = k' := Int.ofNat_inj.mp hclass
    rw [← hbbox t ht, ← hbbox u hu]
    exact htu k hk halive halive'
  · intro e he k hk hlt hbetter
    obtain ⟨t, ht, rfl⟩ := List.mem_map.mp he
    obtain ⟨hfrom, hremains⟩ := hzip ht
    have hdead := hremains.lost hthresh hk hbetter
    have hbefore : t.1.1.prob k ≠ 0 := by
      rw [hfrom.prob k hk]
      exact ne_of_gt (lt_of_le_of_lt hthresh hlt)
    obtain ⟨q, hq, hqalive, hle, hhit⟩ :=
      (htracked.decided k (Int.lt_toNat.mpr hk)).struck t.1 (List.of_mem_zip ht).1 hbefore hdead
    rw [← hfst] at hq
    obtain ⟨u, hu, rfl⟩ := List.mem_map.mp hq
    obtain ⟨info, hinfo⟩ : ∃ info, report net toInt srcW srcH u.1.2 = some info :=
      (hzip hu).2.reported hk hqalive
    refine ⟨_, List.mem_map_of_mem hu, by rw [hinfo]; rfl, ?_, ?_⟩
    · rw [← hfrom.prob k hk, ← (hzip hu).1.prob k hk]
      exact hle
    · rw [← hbbox t ht, ← hbbox u hu]
      exact hhit

-- Two cells in a row, with boxes that overlap.
def rowNet : NetDetect ℚ where
  maxBoxNum := 10
  thresh := 1 / 4
  iou := 1 / 10
  classNum := 1
  fpgaNetw := 2
  fpgaNeth := 1
  boxLen := 100
  anchorArr := fun _ => 2
  nmsType := .diou
  betaNms := 3 / 5
  vecLayer := [{ netH := 1, netW := 2, netC := 85, outputSize := 680, gridBoxNum := 1, mask := fun _ => 0 }]

def rowOutput (index : Int) : ℚ := if index % 85 = 4 then 9 / 10 else 1 / 2

-- One of the two is struck.
theorem row_reported :
    (getDetectBoxInfo (insertionQsort _) (fun x _ => x) toInt rowNet rowOutput (fun _ => zeroDet ℚ) 20 10).map
      (fun infos => infos.map fun info => [info.left, info.top, info.right, info.bottom]) =
        some [[0, 0, 15, 9]] := by decide +kernel

theorem detections_reported_row : ∃ infos,
    getDetectBoxInfo (insertionQsort _) (fun x _ => x) toInt rowNet rowOutput (fun _ => zeroDet ℚ) 20 10 =
      some infos ∧
    ∃ (new : Int × Int) (entries : List (Cell × Option (NetDetect.BoxInfo2 ℚ))),
      (entries.map Prod.fst).Perm (chosen rowNet rowOutput rowNet.thresh) ∧
      entries.filterMap Prod.snd = infos ∧
      entries.Pairwise fun e f => ∀ i j, e.2 = some i → f.2 = some j → i.classNo = j.classNo →
        rowNet.kind.hits (fun x _ => x) rowNet.iou rowNet.betaNms (cellDetection rowNet rowOutput new e.1).bbox
          (cellDetection rowNet rowOutput new f.1).bbox = false := by
  obtain ⟨infos, hinfos, -⟩ := Option.map_eq_some_iff.mp row_reported
  obtain ⟨new, entries, -, hperm, hreported, -, hapart, -⟩ := detections_reported (insertionQsort _)
    (fun x _ => x) toInt rowNet rowOutput (fun _ => zeroDet ℚ) 20 10 infos (by decide +kernel) hinfos
  exact ⟨infos, hinfos, new, entries, hperm, hreported, hapart⟩

end Vcu
