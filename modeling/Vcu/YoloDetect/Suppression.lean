import Mathlib.Algebra.Order.Ring.Rat
import Mathlib.Data.List.Perm.Basic
import Mathlib.Data.List.Sort
import Mathlib.Tactic.Linarith
import Vcu.Lib.Elimination
import Vcu.YoloDetect.Partition

namespace Vcu

open Elimination

section Iou

theorem greater_comm (a b : ℚ) : (if a > b then a else b) = if b > a then b else a := by
  rcases lt_trichotomy a b with h | rfl | h
  · rw [if_neg (not_lt.mpr h.le), if_pos h]
  · rfl
  · rw [if_pos h, if_neg (not_lt.mpr h.le)]

theorem smaller_comm (a b : ℚ) : (if a < b then a else b) = if b < a then b else a := by
  rcases lt_trichotomy a b with h | rfl | h
  · rw [if_pos h, if_neg (not_lt.mpr h.le)]
  · rfl
  · rw [if_neg (not_lt.mpr h.le), if_pos h]

theorem overlap_comm (x1 w1 x2 w2 : ℚ) : overlap x1 w1 x2 w2 = overlap x2 w2 x1 w1 := by
  simp only [overlap]
  rw [greater_comm, smaller_comm]

theorem boxIou_comm (a b : Box ℚ) : boxIou a b = boxIou b a := by
  have hi : boxIntersection a b = boxIntersection b a := by
    simp only [boxIntersection]
    rw [overlap_comm a.x, overlap_comm a.y]
  have hu : boxUnion a b = boxUnion b a := by
    simp only [boxUnion]
    rw [hi, add_comm (a.w * a.h)]
  simp only [boxIou]
  rw [hi, hu]

end Iou

section Comparator

variable {a b : Detection ℚ} {k : Nat}

-- On an array whose sort_class is `k` throughout, the comparator sorts by falling score.
theorem nmsComparator_eq (hb : b.sortClass = k) :
    nmsComparatorV3 a b =
      if a.prob k < b.prob k then 1 else if b.prob k < a.prob k then -1 else 0 := by
  have hk : (0 : Int) ≤ k := by omega
  simp only [nmsComparatorV3, hb, ge_iff_le, hk, if_true, Int.toNat_natCast, sub_neg, gt_iff_lt,
    sub_pos]

theorem nmsComparator_pos (hb : b.sortClass = k) :
    0 < nmsComparatorV3 a b ↔ a.prob k < b.prob k := by
  rw [nmsComparator_eq hb]
  by_cases h : a.prob k < b.prob k
  · simp [h]
  · by_cases h' : b.prob k < a.prob k
    · simp [h, h']
    · simp [h, h']

theorem nmsComparator_neg (hb : b.sortClass = k) :
    nmsComparatorV3 a b < 0 ↔ b.prob k < a.prob k := by
  rw [nmsComparator_eq hb]
  by_cases h : b.prob k < a.prob k
  · simp [h, not_lt.mpr h.le]
  · by_cases h' : a.prob k < b.prob k
    · simp [h, h']
    · simp [h, h']

theorem nmsComparator_le (hb : b.sortClass = k) :
    nmsComparatorV3 a b ≤ 0 ↔ b.prob k ≤ a.prob k := by
  rw [← not_lt, nmsComparator_pos hb, not_lt]

theorem comparable_of_sortClass {base : List (Detection ℚ)} (h : ∀ d ∈ base, d.sortClass = k) :
    Comparable nmsComparatorV3 base := by
  refine ⟨?_, ?_⟩
  · intro a ha b hb
    rw [nmsComparator_pos (h b hb), nmsComparator_neg (h a ha)]
  · intro a ha b hb c hc hab hbc
    rw [nmsComparator_le (h b hb)] at hab
    rw [nmsComparator_le (h c hc)] at hbc ⊢
    exact hbc.trans hab

end Comparator

section Contest

-- The classes are the rounds.
def classContest : Contest (Detection ℚ) (Box ℚ × ℚ × Int) ℚ where
  key := frame
  score k d := d.prob k
  mark k d := { d with sortClass := k }
  kill k d := { d with prob := Function.update d.prob k 0 }
  key_mark _ _ := rfl
  score_mark _ _ _ := rfl
  key_kill _ _ := rfl
  score_kill k d := Function.update_self k 0 d.prob
  score_kill_of_ne _ _ d h := Function.update_of_ne h 0 d.prob
  kill_idle k d h := by rw [← h, Function.update_eq_self]

theorem arranged_qsort (qsort : Qsort (Detection ℚ)) (k : Nat) (dets : List (Detection ℚ)) :
    Arranged classContest k dets
      (qsort.sort nmsComparatorV3 (dets.map fun d => { d with sortClass := (k : Int) })) := by
  have hclass : ∀ d ∈ dets.map fun d => { d with sortClass := (k : Int) }, d.sortClass = (k : Int) := by
    intro d hd
    obtain ⟨d', -, rfl⟩ := List.mem_map.mp hd
    rfl
  have hperm := qsort.perm nmsComparatorV3 (dets.map fun d => { d with sortClass := (k : Int) })
  refine ⟨hperm, (qsort.sorted nmsComparatorV3 _ (comparable_of_sortClass hclass)).imp_of_mem ?_⟩
  intro a b _ hb hab
  exact (nmsComparator_le (hclass b (hperm.mem_iff.mp hb))).mp hab

-- The overlap that the greedy suppression does not allow.
def iouHits (thresh : ℚ) (u v : Box ℚ × ℚ × Int) : Bool := boxIou u.1 v.1 > thresh

theorem iouHits_comm (thresh : ℚ) (u v : Box ℚ × ℚ × Int) : iouHits thresh u v = iouHits thresh v u := by
  rw [iouHits, iouHits, boxIou_comm]

end Contest

-- A detection before and after the suppression.
abbrev Tracked := Detection ℚ × Detection ℚ

-- The scores of one detection, with the classes below `k` settled.
structure Scored (k : Nat) (p : Tracked) : Prop where
  bbox : p.2.bbox = p.1.bbox
  objectness : p.2.objectness = p.1.objectness
  classes : p.2.classes = p.1.classes
  score : ∀ c, p.2.prob c = p.1.prob c ∨ p.2.prob c = 0
  later : ∀ c, k ≤ c → p.2.prob c = p.1.prob c

theorem Scored.of_kept {k : Nat} {p : Tracked} (h : Elimination.Kept classContest k p) : Scored k p := by
  obtain ⟨hbbox, hrest⟩ := Prod.mk.inj h.key
  obtain ⟨hobjectness, hclasses⟩ := Prod.mk.inj hrest
  exact ⟨hbbox, hobjectness, hclasses, h.score, h.later⟩

section Loop

variable {thresh : ℚ} {qsort : Qsort (Detection ℚ)} {k : Nat} {head : List (Detection ℚ)}

theorem length_nmsHead : (nmsHead qsort thresh k head).length = head.length := by
  rw [nmsHead, Greedy.length_sweep, (qsort.perm _ _).length_eq, List.length_map]

-- The sweep reads the whole frame of a detection, though only its box decides.
theorem nmsHead_eq : nmsHead qsort thresh k head =
    Greedy.sweep classContest.key (classContest.live k) (iouHits thresh) (classContest.kill k)
      (qsort.sort nmsComparatorV3 (head.map fun d => { d with sortClass := (k : Int) })) := by
  rw [nmsHead]
  refine Greedy.sweep_congr ?_ _
  intro a b
  rfl

theorem nmsClass_append (tail : List (Detection ℚ)) :
    nmsClass qsort thresh head.length (head ++ tail) k = nmsHead qsort thresh k head ++ tail := by
  rw [nmsClass, List.take_left, List.drop_left]

-- The outer loop never touches the detections behind the total.
theorem foldl_nmsClass (qsort : Qsort (Detection ℚ)) (thresh : ℚ) (head tail : List (Detection ℚ)) (n : Nat) :
    (List.range n).foldl (nmsClass qsort thresh head.length) (head ++ tail) =
        (List.range n).foldl (fun l k => nmsHead qsort thresh k l) head ++ tail ∧
      ((List.range n).foldl (fun l k => nmsHead qsort thresh k l) head).length = head.length := by
  induction n with
  | zero => exact ⟨rfl, rfl⟩
  | succ n ih =>
      obtain ⟨hrun, hlen⟩ := ih
      rw [List.range_succ, List.foldl_append, List.foldl_append, hrun]
      simp only [List.foldl_cons, List.foldl_nil]
      refine ⟨?_, length_nmsHead.trans hlen⟩
      rw [← hlen]
      exact nmsClass_append tail

theorem nmsHead_tracked (qsort : Qsort (Detection ℚ)) (thresh : ℚ) (head : List (Detection ℚ)) (n : Nat) :
    ∃ pairs, Elimination.Tracked classContest (iouHits thresh) head n pairs
      ((List.range n).foldl (fun l k => nmsHead qsort thresh k l) head) := by
  have hround : ∀ (l : List (Detection ℚ)) (k : Nat), l.length = head.length →
      ∃ m, Arranged classContest k l m ∧ nmsHead qsort thresh k l =
        Greedy.sweep classContest.key (classContest.live k) (iouHits thresh) (classContest.kill k) m := by
    intro l k _
    exact ⟨_, arranged_qsort qsort k l, nmsHead_eq⟩
  exact exists_tracked (iouHits_comm thresh) hround n

end Loop

section Tail

variable {thresh : ℚ} {c k : Nat} {pairs : List Tracked} {tail : List (Detection ℚ)}

-- The statement for one class about the whole array. Detections without an object take no part.
structure ClassCorrect (thresh : ℚ) (c : Nat) (pairs : List Tracked) : Prop where
  apart : pairs.Pairwise fun p q => p.2.objectness ≠ 0 → q.2.objectness ≠ 0 →
    p.2.prob c ≠ 0 → q.2.prob c ≠ 0 → boxIou p.2.bbox q.2.bbox ≤ thresh
  struck : ∀ p ∈ pairs, p.2.objectness ≠ 0 → p.1.prob c ≠ 0 → p.2.prob c = 0 →
    ∃ q ∈ pairs, q.2.objectness ≠ 0 ∧ q.2.prob c ≠ 0 ∧ p.1.prob c ≤ q.2.prob c ∧
      thresh < boxIou q.2.bbox p.2.bbox

theorem classCorrect_of_decided (h : Decided classContest (iouHits thresh) c pairs)
    (hscored : ∀ p ∈ pairs, Scored k p) (hhead : ∀ p ∈ pairs, p.2.objectness ≠ 0)
    (htail : ∀ d ∈ tail, d.objectness = 0) :
    ClassCorrect thresh c (pairs ++ tail.map fun d => (d, d)) := by
  have hzero : ∀ p ∈ tail.map fun d => (d, d), p.2.objectness = 0 := by
    intro p hp
    obtain ⟨d, hd, rfl⟩ := List.mem_map.mp hp
    exact htail d hd
  refine ⟨List.pairwise_append.mpr ⟨?_, ?_, ?_⟩, ?_⟩
  · exact h.apart.imp fun hpq _ _ hp hq => not_lt.mp (of_decide_eq_false (hpq hp hq))
  · refine List.pairwise_of_forall_mem_list ?_
    intro p hp q _ hpo
    exact absurd (hzero p hp) hpo
  · intro p _ q hq _ hqo
    exact absurd (hzero q hq) hqo
  · intro p hp hpo hbefore hafter
    rcases List.mem_append.mp hp with hp | hp
    · obtain ⟨q, hq, hlive, hle, hhit⟩ := h.struck p hp hbefore hafter
      have hsame : q.2.prob c = q.1.prob c := ((hscored q hq).score c).resolve_right hlive
      exact ⟨q, List.mem_append_left _ hq, hhead q hq, hlive, by rw [hsame]; exact hle, of_decide_eq_true hhit⟩
    · exact absurd (hzero p hp) hpo

theorem ClassCorrect.apart_of_ne (h : ClassCorrect thresh c pairs) {i j : Nat} {p q : Tracked}
    (hij : i ≠ j) (hp : pairs[i]? = some p) (hq : pairs[j]? = some q) (hpo : p.2.objectness ≠ 0)
    (hqo : q.2.objectness ≠ 0) (hpl : p.2.prob c ≠ 0) (hql : q.2.prob c ≠ 0) :
    boxIou p.2.bbox q.2.bbox ≤ thresh := by
  obtain ⟨hi, rfl⟩ := List.getElem?_eq_some_iff.mp hp
  obtain ⟨hj, rfl⟩ := List.getElem?_eq_some_iff.mp hq
  have hpair := List.pairwise_iff_getElem.mp h.apart
  rcases Nat.lt_or_gt_of_ne hij with hlt | hlt
  · exact hpair i j hi hj hlt hpo hqo hpl hql
  · rw [boxIou_comm]
    exact hpair j i hj hi hlt hqo hpo hql hpl

end Tail

-- A run, with every detection before and after it.
theorem doNmsSort_tracked (qsort : Qsort (Detection ℚ)) (classNum : Int) (dets : List (Detection ℚ))
    (thresh : ℚ) : ∃ pairs : List Tracked,
      doNmsSort qsort classNum dets dets.length thresh = some (pairs.map Prod.snd) ∧
      (pairs.map Prod.fst).Perm dets ∧ (∀ p ∈ pairs, Scored classNum.toNat p) ∧
      (∀ p ∈ pairs, p.1.objectness = 0 → p.2 = p.1) ∧
      ∀ c : Nat, c < classNum → ClassCorrect thresh c pairs := by
  obtain ⟨out, m, hpart, hperm, hm, hhead, htail⟩ := partition_total dets
  obtain ⟨hrun, -⟩ := foldl_nmsClass qsort thresh (out.take m) (out.drop m) classNum.toNat
  obtain ⟨pairs, h⟩ := nmsHead_tracked qsort thresh (out.take m) classNum.toNat
  have hlen : (out.take m).length = m := by rw [List.length_take, Nat.min_eq_left hm]
  rw [hlen, List.take_append_drop] at hrun
  have hbefore : ∀ p ∈ pairs, p.1.objectness ≠ 0 := by
    intro p hp
    have hmem : p.1 ∈ out.take m := h.fst.mem_iff.mp (List.mem_map_of_mem hp)
    exact beq_eq_false_iff_ne.mp (hhead p.1 hmem)
  have hscored : ∀ p ∈ pairs, Scored classNum.toNat p := fun p hp => .of_kept (h.kept p hp)
  have hobj : ∀ p ∈ pairs, p.2.objectness ≠ 0 := by
    intro p hp
    rw [(hscored p hp).objectness]
    exact hbefore p hp
  have hzero : ∀ d ∈ out.drop m, d.objectness = 0 := fun d hd => beq_iff_eq.mp (htail d hd)
  refine ⟨pairs ++ (out.drop m).map fun d => (d, d), ?_, ?_, ?_, ?_, ?_⟩
  · have htotal : ((m : Int) - 1 + 1).toNat = m := by omega
    have hsnd : ((out.drop m).map fun d => (d, d)).map Prod.snd = out.drop m := by
      rw [List.map_map]
      exact List.map_id _
    rw [doNmsSort, hpart, Option.map_some]
    simp only [htotal, hrun, List.map_append, h.snd, hsnd]
  · have hfst : ((out.drop m).map fun d => (d, d)).map Prod.fst = out.drop m := by
      rw [List.map_map]
      exact List.map_id _
    rw [List.map_append, hfst]
    refine (h.fst.append_right _).trans ?_
    rw [List.take_append_drop]
    exact hperm
  · intro p hp
    rcases List.mem_append.mp hp with hp | hp
    · exact hscored p hp
    · obtain ⟨d, -, rfl⟩ := List.mem_map.mp hp
      exact ⟨rfl, rfl, rfl, fun _ => .inl rfl, fun _ _ => rfl⟩
  · intro p hp hpo
    rcases List.mem_append.mp hp with hp | hp
    · exact absurd hpo (hbefore p hp)
    · obtain ⟨d, -, rfl⟩ := List.mem_map.mp hp
      rfl
  · exact fun c hc => classCorrect_of_decided (h.decided c (by omega)) hscored hobj hzero

-- Greedy suppression leaves, for every class, survivors that are apart, and takes a score only
-- from a detection that overlaps a survivor with at least that score.
theorem doNmsSort_correct (qsort : Qsort (Detection ℚ)) (classNum : Int)
    (dets : List (Detection ℚ)) (thresh : ℚ) :
    ∃ pairs : List (Detection ℚ × Detection ℚ),
      doNmsSort qsort classNum dets dets.length thresh = some (pairs.map Prod.snd) ∧
      (pairs.map Prod.fst).Perm dets ∧
      (∀ p ∈ pairs, p.2.bbox = p.1.bbox ∧ p.2.objectness = p.1.objectness ∧ p.2.classes = p.1.classes ∧
        ∀ c, p.2.prob c = p.1.prob c ∨ p.2.prob c = 0) ∧
      ∀ c : Nat, c < classNum →
        (∀ (i j : Nat) (p q : Detection ℚ × Detection ℚ), i ≠ j →
          pairs[i]? = some p → pairs[j]? = some q → p.2.objectness ≠ 0 → q.2.objectness ≠ 0 →
          p.2.prob c ≠ 0 → q.2.prob c ≠ 0 → boxIou p.2.bbox q.2.bbox ≤ thresh) ∧
        ∀ p ∈ pairs, p.2.objectness ≠ 0 → p.1.prob c ≠ 0 → p.2.prob c = 0 →
          ∃ q ∈ pairs, q.2.objectness ≠ 0 ∧ q.2.prob c ≠ 0 ∧ p.1.prob c ≤ q.2.prob c ∧
            thresh < boxIou q.2.bbox p.2.bbox := by
  obtain ⟨pairs, hrun, hperm, hscored, -, hcorrect⟩ := doNmsSort_tracked qsort classNum dets thresh
  refine ⟨pairs, hrun, hperm, ?_, ?_⟩
  · intro p hp
    exact ⟨(hscored p hp).bbox, (hscored p hp).objectness, (hscored p hp).classes, (hscored p hp).score⟩
  · intro c hc
    exact ⟨fun i j p q => (hcorrect c hc).apart_of_ne, (hcorrect c hc).struck⟩

-- Insertion sort is one qsort.
def insertionQsort (α : Type) : Qsort α where
  sort compar base := (base.attach.insertionSort fun a b => compar a.1 b.1 ≤ 0).map Subtype.val
  perm compar base := by
    have h := (List.perm_insertionSort (fun a b => compar a.1 b.1 ≤ 0) base.attach).map Subtype.val
    rwa [List.attach_map_subtype_val] at h
  sorted compar base h := by
    refine List.pairwise_map.mpr ?_
    have htotal : Std.Total fun a b : { x // x ∈ base } => compar a.1 b.1 ≤ 0 := by
      refine ⟨fun a b => ?_⟩
      have := h.swap a.1 a.2 b.1 b.2
      omega
    have htrans : IsTrans { x // x ∈ base } fun a b => compar a.1 b.1 ≤ 0 :=
      ⟨fun a b c => h.trans a.1 a.2 b.1 b.2 c.1 c.2⟩
    exact List.pairwise_insertionSort _ base.attach

-- Two boxes on top of each other and one far away, with two classes.
example :
    let dets : List (Detection ℚ) := [
      { bbox := ⟨1, 1, 1, 1⟩, prob := fun c => if c = 0 then 1 / 2 else 1, objectness := 1, sortClass := 0 },
      { bbox := ⟨1, 1, 1, 1⟩, prob := fun _ => 3 / 4, objectness := 1, sortClass := 0 },
      { bbox := ⟨5, 5, 1, 1⟩, prob := fun _ => 1 / 4, objectness := 1, sortClass := 0 }]
    (doNmsSort (insertionQsort _) 2 dets 3 (1 / 2)).map (·.map fun d => (d.bbox.x, d.prob 0, d.prob 1)) =
      some [(1, 0, 1), (1, 3 / 4, 0), (5, 1 / 4, 1 / 4)] := by
  decide +kernel

end Vcu
