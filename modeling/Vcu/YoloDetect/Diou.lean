import Vcu.YoloDetect.Boxes
import Vcu.YoloDetect.Partition

namespace Vcu

structure BoxAbs (F : Type) where
  left : F
  right : F
  top : F
  bot : F

section Diou

variable {F : Type} [Zero F] [Add F] [Sub F] [Mul F] [Div F] [OfNat F 2] [LT F] [DecidableLT F] [BEq F]

def fmin (a b : F) : F := if b < a then b else a

def fmax (a b : F) : F := if a < b then b else a

def boxC (a b : Box F) : BoxAbs F :=
  { top := fmin (a.y - a.h / 2) (b.y - b.h / 2)
    bot := fmax (a.y + a.h / 2) (b.y + b.h / 2)
    left := fmin (a.x - a.w / 2) (b.x - b.w / 2)
    right := fmax (a.x + a.w / 2) (b.x + b.w / 2) }

-- The power function of the C library is a parameter.
def boxDiounms (pow : F → F → F) (a b : Box F) (beta1 : F) : F :=
  let ba := boxC a b
  let w := ba.right - ba.left
  let h := ba.bot - ba.top
  let c := w * w + h * h
  let iou := boxIou a b
  if c == 0 then iou
  else
    let d := (a.x - b.x) * (a.x - b.x) + (a.y - b.y) * (a.y - b.y)
    let u := pow (d / c) beta1
    let diouTerm := u
    iou - diouTerm

-- The body of the innermost loop: `a` is dets[i] and `b` is dets[j].
def diouStrike (pow : F → F → F) (thresh : F) (nmsKind : NmsKind) (beta1 : F) (k : Nat)
    (a b : Detection F) : Detection F :=
  if boxIou a.bbox b.bbox > thresh ∧ nmsKind = .greedy then
    { b with prob := Function.update b.prob k 0 }
  else if boxDiounms pow a.bbox b.bbox beta1 > thresh ∧ nmsKind = .diou then
    { b with prob := Function.update b.prob k 0 }
  else b

-- One iteration of the loop over the classes.
def diouClass (qsort : Qsort (Detection F)) (pow : F → F → F) (thresh : F) (nmsKind : NmsKind)
    (beta1 : F) (total : Nat) (dets : List (Detection F)) (k : Nat) : List (Detection F) :=
  let dets := (List.range total).foldl (fun dets i => dets.modify i fun d => { d with sortClass := k }) dets
  let dets := qsort.sort nmsComparatorV3 (dets.take total) ++ dets.drop total
  Greedy.sweepLoop (fun d => !(d.prob k == 0)) (diouStrike pow thresh nmsKind beta1 k) total dets

-- The first loop is that of do_nms_sort.
def diounmsSort (qsort : Qsort (Detection F)) (pow : F → F → F) (classNum : Int)
    (dets : List (Detection F)) (total : Int) (thresh : F) (nmsKind : NmsKind) (beta1 : F) :
    Option (List (Detection F)) :=
  (partition dets 0 (total - 1)).map fun (dets, k) =>
    (List.range classNum.toNat).foldl (diouClass qsort pow thresh nmsKind beta1 (k + 1).toNat) dets

variable {qsort : Qsort (Detection F)} {pow : F → F → F} {thresh beta1 : F}

-- Below the threshold the other distance is computed, but it strikes nobody.
theorem diouStrike_greedy (pow : F → F → F) (thresh beta1 : F) (k : Nat) (a b : Detection F) :
    diouStrike pow thresh .greedy beta1 k a b =
      Greedy.strike (fun d : Detection F => d.bbox) (fun a b => boxIou a b > thresh)
        (fun d => { d with prob := Function.update d.prob k 0 }) a b := by
  rw [diouStrike, Greedy.strike]
  by_cases h : boxIou a.bbox b.bbox > thresh
  · rw [if_pos ⟨h, rfl⟩, if_pos (decide_eq_true h)]
  · have hgreedy : ¬ (boxIou a.bbox b.bbox > thresh ∧ NmsKind.greedy = .greedy) := fun hboth => h hboth.1
    have hdiou : ¬ (boxDiounms pow a.bbox b.bbox beta1 > thresh ∧ NmsKind.greedy = .diou) :=
      fun hboth => nomatch hboth.2
    rw [if_neg hgreedy, if_neg hdiou, if_neg fun htrue => h (of_decide_eq_true htrue)]

theorem length_nmsClass (total : Nat) (dets : List (Detection F)) (k : Nat) :
    (nmsClass qsort thresh total dets k).length = dets.length := by
  rw [nmsClass, nmsHead, List.length_append, Greedy.length_sweep, (qsort.perm _ _).length_eq,
    List.length_map, ← List.length_append, List.take_append_drop]

theorem diouClass_greedy {total : Nat} {dets : List (Detection F)} (htotal : total ≤ dets.length)
    (k : Nat) :
    diouClass qsort pow thresh .greedy beta1 total dets k = nmsClass qsort thresh total dets k := by
  have hlen : (dets.take total).length = total := List.length_take_of_le htotal
  have hset := Counting.foldl_modify (fun d : Detection F => { d with sortClass := (k : Int) }) []
    (dets.take total) (dets.drop total)
  rw [List.length_nil, ← List.range_eq_range', List.nil_append, List.nil_append, List.take_append_drop,
    hlen] at hset
  have hmap : ((dets.take total).map fun d => { d with sortClass := (k : Int) }).length = total := by
    rw [List.length_map, hlen]
  have hsorted : (qsort.sort nmsComparatorV3
      ((dets.take total).map fun d => { d with sortClass := (k : Int) })).length = total := by
    rw [(qsort.perm _ _).length_eq, hmap]
  have hsweep := Greedy.sweepLoop_eq (fun d : Detection F => !(d.prob k == 0))
    (diouStrike_greedy pow thresh beta1 k)
    (qsort.sort nmsComparatorV3 ((dets.take total).map fun d => { d with sortClass := (k : Int) }))
    (dets.drop total)
  rw [hsorted] at hsweep
  rw [diouClass, hset]
  simp only [List.take_left' hmap, List.drop_left' hmap]
  rw [hsweep]
  rfl

theorem foldl_diouClass_greedy {total : Nat} (classes : List Nat) {dets : List (Detection F)}
    (htotal : total ≤ dets.length) :
    classes.foldl (diouClass qsort pow thresh .greedy beta1 total) dets =
      classes.foldl (nmsClass qsort thresh total) dets := by
  induction classes generalizing dets with
  | nil => rfl
  | cons k classes ih =>
      rw [List.foldl_cons, List.foldl_cons, diouClass_greedy htotal]
      exact ih (by rwa [length_nmsClass])

-- What both functions do behind their first loop.
theorem map_partition_greedy (n : Nat) (dets : List (Detection F)) (total : Int) :
    ((partition dets 0 (total - 1)).map fun (dets, k) =>
        (List.range n).foldl (diouClass qsort pow thresh .greedy beta1 (k + 1).toNat) dets) =
      (partition dets 0 (total - 1)).map fun (dets, k) =>
        (List.range n).foldl (nmsClass qsort thresh (k + 1).toNat) dets := by
  cases hpart : partition dets 0 (total - 1) with
  | none => rfl
  | some result =>
      obtain ⟨out, k⟩ := result
      rw [Option.map_some, Option.map_some]
      exact congrArg some (foldl_diouClass_greedy _ (partition_some (Nat.zero_le _) hpart).2)

-- Greedy suppression is the same in both functions, with the order and every field.
theorem diounmsSort_greedy (qsort : Qsort (Detection F)) (pow : F → F → F) (classNum : Int)
    (dets : List (Detection F)) (total : Int) (thresh beta1 : F) :
    diounmsSort qsort pow classNum dets total thresh .greedy beta1 =
      doNmsSort qsort classNum dets total thresh := by
  rw [diounmsSort, doNmsSort]
  exact map_partition_greedy classNum.toNat dets total

end Diou

end Vcu
