import Mathlib.Logic.Function.Basic
import Vcu.Lib.Greedy

namespace Vcu

-- The number type is a parameter, so that its arithmetic may be read as exact.
structure Box (F : Type) where
  x : F
  y : F
  w : F
  h : F

-- `prob` is the array of the class scores, which every detection owns.
structure Detection (F : Type) where
  bbox : Box F
  prob : Nat → F
  objectness : F
  sortClass : Int
  classes : Int := 0

-- The box, the objectness and the number of classes, which no suppression changes.
def frame {F : Type} (d : Detection F) : Box F × F × Int := (d.bbox, d.objectness, d.classes)

section Boxes

variable {F : Type} [Zero F] [Add F] [Sub F] [Mul F] [Div F] [OfNat F 2] [LT F] [DecidableLT F] [BEq F]

def overlap (x1 w1 x2 w2 : F) : F :=
  let l1 := x1 - w1 / 2
  let l2 := x2 - w2 / 2
  let left := if l1 > l2 then l1 else l2
  let r1 := x1 + w1 / 2
  let r2 := x2 + w2 / 2
  let right := if r1 < r2 then r1 else r2
  right - left

def boxIntersection (a b : Box F) : F :=
  let w := overlap a.x a.w b.x b.w
  let h := overlap a.y a.h b.y b.h
  if w < 0 ∨ h < 0 then 0 else w * h

def boxUnion (a b : Box F) : F :=
  let i := boxIntersection a b
  a.w * a.h + b.w * b.h - i

def boxIou (a b : Box F) : F :=
  let I := boxIntersection a b
  let U := boxUnion a b
  if I == 0 || U == 0 then 0 else I / U

def nmsComparatorV3 (a b : Detection F) : Int :=
  let diff :=
    if b.sortClass ≥ 0 then a.prob b.sortClass.toNat - b.prob b.sortClass.toNat
    else a.objectness - b.objectness
  if diff < 0 then 1 else if diff > 0 then -1 else 0

end Boxes

-- What qsort expects of its comparator on the array it sorts.
structure Comparable {α : Type} (compar : α → α → Int) (base : List α) : Prop where
  swap : ∀ a ∈ base, ∀ b ∈ base, 0 < compar a b ↔ compar b a < 0
  trans : ∀ a ∈ base, ∀ b ∈ base, ∀ c ∈ base,
    compar a b ≤ 0 → compar b c ≤ 0 → compar a c ≤ 0

-- The qsort of a C library. Nothing is known about the order of equal elements.
structure Qsort (α : Type) where
  sort : (α → α → Int) → List α → List α
  perm : ∀ compar base, (sort compar base).Perm base
  sorted : ∀ compar base, Comparable compar base →
    (sort compar base).Pairwise fun a b => compar a b ≤ 0

section Suppression

variable {F : Type} [Zero F] [Add F] [Sub F] [Mul F] [Div F] [OfNat F 2] [LT F] [DecidableLT F] [BEq F]

-- The first loop of do_nms_sort. An access outside the array has the result none. In the first
-- branch the loop takes i back and increments it again.
def partition (dets : List (Detection F)) (i : Nat) (k : Int) :
    Option (List (Detection F) × Int) :=
  if i ≤ k then
    dets[i]?.bind fun swap =>
      if swap.objectness == 0 then
        dets[k.toNat]?.bind fun last =>
          partition ((dets.set i last).set k.toNat swap) i (k - 1)
      else partition dets (i + 1) k
  else some (dets, k)
termination_by (k + 1 - i).toNat

-- What one iteration of the outer loop does to the detections below `total`.
def nmsHead (qsort : Qsort (Detection F)) (thresh : F) (k : Nat) (head : List (Detection F)) :
    List (Detection F) :=
  Greedy.sweep (·.bbox) (fun d => !(d.prob k == 0)) (fun a b => boxIou a b > thresh)
    (fun d => { d with prob := Function.update d.prob k 0 })
    (qsort.sort nmsComparatorV3 (head.map fun d => { d with sortClass := k }))

def nmsClass (qsort : Qsort (Detection F)) (thresh : F) (total : Nat) (dets : List (Detection F))
    (k : Nat) : List (Detection F) :=
  nmsHead qsort thresh k (dets.take total) ++ dets.drop total

def doNmsSort (qsort : Qsort (Detection F)) (classNum : Int) (dets : List (Detection F)) (total : Int)
    (thresh : F) : Option (List (Detection F)) :=
  (partition dets 0 (total - 1)).map fun (dets, k) =>
    (List.range classNum.toNat).foldl (nmsClass qsort thresh (k + 1).toNat) dets

end Suppression

end Vcu
