import Mathlib.Data.List.Basic
import Mathlib.Data.List.Perm.Basic

-- Arrival orders of numbered items.
namespace Reorder

-- The numbers that have arrived so far, item 0 first, none twice, and each at most `late` places
-- behind its own.
structure Reordered (late : Nat) (arr : List Nat) : Prop where
  nodup : arr.Nodup
  first : ∀ j ∈ arr.head?, j = 0
  late : ∀ j, j + late < arr.length → j ∈ arr.take (j + late + 1)

variable {late : Nat} {arr rest : List Nat}

theorem Reordered.of_append (h : Reordered late (arr ++ rest)) : Reordered late arr := by
  refine ⟨(List.nodup_append.mp h.nodup).1, ?_, ?_⟩
  · intro j hj
    refine h.first j ?_
    cases arr with
    | nil => cases hj
    | cons i arr => exact hj
  · intro j hj
    have hm := h.late j (by rw [List.length_append]; omega)
    rwa [List.take_append_of_le_length (by omega)] at hm

theorem Reordered.mem (h : Reordered late arr) {j : Nat} (hj : j + late < arr.length) : j ∈ arr :=
  List.mem_of_mem_take (h.late j hj)

-- A whole stream of n items in any order that starts with item 0 and delays no item by more
-- than `late` places.
theorem reordered_of_perm {n : Nat} (hp : arr.Perm (List.range n)) (h0 : ∀ j ∈ arr.head?, j = 0)
    (hlate : ∀ j < n, arr.idxOf j ≤ j + late) : Reordered late arr := by
  refine ⟨hp.nodup_iff.mpr List.nodup_range, h0, fun j hj => ?_⟩
  have hlen : arr.length = n := by rw [hp.length_eq, List.length_range]
  have hm : j ∈ arr := hp.mem_iff.mpr (List.mem_range.mpr (by omega))
  have hi := List.idxOf_lt_length_iff.mpr hm
  rw [List.mem_take_iff_getElem]
  refine ⟨arr.idxOf j, ?_, List.getElem_idxOf hi⟩
  have := hlate j (by omega)
  omega

-- Arrivals of an ordered stream that has lost packets, and repeated some right after themselves.
structure Thinned (arr : List Nat) : Prop where
  sorted : arr.Pairwise (· ≤ ·)
  first : ∀ j ∈ arr.head?, j = 0

theorem Thinned.of_append (h : Thinned (arr ++ rest)) : Thinned arr := by
  refine ⟨(List.pairwise_append.mp h.sorted).1, fun j hj => h.first j ?_⟩
  cases arr with
  | nil => cases hj
  | cons i arr => exact hj

end Reorder
