import Mathlib.Algebra.Ring.Int.Defs
import Vcu.Lib.Loop
import Vcu.YoloDetect.Partition

namespace Vcu

open Loop

section Cells

variable {α : Type} {f : Int → α} {n j k : Nat} {x y : α} {l : List α}

-- The first `n` entries behind a pointer.
def cells (f : Int → α) (n : Nat) : List α := (List.range n).map fun j : Nat => f j

theorem cells_getElem? (f : Int → α) (h : j < n) : (cells f n)[j]? = some (f j) := by
  rw [cells, List.getElem?_map, List.getElem?_range h, Option.map_some]

theorem cells_update (f : Int → α) (j n : Nat) (x : α) :
    cells (Function.update f j x) n = (cells f n).set j x := by
  apply List.ext_getElem?
  intro m
  rw [List.getElem?_set, cells, cells, List.getElem?_map, List.getElem?_map, List.length_map]
  by_cases hm : m < n
  · rw [List.getElem?_range hm, List.length_range, Option.map_some, Option.map_some]
    by_cases hj : j = m
    · rw [if_pos hj, hj, if_pos hm, Function.update_self]
    · have hne : (m : Int) ≠ j := fun he => hj (Int.ofNat.inj he).symm
      rw [if_neg hj, Function.update_of_ne hne]
  · have hnone : (List.range n)[m]? = none := List.getElem?_eq_none (by simpa using hm)
    rw [hnone, List.length_range]
    by_cases hj : j = m
    · rw [if_pos hj, hj, if_neg hm]
      rfl
    · rw [if_neg hj]
      rfl

-- Two entries after a swap through a third variable. They may be the same.
def swapped (f : Int → α) (i k : Int) : Int → α := Function.update (Function.update f i (f k)) k (f i)

@[simp] theorem swapped_right (f : Int → α) (i k : Int) : swapped f i k k = f i := Function.update_self ..

theorem swapped_of_ne {i k m : Int} (hi : m ≠ i) (hk : m ≠ k) : swapped f i k m = f m := by
  rw [swapped, Function.update_of_ne hk, Function.update_of_ne hi]

theorem swap_perm (hx : l[j]? = some x) (hy : l[k]? = some y) : ((l.set j y).set k x).Perm l := by
  obtain ⟨hj, rfl⟩ := List.getElem?_eq_some_iff.mp hx
  obtain ⟨hk, rfl⟩ := List.getElem?_eq_some_iff.mp hy
  exact List.set_set_perm hj hk

end Cells

-- The variables of the first loop of do_nms_sort, with the memory that dets points into. `accessed`
-- is a history: the indices that were read or written.
structure PartitionVars (F : Type) where
  dets : Int → Detection F
  i : Int
  k : Int
  accessed : List Int := []

variable {F : Type} [Zero F] [BEq F] {dets : Int → Detection F} {total : Int} {n : Nat}
  {s t : PartitionVars F}

-- One round, from the test of i <= k to ++i.
def partitionRound (s : PartitionVars F) : Option (PartitionVars F) :=
  if s.i ≤ s.k then
    if (s.dets s.i).objectness == 0 then
      let swap := s.dets s.i
      let dets := Function.update s.dets s.i (s.dets s.k)
      let dets := Function.update dets s.k swap
      let k := s.k - 1
      let i := s.i - 1
      some { dets := dets, i := i + 1, k := k, accessed := s.accessed ++ [s.i, s.i, s.k, s.i, s.k] }
    else some { s with i := s.i + 1, accessed := s.accessed ++ [s.i] }
  else none

theorem partitionRound_cases (h : partitionRound s = some t) :
    s.i ≤ s.k ∧
      ((((s.dets s.i).objectness == 0) = true ∧
          t = { dets := swapped s.dets s.i s.k
                i := s.i
                k := s.k - 1
                accessed := s.accessed ++ [s.i, s.i, s.k, s.i, s.k] }) ∨
        (((s.dets s.i).objectness == 0) = false ∧
          t = { s with i := s.i + 1, accessed := s.accessed ++ [s.i] })) := by
  rw [partitionRound] at h
  by_cases hik : s.i ≤ s.k
  · rw [if_pos hik] at h
    refine ⟨hik, ?_⟩
    cases ho : (s.dets s.i).objectness == 0 with
    | true =>
        rw [ho, if_pos rfl] at h
        refine .inl ⟨rfl, ?_⟩
        rw [← Option.some.inj h, Int.sub_add_cancel]
        rfl
    | false =>
        rw [ho, if_neg Bool.false_ne_true] at h
        exact .inr ⟨rfl, (Option.some.inj h).symm⟩
  · rw [if_neg hik] at h
    cases h

-- What holds at the test. The part i..k of the array has not been looked at.
structure PartitionInv (dets : Int → Detection F) (total : Int) (n : Nat) (s : PartitionVars F) : Prop where
  lower : 0 ≤ s.i
  upper : s.i ≤ s.k + 1
  bound : s.k < total
  perm : (cells s.dets n).Perm (cells dets n)
  head : ∀ j, 0 ≤ j → j < s.i → ((s.dets j).objectness == 0) = false
  tail : ∀ j, s.k < j → j < total → ((s.dets j).objectness == 0) = true
  rest : ∀ j, j < 0 ∨ total ≤ j → s.dets j = dets j
  inside : ∀ j ∈ s.accessed, 0 ≤ j ∧ j < total
  same : partition (cells s.dets n) s.i.toNat s.k = partition (cells dets n) 0 (total - 1)

theorem PartitionInv.init (htotal : 0 ≤ total) (n : Nat) (dets : Int → Detection F) :
    PartitionInv dets total n { dets := dets, i := 0, k := total - 1 } where
  lower := Int.le_refl 0
  upper := by
    show (0 : Int) ≤ total - 1 + 1
    omega
  bound := by
    show total - 1 < total
    omega
  perm := .refl _
  head := by
    intro j hj hj0
    have hlt : j < 0 := hj0
    omega
  tail := by
    intro j hj hjt
    have hlt : total - 1 < j := hj
    omega
  rest := fun _ _ => rfl
  inside := nofun
  same := rfl

theorem PartitionInv.keep (h : PartitionInv dets total n s) (hn : total ≤ n) (hik : s.i ≤ s.k)
    (ho : ((s.dets s.i).objectness == 0) = false) :
    PartitionInv dets total n { s with i := s.i + 1, accessed := s.accessed ++ [s.i] } := by
  have hlower := h.lower
  have hbound := h.bound
  have hi : ((s.i.toNat : Nat) : Int) = s.i := Int.toNat_of_nonneg hlower
  refine ⟨?_, ?_, hbound, h.perm, ?_, h.tail, h.rest, ?_, ?_⟩
  · show 0 ≤ s.i + 1
    omega
  · show s.i + 1 ≤ s.k + 1
    omega
  · intro j hj hji
    have hlt : j < s.i + 1 := hji
    by_cases he : j = s.i
    · rw [he]
      exact ho
    · exact h.head j hj (by omega)
  · intro j hj
    rcases List.mem_append.mp hj with hj | hj
    · exact h.inside j hj
    · rw [List.mem_singleton.mp hj]
      omega
  · have hd : (cells s.dets n)[s.i.toNat]? = some (s.dets s.i) := by
      rw [cells_getElem? s.dets (by omega), hi]
    have hnext : (s.i + 1).toNat = s.i.toNat + 1 := by omega
    show partition (cells s.dets n) (s.i + 1).toNat s.k = _
    rw [← h.same, hnext, partition_keep (by omega) hd ho]

-- The entry comes to its place at the end, whichever entry comes in its stead, also if that is itself.
theorem PartitionInv.swap (h : PartitionInv dets total n s) (hn : total ≤ n) (hik : s.i ≤ s.k)
    (ho : ((s.dets s.i).objectness == 0) = true) :
    PartitionInv dets total n
      { dets := swapped s.dets s.i s.k
        i := s.i
        k := s.k - 1
        accessed := s.accessed ++ [s.i, s.i, s.k, s.i, s.k] } := by
  have hlower := h.lower
  have hbound := h.bound
  have hi : ((s.i.toNat : Nat) : Int) = s.i := Int.toNat_of_nonneg hlower
  have hk : ((s.k.toNat : Nat) : Int) = s.k := Int.toNat_of_nonneg (by omega)
  have hd : (cells s.dets n)[s.i.toNat]? = some (s.dets s.i) := by
    rw [cells_getElem? s.dets (by omega), hi]
  have hl : (cells s.dets n)[s.k.toNat]? = some (s.dets s.k) := by
    rw [cells_getElem? s.dets (by omega), hk]
  have hcells : cells (swapped s.dets s.i s.k) n =
      ((cells s.dets n).set s.i.toNat (s.dets s.k)).set s.k.toNat (s.dets s.i) := by
    rw [← cells_update, ← cells_update, hi, hk, swapped]
  refine ⟨hlower, ?_, ?_, ?_, ?_, ?_, ?_, ?_, ?_⟩
  · show s.i ≤ s.k - 1 + 1
    omega
  · show s.k - 1 < total
    omega
  · show (cells (swapped s.dets s.i s.k) n).Perm (cells dets n)
    rw [hcells]
    exact (swap_perm hd hl).trans h.perm
  · intro j hj hji
    have hji : j < s.i := hji
    show ((swapped s.dets s.i s.k j).objectness == 0) = false
    rw [swapped_of_ne (by omega) (by omega)]
    exact h.head j hj hji
  · intro j hkj hjt
    have hkj : s.k - 1 < j := hkj
    show ((swapped s.dets s.i s.k j).objectness == 0) = true
    by_cases he : j = s.k
    · rw [he, swapped_right]
      exact ho
    · rw [swapped_of_ne (by omega) he]
      exact h.tail j (by omega) hjt
  · intro j hj
    show swapped s.dets s.i s.k j = dets j
    rw [swapped_of_ne (by omega) (by omega)]
    exact h.rest j hj
  · intro j hj
    rcases List.mem_append.mp hj with hj | hj
    · exact h.inside j hj
    · have hik : j = s.i ∨ j = s.k ∨ j = s.i ∨ j = s.k := by simpa using hj
      omega
  · show partition (cells (swapped s.dets s.i s.k) n) s.i.toNat (s.k - 1) = _
    rw [hcells, ← h.same, partition_swap (by omega) hd ho hl]

theorem PartitionInv.step (h : PartitionInv dets total n s) (hn : total ≤ n)
    (ht : partitionRound s = some t) :
    PartitionInv dets total n t ∧ (t.k + 1 - t.i).toNat < (s.k + 1 - s.i).toNat := by
  obtain ⟨hik, ⟨ho, rfl⟩ | ⟨ho, rfl⟩⟩ := partitionRound_cases ht
  · refine ⟨h.swap hn hik ho, ?_⟩
    show (s.k - 1 + 1 - s.i).toNat < (s.k + 1 - s.i).toNat
    omega
  · refine ⟨h.keep hn hik ho, ?_⟩
    show (s.k + 1 - (s.i + 1)).toNat < (s.k + 1 - s.i).toNat
    omega

-- The first loop of do_nms_sort and of diounms_sort ends, and the new total parts the detections
-- that are left from those without objectness.
theorem partitionRound_exits (dets : Int → Detection F) (htotal : 0 ≤ total) (hn : total ≤ n) :
    ∃ t, Exits partitionRound { dets := dets, i := 0, k := total - 1 } t ∧
      (0 ≤ t.k + 1 ∧ t.k + 1 ≤ total) ∧
      (cells t.dets n).Perm (cells dets n) ∧
      (∀ j, 0 ≤ j → j < t.k + 1 → ((t.dets j).objectness == 0) = false) ∧
      (∀ j, t.k + 1 ≤ j → j < total → ((t.dets j).objectness == 0) = true) ∧
      (∀ j, j < 0 ∨ total ≤ j → t.dets j = dets j) ∧
      (∀ j ∈ t.accessed, 0 ≤ j ∧ j < total) ∧
      partition (cells dets n) 0 (total - 1) = some (cells t.dets n, t.k) := by
  obtain ⟨t, hexits, hinv⟩ := exists_exits (PartitionInv dets total n) (fun s => (s.k + 1 - s.i).toNat)
    (fun s t hs ht => hs.step hn ht) (PartitionInv.init htotal n dets)
  have hover : ¬ t.i ≤ t.k := fun hik => by
    have hnone := hexits.2
    rw [partitionRound, if_pos hik] at hnone
    split at hnone
    · cases hnone
    · cases hnone
  have hlower := hinv.lower
  have hupper := hinv.upper
  have hbound := hinv.bound
  refine ⟨t, hexits, by omega, hinv.perm, ?_, ?_, hinv.rest, hinv.inside, ?_⟩
  · intro j hj hjk
    exact hinv.head j hj (by omega)
  · intro j hkj hjt
    exact hinv.tail j (by omega) hjt
  · rw [← hinv.same, partition_done (by omega)]

-- The first entry is swapped with the third, which has no objectness either, and then with the second.
def faintFirst (j : Int) : Detection Int where
  bbox := ⟨0, 0, 1, 1⟩
  prob := fun _ => 0
  objectness := if j = 1 then 5 else 0
  sortClass := 0

theorem partitionRound_exits_three :
    ∃ t, Exits partitionRound { dets := faintFirst, i := 0, k := 2 } t ∧
      (∀ j ∈ t.accessed, 0 ≤ j ∧ j < 3) ∧
      partition (cells faintFirst 3) 0 2 = some (cells t.dets 3, t.k) := by
  have htotal : (0 : Int) ≤ 3 := by decide
  have hn : (3 : Int) ≤ (3 : Nat) := by decide
  obtain ⟨t, hexits, -, -, -, -, -, hinside, hsame⟩ := partitionRound_exits faintFirst htotal hn
  exact ⟨t, hexits, hinside, hsame⟩

end Vcu
