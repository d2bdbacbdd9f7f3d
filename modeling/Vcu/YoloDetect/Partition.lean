import Mathlib.Data.List.Basic
import Vcu.YoloDetect

namespace Vcu

variable {F : Type} [Zero F] [BEq F] {dets out : List (Detection F)} {i m : Nat} {k : Int}

-- What the first loop makes of the part i..k of the array. Its new total is `m`.
structure Partitioned (dets : List (Detection F)) (i : Nat) (k : Int) (out : List (Detection F))
    (m : Nat) : Prop where
  perm : out.Perm dets
  lower : i ≤ m
  upper : m ≤ k + 1
  head : ∀ j d, i ≤ j → j < m → out[j]? = some d → (d.objectness == 0) = false
  tail : ∀ j d, m ≤ j → j ≤ k → out[j]? = some d → (d.objectness == 0) = true
  rest : ∀ j : Nat, j < i ∨ k < j → out[j]? = dets[j]?

theorem partition_done (h : ¬ i ≤ k) : partition dets i k = some (dets, k) := by
  rw [partition, if_neg h]

theorem partition_keep {d : Detection F} (h : i ≤ k) (hd : dets[i]? = some d)
    (ho : (d.objectness == 0) = false) : partition dets i k = partition dets (i + 1) k := by
  rw [partition, if_pos h, hd, Option.bind_some, ho, if_neg Bool.false_ne_true]

theorem partition_swap {d last : Detection F} (h : i ≤ k) (hd : dets[i]? = some d)
    (ho : (d.objectness == 0) = true) (hl : dets[k.toNat]? = some last) :
    partition dets i k = partition ((dets.set i last).set k.toNat d) i (k - 1) := by
  rw [partition, if_pos h, hd, Option.bind_some, ho, if_pos rfl, hl, Option.bind_some]

theorem Partitioned.of_keep {d : Detection F} (h : Partitioned dets (i + 1) k out m)
    (hd : dets[i]? = some d) (ho : (d.objectness == 0) = false) : Partitioned dets i k out m := by
  refine ⟨h.perm, Nat.le_of_succ_le h.lower, h.upper, ?_, h.tail, ?_⟩
  · intro j e hij hjm he
    by_cases hj : j = i
    · have hrest := h.rest j (.inl (by omega))
      rw [hj] at hrest he
      rw [he, hd] at hrest
      obtain rfl := Option.some.inj hrest
      exact ho
    · exact h.head j e (by omega) hjm he
  · intro j hj
    exact h.rest j (by omega)

theorem Partitioned.of_swap {d last : Detection F} (hik : i ≤ k) (hd : dets[i]? = some d)
    (ho : (d.objectness == 0) = true) (hl : dets[k.toNat]? = some last)
    (h : Partitioned ((dets.set i last).set k.toNat d) i (k - 1) out m) :
    Partitioned dets i k out m := by
  obtain ⟨hi, rfl⟩ := List.getElem?_eq_some_iff.mp hd
  obtain ⟨hk, rfl⟩ := List.getElem?_eq_some_iff.mp hl
  have hupper := h.upper
  refine ⟨h.perm.trans (List.set_set_perm hi hk), h.lower, by omega, h.head, ?_, ?_⟩
  · intro j e hmj hjk he
    by_cases hj : j = k.toNat
    · have hrest := h.rest j (.inr (by omega))
      rw [he, hj, List.getElem?_set_self (by rwa [List.length_set])] at hrest
      rw [Option.some.inj hrest]
      exact ho
    · exact h.tail j e hmj (by omega) he
  · intro j hj
    have hjk : k.toNat ≠ j := by omega
    have hrest := h.rest j (by omega)
    rw [hrest, List.getElem?_set_ne hjk]
    rcases hj with hj | hj
    · rw [List.getElem?_set_ne (by omega)]
    · rw [List.getElem?_set_ne (by omega)]

-- The loop ends without leaving the array. The number of entries it has not looked at goes down in
-- both branches.
theorem partition_spec (hik : i ≤ k + 1) (hk : k < dets.length) :
    ∃ out, ∃ m : Nat, partition dets i k = some (out, (m : Int) - 1) ∧ Partitioned dets i k out m := by
  induction hn : (k + 1 - i).toNat generalizing dets i k with
  | zero =>
      have hle : ¬ (i : Int) ≤ k := by omega
      refine ⟨dets, i, ?_, .refl _, Nat.le_refl _, by omega, ?_, ?_, fun _ _ => rfl⟩
      · rw [partition_done hle]
        congr 2
        omega
      · intro j d hij hji
        omega
      · intro j d hij hjk
        omega
  | succ n ih =>
      have hle : (i : Int) ≤ k := by omega
      have hi : i < dets.length := by omega
      have hd : dets[i]? = some dets[i] := List.getElem?_eq_getElem hi
      cases ho : (dets[i].objectness == 0) with
      | false =>
          obtain ⟨out, m, he, h⟩ := ih (i := i + 1) (by omega) hk (by omega)
          exact ⟨out, m, by rw [partition_keep hle hd ho, he], h.of_keep hd ho⟩
      | true =>
          have hkl : k.toNat < dets.length := by omega
          have hl : dets[k.toNat]? = some dets[k.toNat] := List.getElem?_eq_getElem hkl
          have hlen : k - 1 < ((dets.set i dets[k.toNat]).set k.toNat dets[i]).length := by
            rw [List.length_set, List.length_set]
            omega
          obtain ⟨out, m, he, h⟩ := ih (i := i) (by omega) hlen (by omega)
          exact ⟨out, m, by rw [partition_swap hle hd ho hl, he], .of_swap hle hd ho hl h⟩

-- Whatever the total, the loop swaps entries of the array, and the new total does not leave it.
theorem partition_some (hi : i ≤ dets.length) {k' : Int} (h : partition dets i k = some (out, k')) :
    out.Perm dets ∧ (k' + 1).toNat ≤ out.length := by
  induction dets, i, k using partition.induct with
  | case1 dets i k hik ihswap ihkeep =>
      cases hd : dets[i]? with
      | none =>
          rw [partition, if_pos hik, hd] at h
          cases h
      | some d =>
          obtain ⟨hlt, rfl⟩ := List.getElem?_eq_some_iff.mp hd
          cases ho : (dets[i].objectness == 0) with
          | false =>
              rw [partition_keep hik hd ho] at h
              exact ihkeep hlt h
          | true =>
              cases hl : dets[k.toNat]? with
              | none =>
                  rw [partition, if_pos hik, hd, Option.bind_some, ho, if_pos rfl, hl] at h
                  cases h
              | some last =>
                  obtain ⟨hk, rfl⟩ := List.getElem?_eq_some_iff.mp hl
                  rw [partition_swap hik hd ho hl] at h
                  have hlen : i ≤ ((dets.set i dets[k.toNat]).set k.toNat dets[i]).length := by
                    rwa [List.length_set, List.length_set]
                  obtain ⟨hperm, htotal⟩ := ihswap dets[i] dets[k.toNat] hlen h
                  exact ⟨hperm.trans (List.set_set_perm hlt hk), htotal⟩
  | case2 dets i k hik =>
      rw [partition_done hik] at h
      obtain ⟨rfl, rfl⟩ := Prod.mk.inj (Option.some.inj h)
      exact ⟨.refl _, by omega⟩

-- For the whole array the new total separates the detections.
theorem partition_total (dets : List (Detection F)) :
    ∃ out, ∃ m : Nat, partition dets 0 ((dets.length : Int) - 1) = some (out, (m : Int) - 1) ∧
      out.Perm dets ∧ m ≤ out.length ∧ (∀ d ∈ out.take m, (d.objectness == 0) = false) ∧
      ∀ d ∈ out.drop m, (d.objectness == 0) = true := by
  have hlen : (dets.length : Int) - 1 < dets.length := by omega
  obtain ⟨out, m, he, h⟩ := partition_spec (i := 0) (by omega) hlen
  have hupper := h.upper
  have hlength := h.perm.length_eq
  refine ⟨out, m, he, h.perm, by omega, ?_, ?_⟩
  · intro d hd
    obtain ⟨j, hj⟩ := List.mem_iff_getElem?.mp hd
    have hjm : j < m := by
      by_contra hjm
      rw [List.getElem?_take_eq_none (Nat.le_of_not_lt hjm)] at hj
      cases hj
    rw [List.getElem?_take_of_lt hjm] at hj
    exact h.head j d (Nat.zero_le j) hjm hj
  · intro d hd
    obtain ⟨j, hj⟩ := List.mem_iff_getElem?.mp hd
    rw [List.getElem?_drop] at hj
    obtain ⟨hlt, -⟩ := List.getElem?_eq_some_iff.mp hj
    exact h.tail (m + j) d (Nat.le_add_right m j) (by omega) hj

end Vcu
