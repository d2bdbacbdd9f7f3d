import Mathlib.Algebra.BigOperators.Group.Finset.Basic
import Mathlib.Algebra.BigOperators.Ring.Finset
import Mathlib.Algebra.Order.BigOperators.Group.Finset
import Mathlib.Tactic.Ring

-- Canonical prefix codes. `count i` is the number of codes of length i + 1.
namespace CanonicalCode

variable {count seen : ℕ → ℕ} {i n : ℕ}

-- The first code of length i + 1, behind all shorter codes.
def firstCode (count : ℕ → ℕ) (i : ℕ) : ℕ := ∑ j ∈ Finset.range i, count j * 2 ^ (i - j)

-- The inequality for the codes up to length n, with all weights in units of the longest code.
def Kraft (count : ℕ → ℕ) (n : ℕ) : Prop := ∑ j ∈ Finset.range n, count j * 2 ^ (n - 1 - j) ≤ 2 ^ n

theorem firstCode_succ (count : ℕ → ℕ) (i : ℕ) :
    firstCode count (i + 1) = 2 * (firstCode count i + count i) := by
  have hterm : ∀ j ∈ Finset.range i, count j * 2 ^ (i + 1 - j) = 2 * (count j * 2 ^ (i - j)) := by
    intro j hj
    rw [Nat.succ_sub (Nat.le_of_lt (Finset.mem_range.mp hj)), Nat.pow_succ]
    ring
  rw [firstCode, Finset.sum_range_succ, Finset.sum_congr rfl hterm, ← Finset.mul_sum,
    Nat.add_sub_cancel_left,
    Nat.pow_one, ← firstCode]
  ring

theorem kraft_iff (count : ℕ → ℕ) (n : ℕ) : Kraft count n ↔ firstCode count n ≤ 2 ^ (n + 1) := by
  have hdouble : firstCode count n = 2 * ∑ j ∈ Finset.range n, count j * 2 ^ (n - 1 - j) := by
    rw [firstCode, Finset.mul_sum]
    apply Finset.sum_congr rfl
    intro j hj
    have hlt := Finset.mem_range.mp hj
    have hexp : n - j = n - 1 - j + 1 := by omega
    rw [hexp, Nat.pow_succ]
    ring
  rw [Kraft, hdouble, Nat.pow_succ]
  omega

-- The codes of a length fit behind the shorter ones.
theorem Kraft.fits (h : Kraft count n) (hi : i < n) : firstCode count i + count i ≤ 2 ^ (i + 1) := by
  induction n with
  | zero => omega
  | succ n ih =>
      rw [kraft_iff, firstCode_succ, Nat.pow_succ] at h
      by_cases hlast : i = n
      · rw [hlast]
        omega
      · apply ih _ (by omega)
        rw [kraft_iff]
        omega

theorem firstCode_congr (h : ∀ j < i, seen j = count j) : firstCode seen i = firstCode count i := by
  apply Finset.sum_congr rfl
  intro j hj
  rw [h j (Finset.mem_range.mp hj)]

-- Codes that are left out move the first code down.
theorem firstCode_lt {j : ℕ} (hle : ∀ k, seen k ≤ count k) (hj : j < i) (hlt : seen j < count j) :
    firstCode seen i < firstCode count i := by
  apply Finset.sum_lt_sum
  · intro k _
    exact Nat.mul_le_mul_right _ (hle k)
  · exact ⟨j, Finset.mem_range.mpr hj, Nat.mul_lt_mul_of_pos_right hlt (Nat.two_pow_pos _)⟩

end CanonicalCode
