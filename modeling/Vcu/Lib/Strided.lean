import Mathlib.Data.Set.Defs
import Mathlib.Tactic.Linarith

-- Rows of bytes in a buffer whose beginnings are a stride apart.
namespace Strided

structure Plane where
  pos : Int
  stride : Int
  rows : Int
  cols : Int

def Plane.bytes (p : Plane) : Set Int :=
  { i | ∃ r c : Int, (0 ≤ r ∧ r < p.rows) ∧ (0 ≤ c ∧ c < p.cols) ∧ i = p.pos + r * p.stride + c }

-- Rows that touch or overlap each other leave no gap.
theorem Plane.mem_bytes_iff {p : Plane} (hrows : 0 < p.rows) (hstride : 0 ≤ p.stride)
    (hle : p.stride ≤ p.cols) {i : Int} :
    i ∈ p.bytes ↔ p.pos ≤ i ∧ i < p.pos + ((p.rows - 1) * p.stride + p.cols) := by
  constructor
  · rintro ⟨r, c, ⟨hr, hr'⟩, ⟨hc, hc'⟩, rfl⟩
    have hrow := Int.mul_nonneg hr hstride
    have hlast : r * p.stride ≤ (p.rows - 1) * p.stride :=
      Int.mul_le_mul_of_nonneg_right (by omega) hstride
    omega
  · rintro ⟨hlo, hhi⟩
    by_cases hlast : (p.rows - 1) * p.stride ≤ i - p.pos
    · exact ⟨p.rows - 1, i - p.pos - (p.rows - 1) * p.stride, by omega, by omega, by omega⟩
    · have hpos : 0 < p.stride := by
        refine lt_of_le_of_ne hstride fun hzero => hlast ?_
        rw [← hzero, Int.mul_zero]
        omega
      have hdiv := Int.mul_ediv_add_emod (i - p.pos) p.stride
      have hmod := Int.emod_nonneg (i - p.pos) hpos.ne'
      have hmod' := Int.emod_lt_of_pos (i - p.pos) hpos
      have hrow : (i - p.pos) / p.stride < p.rows - 1 := Int.ediv_lt_of_lt_mul hpos (by omega)
      rw [Int.mul_comm] at hdiv
      exact ⟨(i - p.pos) / p.stride, (i - p.pos) % p.stride,
        ⟨Int.ediv_nonneg (by omega) hstride, by omega⟩, ⟨hmod, by omega⟩, by omega⟩

end Strided
