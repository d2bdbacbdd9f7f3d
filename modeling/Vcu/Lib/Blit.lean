import Mathlib.Order.Basic

-- Copies between memories that are functions of the address.
namespace Blit

variable {α : Type*}

-- `n` elements of `src` from `start` on go to `dst` from `pos` on.
def blit (dst : Nat → α) (pos : Nat) (src : Nat → α) (start n : Nat) : Nat → α := fun a =>
  if pos ≤ a ∧ a < pos + n then src (start + (a - pos)) else dst a

variable {dst src : Nat → α} {pos start m n a : Nat}

@[simp] theorem blit_zero : blit dst pos src start 0 = dst := by
  funext a
  rw [blit, if_neg]
  omega

theorem blit_inside (hlo : pos ≤ a) (hhi : a < pos + n) :
    blit dst pos src start n a = src (start + (a - pos)) := if_pos ⟨hlo, hhi⟩

theorem blit_outside (h : a < pos ∨ pos + n ≤ a) : blit dst pos src start n a = dst a := by
  rw [blit, if_neg]
  omega

-- Two copies in a row are one.
theorem blit_append :
    blit (blit dst pos src start m) (pos + m) src (start + m) n = blit dst pos src start (m + n) := by
  funext a
  by_cases hsecond : pos + m ≤ a ∧ a < pos + m + n
  · rw [blit_inside hsecond.1 hsecond.2, blit_inside (by omega) (by omega)]
    congr 1
    omega
  · rw [blit_outside (by omega)]
    by_cases hfirst : pos ≤ a ∧ a < pos + m
    · rw [blit_inside hfirst.1 hfirst.2, blit_inside hfirst.1 (by omega)]
    · rw [blit_outside (by omega), blit_outside (by omega)]

end Blit
