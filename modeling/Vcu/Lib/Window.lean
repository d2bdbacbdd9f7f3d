import Mathlib.Data.Nat.ModEq

namespace Window

-- Positions of a ring of `size` slots. A reader at position `p` meets slot `j % size`
-- first at position `reach size p j`.
def reach (size p j : Nat) : Nat := p + (j - p) % size

variable {size p j k : Nat}

-- Two positions of one lap that share a slot are the same position.
theorem eq_of_mod_eq (hj : p ≤ j) (hj' : j < p + size) (hk : p ≤ k) (hk' : k < p + size)
    (h : j % size = k % size) : j = k := by
  have hd : (j - p) % size = (k - p) % size := by
    have hm : j ≡ k [MOD size] := h
    have hp : p + (j - p) ≡ p + (k - p) [MOD size] := by
      rwa [Nat.add_sub_of_le hj, Nat.add_sub_of_le hk]
    exact Nat.ModEq.add_left_cancel' p hp
  rw [Nat.mod_eq_of_lt (by omega), Nat.mod_eq_of_lt (by omega)] at hd
  omega

theorem le_reach : p ≤ reach size p j := Nat.le_add_right _ _

theorem reach_lt (hs : 0 < size) : reach size p j < p + size :=
  Nat.add_lt_add_left (Nat.mod_lt _ hs) p

theorem reach_mod (hj : p ≤ j) : reach size p j % size = j % size := by
  unfold reach
  rw [Nat.add_mod_mod, Nat.add_sub_of_le hj]

theorem reach_eq_self (hj : p ≤ j) (hj' : j < p + size) : reach size p j = j := by
  unfold reach
  rw [Nat.mod_eq_of_lt (by omega), Nat.add_sub_of_le hj]

-- The reach is the only position of the reader's next lap in that slot.
theorem eq_reach (hs : 0 < size) (hj : p ≤ j) (hk : p ≤ k) (hk' : k < p + size)
    (h : k % size = j % size) : k = reach size p j :=
  eq_of_mod_eq hk hk' le_reach (reach_lt hs) (h.trans (reach_mod hj).symm)

-- A reader that goes one position on meets every other slot where it would have anyway.
theorem reach_succ (hs : 0 < size) (hj : p ≤ j) (hne : j % size ≠ p % size) :
    reach size (p + 1) j = reach size p j := by
  have hpj : p < j := by
    rcases Nat.lt_or_eq_of_le hj with h | rfl
    · exact h
    · exact absurd rfl hne
  have hle : p + 1 ≤ reach size p j := by
    have hr : p ≤ reach size p j := le_reach
    rcases Nat.lt_or_eq_of_le hr with h | h
    · exact h
    · have hm : reach size p j % size = j % size := reach_mod hj
      rw [← h] at hm
      exact absurd hm.symm hne
  have hlt := reach_lt (p := p) (j := j) hs
  exact (eq_reach hs hpj hle (by omega) (reach_mod hj)).symm

theorem reach_eq_of_mod_eq (hs : 0 < size) (hj : p ≤ j) (hk : p ≤ k) (h : j % size = k % size) :
    reach size p j = reach size p k :=
  eq_reach hs hk le_reach (reach_lt hs) ((reach_mod hj).trans h)

end Window
