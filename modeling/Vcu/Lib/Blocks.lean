import Mathlib.Data.List.Basic

-- Lists cut into blocks of one length.
namespace Blocks

variable {α σ : Type*} {n : Nat} {l m : List α}

-- Block `i` begins at `n * i`. What is too short at the end is no block.
def blocks (n : Nat) (l : List α) : List (List α) :=
  (List.range (l.length / n)).map fun i => (l.drop (n * i)).take n

def rest (n : Nat) (l : List α) : List α := l.drop (n * (l.length / n))

theorem length_rest (n : Nat) (l : List α) : (rest n l).length = l.length % n := by
  have hdiv := Nat.div_add_mod l.length n
  rw [rest, List.length_drop]
  omega

theorem blocks_of_lt (h : l.length < n) : blocks n l = [] := by
  rw [blocks, Nat.div_eq_of_lt h]
  rfl

theorem rest_of_lt (h : l.length < n) : rest n l = l := by
  rw [rest, Nat.div_eq_of_lt h, Nat.mul_zero, List.drop_zero]

theorem length_div (hn : 0 < n) (h : n ≤ l.length) : l.length / n = (l.drop n).length / n + 1 := by
  rw [List.length_drop, Nat.div_eq_sub_div hn h]

theorem blocks_of_le (hn : 0 < n) (h : n ≤ l.length) : blocks n l = l.take n :: blocks n (l.drop n) := by
  rw [blocks, length_div hn h, List.range_succ_eq_map, List.map_cons, List.map_map, Nat.mul_zero,
    List.drop_zero, blocks]
  congr 1
  apply List.map_congr_left
  intro i _
  show (l.drop (n * (i + 1))).take n = ((l.drop n).drop (n * i)).take n
  rw [List.drop_drop, Nat.mul_succ, Nat.add_comm]

theorem rest_of_le (hn : 0 < n) (h : n ≤ l.length) : rest n l = rest n (l.drop n) := by
  rw [rest, length_div hn h, rest, List.drop_drop, Nat.mul_succ, Nat.add_comm]

@[elab_as_elim]
theorem block_induction {motive : List α → Prop} (hn : 0 < n) (hshort : ∀ l, l.length < n → motive l)
    (hblock : ∀ l, n ≤ l.length → motive (l.drop n) → motive l) (l : List α) : motive l := by
  generalize hk : l.length = k
  induction k using Nat.strongRecOn generalizing l with
  | ind k ih =>
      by_cases h : l.length < n
      · exact hshort l h
      · have hlen : (l.drop n).length = l.length - n := List.length_drop
        exact hblock l (by omega) (ih (l.length - n) (by omega) (l.drop n) hlen)

-- What was left over goes in front of what comes next.
theorem blocks_append (hn : 0 < n) (l m : List α) :
    blocks n (l ++ m) = blocks n l ++ blocks n (rest n l ++ m) := by
  induction l using block_induction hn with
  | hshort l h => rw [blocks_of_lt h, rest_of_lt h, List.nil_append]
  | hblock l h ih =>
      have hle : n ≤ (l ++ m).length := by
        rw [List.length_append]
        omega
      rw [blocks_of_le hn hle, blocks_of_le hn h, rest_of_le hn h, List.take_append_of_le_length h,
        List.drop_append_of_le_length h, ih, List.cons_append]

theorem rest_append (hn : 0 < n) (l m : List α) : rest n (l ++ m) = rest n (rest n l ++ m) := by
  induction l using block_induction hn with
  | hshort l h => rw [rest_of_lt h]
  | hblock l h ih =>
      have hle : n ≤ (l ++ m).length := by
        rw [List.length_append]
        omega
      rw [rest_of_le hn hle, rest_of_le hn h, List.drop_append_of_le_length h, ih]

-- A fold over the blocks may stop after any part of the list and go on with what was left over.
theorem foldl_blocks_append (hn : 0 < n) (f : σ → List α → σ) (s : σ) (l m : List α) :
    (blocks n (l ++ m)).foldl f s = (blocks n (rest n l ++ m)).foldl f ((blocks n l).foldl f s) := by
  rw [blocks_append hn, List.foldl_append]

end Blocks
