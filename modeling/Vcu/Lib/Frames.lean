import Mathlib.Data.List.Infix

-- Streams that are made of frames, one behind the other.
namespace Frames

variable {α : Type*} {frames : List (List α)} {f received buffer : List α} {k n : Nat}

-- The number of frames that end within the first `n` elements.
def complete : List (List α) → Nat → Nat
  | [], _ => 0
  | f :: frames, n => if f.length ≤ n then complete frames (n - f.length) + 1 else 0

theorem le_complete (hk : k ≤ frames.length) (hle : (frames.take k).flatten.length ≤ n) :
    k ≤ complete frames n := by
  induction frames generalizing k n with
  | nil => exact hk
  | cons g frames ih =>
      cases k with
      | zero => exact Nat.zero_le _
      | succ k =>
          rw [List.take_succ_cons, List.flatten_cons, List.length_append] at hle
          rw [complete, if_pos (by omega)]
          exact Nat.succ_le_succ (ih (Nat.le_of_succ_le_succ hk) (by omega))

-- What has been received behind the first `k` frames belongs to the others.
theorem rest_isPrefix (h : received <+: frames.flatten)
    (hb : (frames.take k).flatten ++ buffer = received) : buffer <+: (frames.drop k).flatten := by
  rw [← hb, ← List.take_append_drop k frames, List.flatten_append, List.take_append_drop] at h
  exact (List.prefix_append_right_inj _).mp h

-- The buffer begins with the next frame or with a part of it.
theorem next_frame (h : buffer <+: (frames.drop k).flatten) (hne : buffer ≠ []) :
    ∃ f, frames[k]? = some f ∧
      ((∃ rest, buffer = f ++ rest) ∨ buffer <+: f ∧ buffer.length < f.length) := by
  cases hd : frames.drop k with
  | nil =>
      rw [hd, List.flatten_nil] at h
      exact absurd (List.prefix_nil.mp h) hne
  | cons f rest =>
      have hf : frames[k]? = some f := by
        rw [← List.head?_drop, hd, List.head?_cons]
      rw [hd, List.flatten_cons] at h
      refine ⟨f, hf, ?_⟩
      by_cases hlen : f.length ≤ buffer.length
      · obtain ⟨r, hr⟩ := List.prefix_of_prefix_length_le (List.prefix_append f rest.flatten) h hlen
        exact .inl ⟨r, hr.symm⟩
      · have hlt : buffer.length < f.length := Nat.lt_of_not_le hlen
        exact .inr ⟨List.prefix_of_prefix_length_le h (List.prefix_append f rest.flatten) hlt.le, hlt⟩

-- A list cut into pieces of one size.
theorem flatten_slices (l : List α) (size n : Nat) :
    ((List.range n).map fun i => (l.drop (i * size)).take size).flatten = l.take (n * size) := by
  induction n with
  | zero => rw [Nat.zero_mul, List.take_zero, List.range_zero, List.map_nil, List.flatten_nil]
  | succ n ih =>
      rw [List.range_succ, List.map_append, List.flatten_append, ih, List.map_singleton,
        List.flatten_singleton, Nat.succ_mul, List.take_add]

section Pieces

variable {pieces l m : List (List α)} {size : Nat}

theorem flatten_length_of_size (h : ∀ piece ∈ l, piece.length = size) :
    l.flatten.length = l.length * size := by
  induction l with
  | nil => rw [List.flatten_nil, List.length_nil, List.length_nil, Nat.zero_mul]
  | cons piece l ih =>
      rw [List.flatten_cons, List.length_append, h piece List.mem_cons_self,
        ih fun p hp => h p (List.mem_cons_of_mem _ hp), List.length_cons, Nat.succ_mul, Nat.add_comm]

-- A stream can be cut into pieces of one size in one way only.
theorem eq_of_flatten_eq (hsize : 0 < size) (hl : ∀ piece ∈ l, piece.length = size)
    (hm : ∀ piece ∈ m, piece.length = size) (h : l.flatten = m.flatten) : l = m := by
  have hlen : l.length = m.length := by
    refine Nat.eq_of_mul_eq_mul_right hsize ?_
    rw [← flatten_length_of_size hl, ← flatten_length_of_size hm, h]
  refine List.eq_iff_flatten_eq.mpr ⟨h, ?_⟩
  rw [List.map_eq_replicate_iff.mpr hl, List.map_eq_replicate_iff.mpr hm, hlen]

theorem countP_mul_le (pieces : List (List α)) (size : Nat) :
    pieces.countP (fun piece => piece.length = size) * size ≤ pieces.flatten.length := by
  induction pieces with
  | nil => rw [List.countP_nil, Nat.zero_mul]; exact Nat.zero_le _
  | cons piece pieces ih =>
      rw [List.countP_cons, List.flatten_cons, List.length_append, Nat.add_mul]
      split
      · rename_i hfull
        have hfull : piece.length = size := of_decide_eq_true hfull
        omega
      · omega

-- Where the pieces of full size make up the whole stream, there are no others.
theorem length_eq_of_countP (hne : ∀ piece ∈ pieces, piece ≠ [])
    (h : pieces.flatten.length ≤ pieces.countP (fun piece => piece.length = size) * size) :
    ∀ piece ∈ pieces, piece.length = size := by
  induction pieces with
  | nil => nofun
  | cons piece pieces ih =>
      have hrest := countP_mul_le pieces size
      have hpos := List.length_pos_iff.mpr (hne piece List.mem_cons_self)
      rw [List.countP_cons, List.flatten_cons, List.length_append, Nat.add_mul] at h
      split at h
      · rename_i hfull
        have hfull : piece.length = size := of_decide_eq_true hfull
        intro p hp
        rcases List.mem_cons.mp hp with rfl | hp
        · exact hfull
        · exact ih (fun q hq => hne q (List.mem_cons_of_mem _ hq)) (by omega) p hp
      · omega

end Pieces

end Frames
