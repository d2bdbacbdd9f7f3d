import Mathlib.Data.List.Basic
import Vcu.Common

namespace Vcu

open StdString

section Positions

variable {c : Char} {s : List Char}

theorem find_lt {pos : Nat} (h : find s [c] = some pos) : pos < s.length := by
  induction s generalizing pos with
  | nil => cases h
  | cons d s ih =>
      rw [find] at h
      split at h
      · obtain rfl := Option.some.inj h
        exact Nat.zero_lt_succ _
      · obtain ⟨p, hp, rfl⟩ := Option.map_eq_some_iff.mp h
        exact Nat.succ_lt_succ (ih hp)

theorem find_of_not_mem (h : c ∉ s) : find s [c] = none := by
  induction s with
  | nil => rfl
  | cons d s ih =>
      obtain ⟨hne, hs⟩ := not_or.mp (mt List.mem_cons.mpr h)
      rw [find, ih hs]
      simp [hne]

theorem find_isSome (h : c ∈ s) : (find s [c]).isSome := by
  induction s with
  | nil => cases h
  | cons d s ih =>
      rw [find]
      split
      · rfl
      · rename_i hd
        rw [Option.isSome_map]
        refine ih ((List.mem_cons.mp h).resolve_left ?_)
        rintro rfl
        simp at hd

theorem find_append (h : c ∉ s) (t : List Char) : find (s ++ t) [c] = (find t [c]).map (s.length + ·) := by
  induction s with
  | nil =>
      rw [List.nil_append, List.length_nil]
      simp
  | cons d s ih =>
      obtain ⟨hne, hs⟩ := not_or.mp (mt List.mem_cons.mpr h)
      rw [List.cons_append, find, ih hs, if_neg (by simp [hne]), Option.map_map]
      congr 1
      funext n
      rw [Function.comp_apply, List.length_cons]
      omega

theorem find_self (c : Char) (s : List Char) : find (c :: s) [c] = some 0 := by
  rw [find, if_pos (by simp)]

theorem exists_of_find {pos : Nat} (h : find s [c] = some pos) :
    ∃ a b, s = a ++ c :: b ∧ c ∉ a ∧ pos = a.length := by
  have hmem : c ∈ s := by
    by_contra hmem
    rw [find_of_not_mem hmem] at h
    cases h
  obtain ⟨a, b, rfl, ha⟩ := List.eq_append_cons_of_mem hmem
  rw [find_append ha, find_self] at h
  exact ⟨a, b, rfl, ha, (Option.some.inj h).symm⟩

theorem not_mem_of_find (h : find s [c] = none) : c ∉ s := by
  intro hmem
  have hsome := find_isSome hmem
  rw [h] at hsome
  cases hsome

theorem findFirstOf_eq_find (s : List Char) (c : Char) : findFirstOf s [c] (some 0) = find s [c] := by
  rw [findFirstOf, Option.bind_some, List.drop_zero]
  induction s with
  | nil => rfl
  | cons d s ih =>
      rw [find, ← ih, List.findIdx?_cons]
      by_cases hd : d = c
      · simp [hd]
      · simp [hd, Ne.symm hd, Function.comp_def]

theorem findFirstOf_lt {pos : Nat} (h : findFirstOf s [c] (some 0) = some pos) : pos < s.length := by
  rw [findFirstOf_eq_find] at h
  exact find_lt h

end Positions

end Vcu
