import Vcu.Common
import Vcu.Lib.Infix

namespace Vcu

open Infix StdString

section Searching

variable {a s v w pat : List Char} {c : Char}

theorem find_isSome_iff (s pat : List Char) : (find s pat).isSome ↔ pat <:+: s := by
  induction s with
  | nil =>
      rw [find, List.infix_nil, ← List.isEmpty_iff]
      cases pat.isEmpty with
      | false => simp
      | true => simp
  | cons d s ih =>
      rw [find, List.infix_cons_iff, ← List.isPrefixOf_iff_prefix]
      by_cases h : pat.isPrefixOf (d :: s) = true
      · simp [h]
      · rw [if_neg h, Option.isSome_map, ih]
        simp [h]

theorem find_eq_none (h : ¬ pat <:+: s) : find s pat = none := by
  rw [← Option.not_isSome_iff_eq_none, find_isSome_iff]
  exact h

theorem find_of_prefix (h : pat <+: s) : find s pat = some 0 := by
  cases s with
  | nil =>
      rw [List.prefix_nil.mp h]
      rfl
  | cons d s => rw [find, if_pos (List.isPrefixOf_iff_prefix.mpr h)]

-- Behind a text without the pattern, the pattern is found where it stands.
theorem find_append_key (hc : c ∉ w) (h : ¬ w ++ [c] <:+: a) :
    find (a ++ (w ++ [c]) ++ v) (w ++ [c]) = some a.length := by
  induction a with
  | nil =>
      rw [List.nil_append]
      exact find_of_prefix (List.prefix_append _ v)
  | cons d a ih =>
      have hnot : ¬ (w ++ [c]).isPrefixOf (d :: (a ++ (w ++ [c]) ++ v)) = true := by
        intro hprefix
        -- it would end before the quote of the pattern that stands behind the text
        have hshort : w ++ [c] <+: d :: a ++ w := by
          refine List.prefix_of_prefix_length_le (List.isPrefixOf_iff_prefix.mp hprefix) ⟨[c] ++ v, ?_⟩ ?_
          · simp
          · simp
        exact h (infix_of_append hc hshort.isInfix)
      rw [List.cons_append, List.cons_append, find, if_neg hnot,
        ih fun hpart => h (List.infix_cons hpart)]
      rfl

end Searching

end Vcu
