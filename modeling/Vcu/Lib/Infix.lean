import Mathlib.Data.List.Infix

-- Where a pattern can stand in a list that is cut at an element.
namespace Infix

variable {α : Type*} {a b s w pat : List α} {c : α}

-- A pattern without the element lies on one side of it.
theorem infix_append_cons (hne : pat ≠ []) (hc : c ∉ pat) :
    pat <:+: a ++ c :: b ↔ pat <:+: a ∨ pat <:+: b := by
  constructor
  · intro h
    rcases List.infix_append_iff_ne_nil.mp h with h | h | ⟨p, q, -, hq, rfl, -, hprefix⟩
    · exact Or.inl h
    · rcases List.infix_cons_iff.mp h with h | h
      · cases pat with
        | nil => exact absurd rfl hne
        | cons d pat =>
            obtain ⟨rfl, -⟩ := List.cons_prefix_cons.mp h
            exact absurd List.mem_cons_self hc
      · exact Or.inr h
    · cases q with
      | nil => exact absurd rfl hq
      | cons d q =>
          obtain ⟨rfl, -⟩ := List.cons_prefix_cons.mp hprefix
          exact absurd (List.mem_append_right p List.mem_cons_self) hc
  · rintro (h | h)
    · exact h.trans List.infix_append_left
    · exact List.infix_append_of_infix_right (List.infix_cons h)

-- A pattern that ends in the element does not reach into a text without it.
theorem infix_of_append (hc : c ∉ b) (h : w ++ [c] <:+: a ++ b) : w ++ [c] <:+: a := by
  induction b using List.reverseRecOn with
  | nil =>
      rw [List.append_nil] at h
      exact h
  | append_singleton b d ih =>
      rw [← List.append_assoc] at h
      rcases List.infix_concat_iff.mp h with h | h
      · rcases List.suffix_concat_iff.mp h with h | ⟨t, heq, -⟩
        · exact absurd h (by simp)
        · obtain ⟨-, hd⟩ := List.append_inj' heq rfl
          rw [List.singleton_inj.mp hd] at hc
          exact absurd (List.mem_append_right b List.mem_cons_self) hc
      · exact ih (fun hmem => hc (List.mem_append_left [d] hmem)) h

-- A suffix without the element lies behind it.
theorem suffix_of_append_cons (hc : c ∉ w) (h : w <:+ a ++ c :: b) : w <:+ b := by
  rcases List.suffix_or_suffix_of_suffix h (List.suffix_append a (c :: b)) with h | h
  · rcases List.suffix_cons_iff.mp h with rfl | h
    · exact absurd List.mem_cons_self hc
    · exact h
  · exact absurd (h.mem List.mem_cons_self) hc

-- Where the element stands, the pattern can end.
theorem concat_infix_append_cons (hc : c ∉ w) :
    w ++ [c] <:+: a ++ c :: b ↔ w ++ [c] <:+: a ∨ w <:+ a ∨ w ++ [c] <:+: b := by
  constructor
  · intro h
    rcases List.infix_append_iff_ne_nil.mp h with h | h | ⟨p, q, -, hq, heq, hsuffix, hprefix⟩
    · exact Or.inl h
    · rcases List.infix_cons_iff.mp h with h | h
      · cases w with
        | nil => exact Or.inr (Or.inl (List.nil_suffix))
        | cons d w =>
            obtain ⟨rfl, -⟩ := List.cons_prefix_cons.mp h
            exact absurd List.mem_cons_self hc
      · exact Or.inr (Or.inr h)
    · cases q with
      | nil => exact absurd rfl hq
      | cons d q =>
          obtain ⟨rfl, -⟩ := List.cons_prefix_cons.mp hprefix
          obtain ⟨rest, hrest⟩ := hsuffix
          have hw : w = p := by
            cases q using List.reverseRecOn with
            | nil => exact (List.append_inj' heq rfl).1
            | append_singleton q e =>
                rw [← List.cons_append, ← List.append_assoc] at heq
                obtain ⟨rfl, -⟩ := List.append_inj' heq rfl
                exact absurd (List.mem_append_right p List.mem_cons_self) hc
          rw [hw]
          exact Or.inr (Or.inl ⟨rest, hrest⟩)
  · rintro (h | ⟨t, rfl⟩ | h)
    · exact h.trans List.infix_append_left
    · exact ⟨t, b, by simp⟩
    · exact List.infix_append_of_infix_right (List.infix_cons h)

-- A text with the pattern has a first place of it.
theorem exists_first (hne : pat ≠ []) (h : pat <:+: s) : ∃ a v, s = a ++ pat ++ v ∧ ¬ pat <:+: a := by
  have hnil : ¬ pat <:+: [] := fun h => hne (List.infix_nil.mp h)
  induction s with
  | nil => exact absurd h hnil
  | cons d s ih =>
      by_cases hprefix : pat <+: d :: s
      · obtain ⟨v, hv⟩ := hprefix
        exact ⟨[], v, hv.symm, hnil⟩
      · obtain ⟨a, v, rfl, ha⟩ := ih ((List.infix_cons_iff.mp h).resolve_left hprefix)
        refine ⟨d :: a, v, rfl, fun hcons => ?_⟩
        rcases List.infix_cons_iff.mp hcons with hcons | hcons
        · exact hprefix (hcons.trans ⟨pat ++ v, by simp⟩)
        · exact ha hcons

end Infix
