import Mathlib.Data.List.Basic

-- Histories, that is lists that grow at their end.
namespace History

variable {α : Type*} {l : List α} {x v : α} {k : Nat}

theorem getElem?_concat_eq_some :
    (l ++ [x])[k]? = some v ↔ l[k]? = some v ∨ k = l.length ∧ x = v := by
  by_cases hlt : k < l.length
  · rw [List.getElem?_append_left hlt]
    refine ⟨.inl, ?_⟩
    rintro (h | ⟨rfl, -⟩)
    · exact h
    · exact absurd hlt (Nat.lt_irrefl _)
  · have hnone : l[k]? = none := List.getElem?_eq_none (Nat.le_of_not_lt hlt)
    rw [List.getElem?_append_right (Nat.le_of_not_lt hlt), List.getElem?_singleton, hnone]
    split
    · rename_i hk
      have hk : k = l.length := by omega
      simp [hk]
    · rename_i hk
      have hk : ¬ k = l.length := by omega
      simp [hk]

end History
