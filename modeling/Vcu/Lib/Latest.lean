import Mathlib.Data.List.Basic

-- What is kept of a list that grows at its end: the first element of a kind, and the last value that
-- the elements gave.
namespace Latest

variable {α β : Type*} {p : α → Bool} {pick : α → Option β} {l : List α} {x : α}

def latest (pick : α → Option β) (xs : List α) (default : β) : β :=
  ((xs.filterMap pick).getLast?).getD default

theorem latest_cons (a : α) (xs : List α) (d : β) : latest pick (a :: xs) d = latest pick xs ((pick a).getD d) := by
  rw [latest, latest]
  cases hpick : pick a with
  | none => rw [List.filterMap_cons_none hpick]; rfl
  | some b =>
      rw [List.filterMap_cons_some hpick, List.getLast?_cons]
      rfl

@[simp] theorem latest_nil (default : β) : latest pick [] default = default := rfl

theorem latest_append (xs ys : List α) (d : β) : latest pick (xs ++ ys) d = latest pick ys (latest pick xs d) := by
  induction xs generalizing d with
  | nil => rfl
  | cons a xs ih => rw [List.cons_append, latest_cons, latest_cons, ih]

-- The element at the end is the first of its kind.
theorem of_first (hnone : l.find? p = none) (hx : p x = true) :
    (l ++ [x]).find? p = some x ∧ (l ++ [x]).eraseP p = l := by
  have hnot := List.find?_eq_none.mp hnone
  refine ⟨?_, ?_⟩
  · rw [List.find?_append, hnone, Option.none_or, List.find?_singleton, if_pos hx]
  · rw [List.eraseP_append_right [x] hnot, List.eraseP_cons_of_pos hx, List.append_nil]

-- It is not.
theorem of_not_first (h : p x = true → l.find? p ≠ none) :
    (l ++ [x]).find? p = l.find? p ∧ (l ++ [x]).eraseP p = l.eraseP p ++ [x] := by
  cases hfind : l.find? p with
  | some y =>
      have hy := List.mem_of_find?_eq_some hfind
      have hpy := List.find?_some hfind
      rw [List.find?_append, hfind, List.eraseP_append_left hpy [x] hy]
      exact ⟨rfl, rfl⟩
  | none =>
      have hx : ¬ p x = true := fun hx => h hx hfind
      have hnot := List.find?_eq_none.mp hfind
      rw [List.find?_append, hfind, Option.none_or, List.find?_singleton, if_neg hx,
        List.eraseP_append_right [x] hnot, List.eraseP_cons_of_neg hx, List.eraseP_of_forall_not hnot,
        List.eraseP_nil]
      exact ⟨rfl, rfl⟩

end Latest
