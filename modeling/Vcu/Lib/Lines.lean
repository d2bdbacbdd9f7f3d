import Mathlib.Data.List.Basic

-- Texts whose lines end with a separator. What comes behind the last one is not a full line.
namespace Lines

variable {α : Type*} [DecidableEq α] {sep : α}

def cut (sep : α) : List α → List (List α) × List α
  | [] => ([], [])
  | c :: s =>
      match cut sep s with
      | (lines, last) =>
          if c = sep then ([] :: lines, last)
          else
            match lines with
            | [] => ([], c :: last)
            | line :: lines => ((c :: line) :: lines, last)

def join (sep : α) (lines : List (List α)) (last : List α) : List α :=
  lines.flatMap (· ++ [sep]) ++ last

omit [DecidableEq α] in
theorem join_cons (line : List α) (lines : List (List α)) (last : List α) :
    join sep (line :: lines) last = line ++ sep :: join sep lines last := by
  rw [join, join, List.flatMap_cons, List.append_assoc, List.append_assoc, List.singleton_append]

omit [DecidableEq α] in
theorem join_append (lines lines' : List (List α)) (last : List α) :
    join sep (lines ++ lines') last = join sep lines (join sep lines' last) := by
  rw [join, join, join, List.flatMap_append, List.append_assoc]

theorem join_cut (s : List α) : join sep (cut sep s).1 (cut sep s).2 = s := by
  induction s with
  | nil => rfl
  | cons c s ih =>
      rw [cut]
      cases hcut : cut sep s with
      | mk lines last =>
          rw [hcut] at ih
          by_cases hc : c = sep
          · simp only [if_pos hc]
            rw [join_cons, ih, hc, List.nil_append]
          · simp only [if_neg hc]
            cases lines with
            | nil => exact congrArg (c :: ·) ih
            | cons line lines =>
                simp only [join_cons, List.cons_append] at ih ⊢
                rw [ih]

theorem not_mem_cut (sep : α) (s : List α) : (∀ line ∈ (cut sep s).1, sep ∉ line) ∧ sep ∉ (cut sep s).2 := by
  induction s with
  | nil => exact ⟨nofun, nofun⟩
  | cons c s ih =>
      rw [cut]
      cases hcut : cut sep s with
      | mk lines last =>
          rw [hcut] at ih
          obtain ⟨hlines, hlast⟩ := ih
          by_cases hc : c = sep
          · simp only [if_pos hc]
            refine ⟨fun line hline => ?_, hlast⟩
            rcases List.mem_cons.mp hline with rfl | hline
            · nofun
            · exact hlines line hline
          · simp only [if_neg hc]
            have hnot : ∀ {l : List α}, sep ∉ l → sep ∉ c :: l := fun hl =>
              List.not_mem_cons_of_ne_of_not_mem (Ne.symm hc) hl
            cases lines with
            | nil => exact ⟨nofun, hnot hlast⟩
            | cons line lines =>
                refine ⟨fun l hl => ?_, hlast⟩
                rcases List.mem_cons.mp hl with rfl | hl
                · exact hnot (hlines line List.mem_cons_self)
                · exact hlines l (List.mem_cons_of_mem _ hl)

theorem cut_append_cons {line : List α} (hline : sep ∉ line) (s : List α) :
    cut sep (line ++ sep :: s) = (line :: (cut sep s).1, (cut sep s).2) := by
  induction line with
  | nil =>
      rw [List.nil_append, cut]
      simp only [if_true]
  | cons c line ih =>
      obtain ⟨hc, hline⟩ := not_or.mp (mt List.mem_cons.mpr hline)
      rw [List.cons_append, cut, ih hline]
      simp only [if_neg (Ne.symm hc)]

theorem cut_of_notMem {s : List α} (hs : sep ∉ s) : cut sep s = ([], s) := by
  induction s with
  | nil => rfl
  | cons c s ih =>
      obtain ⟨hc, hs⟩ := not_or.mp (mt List.mem_cons.mpr hs)
      rw [cut, ih hs]
      simp only [if_neg (Ne.symm hc)]

-- The texts between the separators.
theorem cut_intercalate {texts : List (List α)} {last : List α} (htexts : ∀ t ∈ texts, sep ∉ t)
    (hlast : sep ∉ last) : cut sep ([sep].intercalate (texts ++ [last])) = (texts, last) := by
  induction texts with
  | nil => rw [List.nil_append, List.intercalate_singleton, cut_of_notMem hlast]
  | cons t texts ih =>
      rw [List.cons_append, List.intercalate_cons_of_ne_nil (by simp), List.append_assoc,
        List.singleton_append, cut_append_cons (htexts t List.mem_cons_self),
        ih fun u hu => htexts u (List.mem_cons_of_mem t hu)]

end Lines
