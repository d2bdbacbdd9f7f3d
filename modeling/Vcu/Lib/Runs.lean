import Mathlib.Data.List.Basic
import Vcu.Lib.Infix

-- The maximal runs of a list that hold no separator.
namespace Runs

variable {α : Type*} {p : α → Bool} {s t u : List α} {c : α}

def runs (p : α → Bool) (s : List α) : List (List α) := (s.splitOnP p).filter fun t => !t.isEmpty

@[simp] theorem runs_nil (p : α → Bool) : runs p [] = [] := rfl

-- A separator cuts the list in two.
theorem runs_append_cons (hc : p c = true) (s t : List α) :
    runs p (s ++ c :: t) = runs p s ++ runs p t := by
  rw [runs, List.splitOnP_append_cons s t hc, List.filter_append]
  rfl

theorem runs_cons (hc : p c = true) (s : List α) : runs p (c :: s) = runs p s :=
  runs_append_cons hc [] s

theorem runs_all (hs : ∀ x ∈ s, p x = true) (t : List α) : runs p (s ++ t) = runs p t := by
  induction s with
  | nil => rfl
  | cons x s ih =>
      rw [List.cons_append, runs_cons (hs x List.mem_cons_self)]
      exact ih fun y hy => hs y (List.mem_cons_of_mem x hy)

theorem runs_none (hs : ∀ x ∈ s, p x = false) (hne : s ≠ []) : runs p s = [s] := by
  rw [runs, List.splitOnP_eq_singleton hs, List.filter_cons_of_pos, List.filter_nil]
  rw [Bool.not_eq_true', List.isEmpty_eq_false_iff]
  exact hne

-- A list is free of separators, or its first one cuts it.
theorem exists_cut (p : α → Bool) (s : List α) :
    (∀ x ∈ s, p x = false) ∨ ∃ a c b, s = a ++ c :: b ∧ (∀ x ∈ a, p x = false) ∧ p c = true := by
  cases hfound : s.find? p with
  | none =>
      left
      intro x hx
      exact Bool.of_not_eq_true (List.find?_eq_none.mp hfound x hx)
  | some c =>
      right
      obtain ⟨hc, a, b, hs, ha⟩ := List.find?_eq_some_iff_append.mp hfound
      exact ⟨a, c, b, hs, fun x hx => (Bool.not_eq_true' _).mp (ha x hx), hc⟩

@[elab_as_elim]
theorem cut_induction {motive : List α → Prop} (hnone : ∀ s, (∀ x ∈ s, p x = false) → motive s)
    (hcut : ∀ s c t, (∀ x ∈ s, p x = false) → p c = true → motive t → motive (s ++ c :: t))
    (s : List α) : motive s := by
  generalize hn : s.length = n
  induction n using Nat.strongRecOn generalizing s with
  | ind n ih =>
      rcases exists_cut p s with hs | ⟨a, c, b, rfl, ha, hc⟩
      · exact hnone s hs
      · rw [List.length_append, List.length_cons] at hn
        exact hcut a c b ha hc (ih b.length (by omega) b rfl)

-- What a run is: a part of the list without separators.
theorem of_mem_runs (ht : t ∈ runs p s) : t <:+: s ∧ t ≠ [] ∧ ∀ x ∈ t, p x = false := by
  induction s using cut_induction (p := p) with
  | hnone s hs =>
      by_cases hne : s = []
      · rw [hne] at ht
        cases ht
      · rw [runs_none hs hne, List.mem_singleton] at ht
        rw [ht]
        exact ⟨List.infix_rfl, hne, hs⟩
  | hcut a c b ha hc ih =>
      rw [runs_append_cons hc, List.mem_append] at ht
      rcases ht with ht | ht
      · by_cases hne : a = []
        · rw [hne] at ht
          cases ht
        · rw [runs_none ha hne, List.mem_singleton] at ht
          rw [ht]
          exact ⟨List.infix_append_left, hne, ha⟩
      · obtain ⟨hpart, hrest⟩ := ih ht
        exact ⟨hpart.trans ⟨a ++ [c], [], by simp⟩, hrest⟩

-- A pattern without separators lies in one run.
theorem exists_mem_runs (hne : t ≠ []) (ht : ∀ x ∈ t, p x = false) (h : t <:+: s) :
    ∃ u ∈ runs p s, t <:+: u := by
  induction s using cut_induction (p := p) with
  | hnone s hs =>
      have hs' : s ≠ [] := by
        rintro rfl
        exact hne (List.infix_nil.mp h)
      rw [runs_none hs hs']
      exact ⟨s, List.mem_cons_self, h⟩
  | hcut a c b ha hc ih =>
      have hnot : c ∉ t := fun hmem => Bool.false_ne_true ((ht c hmem).symm.trans hc)
      rw [runs_append_cons hc]
      rcases (Infix.infix_append_cons hne hnot).mp h with h | h
      · have ha' : a ≠ [] := by
          rintro rfl
          exact hne (List.infix_nil.mp h)
        rw [runs_none ha ha']
        exact ⟨a, List.mem_append_left _ List.mem_cons_self, h⟩
      · obtain ⟨u, hu, hpart⟩ := ih h
        exact ⟨u, List.mem_append_right _ hu, hpart⟩

theorem runs_congr {q : α → Bool} (h : ∀ x ∈ s, p x = q x) : runs p s = runs q s := by
  induction s using cut_induction (p := p) with
  | hnone s hs =>
      by_cases hne : s = []
      · rw [hne]
        rfl
      · rw [runs_none hs hne, runs_none (fun x hx => h x hx ▸ hs x hx) hne]
  | hcut s c t hs hc ih =>
      rw [runs_append_cons hc, runs_append_cons (h c (by simp) ▸ hc), ih fun x hx => h x (by simp [hx])]
      by_cases hne : s = []
      · rw [hne]
        rfl
      · rw [runs_none hs hne, runs_none (fun x hx => h x (by simp [hx]) ▸ hs x hx) hne]

-- Cutting the runs again is cutting at the separators of both kinds.
theorem flatMap_runs (p q : α → Bool) (s : List α) :
    (runs q s).flatMap (runs p) = runs (fun x => q x || p x) s := by
  have hfree : ∀ t : List α, (∀ x ∈ t, q x = false) →
      (runs q t).flatMap (runs p) = runs (fun x => q x || p x) t := by
    intro t ht
    have hcongr : runs p t = runs (fun x => q x || p x) t :=
      runs_congr fun x hx => by rw [ht x hx, Bool.false_or]
    rw [← hcongr]
    by_cases hne : t = []
    · rw [hne]
      rfl
    · rw [runs_none ht hne, List.flatMap_singleton]
  induction s using cut_induction (p := q) with
  | hnone s hs => exact hfree s hs
  | hcut s c t hs hc ih =>
      rw [runs_append_cons hc, List.flatMap_append, hfree s hs, ih,
        runs_append_cons (p := fun x => q x || p x) (by rw [hc, Bool.true_or])]

-- Separators at one end or the other, or between two texts that are cut anyway.
theorem runs_all_right (hs : ∀ x ∈ s, p x = true) (t : List α) : runs p (t ++ s) = runs p t := by
  cases s with
  | nil => rw [List.append_nil]
  | cons x s =>
      have hx : p x = true := hs x List.mem_cons_self
      have hrest := runs_all (fun y hy => hs y (List.mem_cons_of_mem x hy)) []
      rw [List.append_nil, runs_nil] at hrest
      rw [runs_append_cons hx, hrest, List.append_nil]

-- Behind the separators at its head a list is over, or a run follows, up to the end or to the next
-- separator.
theorem first_run (p : α → Bool) (s : List α) :
    (∀ x ∈ s, p x = true) ∨ ∃ a r b, s = a ++ (r ++ b) ∧ (∀ x ∈ a, p x = true) ∧ r ≠ [] ∧
      (∀ x ∈ r, p x = false) ∧ (b = [] ∨ ∃ c t, b = c :: t ∧ p c = true) := by
  rcases exists_cut (fun x => !p x) s with hs | ⟨a, c, b, rfl, ha, hc⟩
  · exact .inl fun x hx => (Bool.not_eq_false' _).mp (hs x hx)
  · have ha : ∀ x ∈ a, p x = true := fun x hx => (Bool.not_eq_false' _).mp (ha x hx)
    have hc : p c = false := (Bool.not_eq_true' _).mp hc
    right
    rcases exists_cut p b with hb | ⟨r, d, t, rfl, hr, hd⟩
    · refine ⟨a, c :: b, [], by rw [List.append_nil], ha, List.cons_ne_nil c b, ?_, .inl rfl⟩
      intro x hx
      rcases List.mem_cons.mp hx with rfl | hx
      · exact hc
      · exact hb x hx
    · refine ⟨a, c :: r, d :: t, rfl, ha, List.cons_ne_nil c r, ?_, .inr ⟨d, t, rfl, hd⟩⟩
      intro x hx
      rcases List.mem_cons.mp hx with rfl | hx
      · exact hc
      · exact hr x hx

def sepAt (p : α → Bool) (s : List α) (j : Nat) : Bool := (s[j]?).any p

theorem sepAt_of_none {j : Nat} (hs : ∀ x ∈ s, p x = false) : sepAt p s j = false := by
  rw [sepAt]
  cases hj : s[j]? with
  | none => rfl
  | some x => exact hs x (List.mem_of_getElem? hj)

theorem sepAt_left {j : Nat} (hj : j < s.length) (u : List α) : sepAt p (s ++ u) j = sepAt p s j := by
  rw [sepAt, sepAt, List.getElem?_append_left hj]

theorem sepAt_right (s u : List α) (j : Nat) : sepAt p (s ++ u) (s.length + j) = sepAt p u j := by
  rw [sepAt, sepAt, List.getElem?_append_right (Nat.le_add_right _ _), Nat.add_sub_cancel_left]

-- A run as the positions from `b` to `e`.
structure MaximalRun (p : α → Bool) (s : List α) (b e : Nat) : Prop where
  nonempty : b < e
  within : e ≤ s.length
  free : ∀ j, b ≤ j → j < e → sepAt p s j = false
  left : b = 0 ∨ sepAt p s (b - 1) = true
  right : e = s.length ∨ sepAt p s e = true

theorem maximalRun_of_none (hs : ∀ x ∈ s, p x = false) (b e : Nat) :
    MaximalRun p s b e ↔ s ≠ [] ∧ b = 0 ∧ e = s.length := by
  constructor
  · intro h
    have hwithin := h.within
    have hnonempty := h.nonempty
    refine ⟨?_, ?_, ?_⟩
    · rintro rfl
      rw [List.length_nil] at hwithin
      omega
    · exact h.left.resolve_right (by rw [sepAt_of_none hs]; exact Bool.false_ne_true)
    · exact h.right.resolve_right (by rw [sepAt_of_none hs]; exact Bool.false_ne_true)
  · rintro ⟨hne, rfl, rfl⟩
    exact ⟨List.length_pos_iff.mpr hne, Nat.le_refl _, fun j _ _ => sepAt_of_none hs, .inl rfl, .inl rfl⟩

-- A run lies on one side of a separator.
theorem maximalRun_append_cons (hs : ∀ x ∈ s, p x = false) (hc : p c = true) (t : List α) (b e : Nat) :
    MaximalRun p (s ++ c :: t) b e ↔
      (s ≠ [] ∧ b = 0 ∧ e = s.length) ∨
        ∃ b' e', MaximalRun p t b' e' ∧ b = s.length + (b' + 1) ∧ e = s.length + (e' + 1) := by
  have hmid : sepAt p (s ++ c :: t) s.length = true := by
    have hsep := sepAt_right (p := p) s (c :: t) 0
    rw [Nat.add_zero] at hsep
    rw [hsep]
    exact hc
  have hright : ∀ j, sepAt p (s ++ c :: t) (s.length + (j + 1)) = sepAt p t j := fun j => by
    rw [sepAt_right, sepAt, List.getElem?_cons_succ, sepAt]
  have hlen : (s ++ c :: t).length = s.length + (t.length + 1) := by
    rw [List.length_append, List.length_cons]
  constructor
  · intro h
    have hnonempty := h.nonempty
    have hwithin := h.within
    by_cases hbe : e ≤ s.length
    · left
      have hb : b = 0 := by
        refine h.left.resolve_right ?_
        rw [sepAt_left (by omega), sepAt_of_none hs]
        exact Bool.false_ne_true
      have he : e = s.length := by
        by_contra hne
        have hsep := h.right.resolve_left (by omega)
        rw [sepAt_left (by omega), sepAt_of_none hs] at hsep
        cases hsep
      refine ⟨?_, hb, he⟩
      rintro rfl
      rw [List.length_nil] at he
      omega
    · right
      have hb : s.length < b := by
        by_contra hle
        have hfree := h.free s.length (by omega) (by omega)
        rw [hmid] at hfree
        cases hfree
      obtain ⟨b', rfl⟩ : ∃ b', b = s.length + (b' + 1) := ⟨b - s.length - 1, by omega⟩
      obtain ⟨e', rfl⟩ : ∃ e', e = s.length + (e' + 1) := ⟨e - s.length - 1, by omega⟩
      refine ⟨b', e', ⟨by omega, by omega, ?_, ?_, ?_⟩, rfl, rfl⟩
      · intro j hj hje
        rw [← hright]
        exact h.free _ (by omega) (by omega)
      · cases b' with
        | zero => exact .inl rfl
        | succ b' =>
            right
            have hsep := h.left.resolve_left (by omega)
            have hpos : s.length + (b' + 1 + 1) - 1 = s.length + (b' + 1) := by omega
            rw [hpos, hright] at hsep
            exact hsep
      · rcases h.right with he | he
        · exact .inl (by omega)
        · rw [hright] at he
          exact .inr he
  · rintro (⟨hne, rfl, rfl⟩ | ⟨b', e', h, rfl, rfl⟩)
    · refine ⟨List.length_pos_iff.mpr hne, by omega, ?_, .inl rfl, .inr hmid⟩
      intro j _ hj
      rw [sepAt_left hj, sepAt_of_none hs]
    · have hnonempty := h.nonempty
      have hwithin := h.within
      refine ⟨by omega, by omega, ?_, ?_, ?_⟩
      · intro j hj hje
        obtain ⟨j', rfl⟩ : ∃ j', j = s.length + (j' + 1) := ⟨j - s.length - 1, by omega⟩
        rw [hright]
        exact h.free j' (by omega) (by omega)
      · right
        cases b' with
        | zero => exact hmid
        | succ b' =>
            have hsep := h.left.resolve_left (by omega)
            have hpos : s.length + (b' + 1 + 1) - 1 = s.length + (b' + 1) := by omega
            rw [hpos, hright]
            exact hsep
      · rcases h.right with he | he
        · exact .inl (by omega)
        · exact .inr (by rw [hright]; exact he)

-- Where the runs are, in order.
structure Spans (p : α → Bool) (s : List α) (spans : List (Nat × Nat)) : Prop where
  mem_iff : ∀ b e, (b, e) ∈ spans ↔ MaximalRun p s b e
  ordered : spans.Pairwise fun x y => x.2 < y.1
  runs_eq : runs p s = spans.map fun x => (s.drop x.1).take (x.2 - x.1)

theorem exists_spans_of_none (hs : ∀ x ∈ s, p x = false) : ∃ spans, Spans p s spans := by
  by_cases hne : s = []
  · refine ⟨[], fun b e => ?_, .nil, ?_⟩
    · rw [maximalRun_of_none hs]
      simp [hne]
    · rw [hne]
      rfl
  · refine ⟨[(0, s.length)], fun b e => ?_, List.pairwise_singleton _ _, ?_⟩
    · rw [maximalRun_of_none hs]
      simp [hne]
    · rw [runs_none hs hne]
      simp

theorem slice_left (s u : List α) {b e : Nat} (he : e ≤ s.length) :
    ((s ++ u).drop b).take (e - b) = (s.drop b).take (e - b) := by
  by_cases hb : b ≤ s.length
  · rw [List.drop_append_of_le_length hb, List.take_append_of_le_length (by rw [List.length_drop]; omega)]
  · have hzero : e - b = 0 := by omega
    rw [hzero, List.take_zero, List.take_zero]

theorem slice_right (s t : List α) (c : α) (b e : Nat) :
    ((s ++ c :: t).drop (s.length + (b + 1))).take (s.length + (e + 1) - (s.length + (b + 1))) =
      (t.drop b).take (e - b) := by
  have hlen : s.length + (e + 1) - (s.length + (b + 1)) = e - b := by omega
  rw [hlen, List.drop_append, List.drop_eq_nil_of_le (by omega), List.nil_append, Nat.add_sub_cancel_left,
    List.drop_succ_cons]

theorem exists_spans (p : α → Bool) (s : List α) : ∃ spans, Spans p s spans := by
  induction s using cut_induction (p := p) with
  | hnone s hs => exact exists_spans_of_none hs
  | hcut s c t hs hc ih =>
      obtain ⟨first, hfirst⟩ := exists_spans_of_none hs
      obtain ⟨spans, hspans⟩ := ih
      have hbound : ∀ x ∈ first, x.2 ≤ s.length := fun x hx => ((hfirst.mem_iff x.1 x.2).mp hx).within
      refine ⟨first ++ spans.map fun x => (s.length + (x.1 + 1), s.length + (x.2 + 1)),
        fun b e => ?_, ?_, ?_⟩
      · rw [maximalRun_append_cons hs hc, List.mem_append, hfirst.mem_iff, maximalRun_of_none hs,
          List.mem_map]
        refine or_congr Iff.rfl ?_
        constructor
        · rintro ⟨⟨b', e'⟩, hx, hshift⟩
          obtain ⟨rfl, rfl⟩ := Prod.mk.inj hshift
          exact ⟨b', e', (hspans.mem_iff b' e').mp hx, rfl, rfl⟩
        · rintro ⟨b', e', hrun, rfl, rfl⟩
          exact ⟨(b', e'), (hspans.mem_iff b' e').mpr hrun, rfl⟩
      · refine List.pairwise_append.mpr ⟨hfirst.ordered, ?_, ?_⟩
        · refine List.pairwise_map.mpr (hspans.ordered.imp fun {x y} hxy => ?_)
          show s.length + (x.2 + 1) < s.length + (y.1 + 1)
          omega
        · intro x hx y hy
          obtain ⟨z, -, rfl⟩ := List.mem_map.mp hy
          have hle := hbound x hx
          show x.2 < s.length + (z.1 + 1)
          omega
      · rw [runs_append_cons hc, hfirst.runs_eq, hspans.runs_eq, List.map_append, List.map_map]
        congr 1
        · exact List.map_congr_left fun x hx => (slice_left s (c :: t) (hbound x hx)).symm
        · exact List.map_congr_left fun x _ => (slice_right s t c x.1 x.2).symm

end Runs
