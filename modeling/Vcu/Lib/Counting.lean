import Mathlib.Data.Multiset.Bind

-- Loops that count, and folds over the elements that such loops visit.
namespace Counting

variable {α β γ σ : Type*}

-- for (int i = 0; i < n; i++)
def loop (n : Int) (body : Nat → σ → σ) (s : σ) : σ := (List.range n.toNat).foldl (fun s i => body i s) s

-- What two nested loops visit.
def grid (m n : Int) (f : Nat → Nat → α) : List α :=
  (List.range m.toNat).flatMap fun i => (List.range n.toNat).map (f i)

theorem loop_loop (m n : Int) (f : Nat → Nat → α) (body : σ → α → σ) (s : σ) :
    loop m (fun i => loop n fun j s => body s (f i j)) s = (grid m n f).foldl body s := by
  rw [grid, List.foldl_flatMap]
  simp only [List.foldl_map]
  rfl

theorem mem_grid {m n : Int} {f : Nat → Nat → α} {x : α} :
    x ∈ grid m n f ↔ ∃ i j : Nat, i < m ∧ j < n ∧ f i j = x := by
  simp only [grid, List.mem_flatMap, List.mem_map, List.mem_range, Int.lt_toNat]
  constructor
  · rintro ⟨i, hi, j, hj, rfl⟩
    exact ⟨i, j, hi, hj, rfl⟩
  · rintro ⟨i, j, hi, hj, rfl⟩
    exact ⟨i, hi, j, hj, rfl⟩

-- The order of the loops does not matter to what is visited.
theorem grid_perm (m n : Int) (f : Nat → Nat → α) : (grid m n f).Perm (grid n m fun j i => f i j) := by
  apply Multiset.coe_eq_coe.mp
  have h := Multiset.bind_map_comm (List.range m.toNat : Multiset Nat) (List.range n.toNat) (f := f)
  simp only [Multiset.map_coe, Multiset.coe_bind] at h
  exact h

-- The entry behind the front of a list.
theorem modify_append_cons (front rest : List α) (x : α) (f : α → α) :
    (front ++ x :: rest).modify front.length f = front ++ f x :: rest := by
  induction front with
  | nil => rfl
  | cons y front ih =>
      rw [List.cons_append, List.length_cons, List.modify_succ_cons, ih]
      rfl

-- What a change does not touch.
theorem map_modify_of {f : α → β} {g : α → α} {l : List α} (h : ∀ x ∈ l, f (g x) = f x) (i : Nat) :
    (l.modify i g).map f = l.map f := by
  induction l generalizing i with
  | nil => rw [List.modify_nil]
  | cons x l ih =>
      cases i with
      | zero => rw [List.modify_zero_cons, List.map_cons, List.map_cons, h x List.mem_cons_self]
      | succ i =>
          rw [List.modify_succ_cons, List.map_cons, List.map_cons,
            ih fun y hy => h y (List.mem_cons_of_mem x hy)]

theorem map_foldl_of {f : α → β} {l : List α} {step : List α → γ → List α}
    (h : ∀ m i, m.map f = l.map f → (step m i).map f = l.map f) (is : List γ) :
    (is.foldl step l).map f = l.map f := by
  induction is using List.reverseRecOn with
  | nil => rfl
  | append_singleton is i ih =>
      rw [List.foldl_append, List.foldl_cons, List.foldl_nil]
      exact h _ i ih

-- What holds of every view of a list, when only the order of the views differs.
theorem forall_of_map_perm {f : α → β} {p : β → Prop} {l m : List α} (h : (l.map f).Perm (m.map f))
    (hm : ∀ x ∈ m, p (f x)) : ∀ x ∈ l, p (f x) := by
  intro x hx
  obtain ⟨y, hy, hsame⟩ := List.mem_map.mp (h.mem_iff.mp (List.mem_map_of_mem hx))
  rw [← hsame]
  exact hm y hy

-- A loop that changes the entries of a range one after the other.
theorem foldl_modify (f : α → α) (front rest back : List α) :
    (List.range' front.length rest.length).foldl (fun l j => l.modify j f) (front ++ (rest ++ back)) =
      front ++ (rest.map f ++ back) := by
  induction rest generalizing front with
  | nil => rfl
  | cons x rest ih =>
      have hnext := ih (front ++ [f x])
      rw [List.length_append, List.length_singleton, List.append_assoc, List.append_assoc,
        List.singleton_append, List.singleton_append] at hnext
      rw [List.length_cons, List.range'_succ, List.foldl_cons, List.cons_append, modify_append_cons, hnext]
      rfl

section Capped

variable {p : α → Bool} {cap : Nat} {xs ys : List α} {x : α}

-- The elements that count, up to a limit.
def taken (p : α → Bool) (cap : Nat) (xs : List α) : List α := (xs.filter p).take cap

theorem length_taken (p : α → Bool) (cap : Nat) (xs : List α) :
    (taken p cap xs).length = min cap (xs.countP p) := by
  rw [taken, List.length_take, List.countP_eq_length_filter]

theorem of_mem_taken (h : x ∈ taken p cap xs) : x ∈ xs ∧ p x = true :=
  List.mem_filter.mp (List.mem_of_mem_take h)

theorem taken_concat_of_lt (hx : p x = true) (h : (taken p cap xs).length < cap) :
    taken p cap (xs ++ [x]) = taken p cap xs ++ [x] := by
  have hlen : (xs.filter p).length < cap := by
    rw [taken, List.length_take] at h
    omega
  rw [taken, taken, List.filter_append, List.filter_cons_of_pos hx, List.filter_nil,
    List.take_of_length_le (Nat.le_of_lt hlen), List.take_of_length_le]
  rw [List.length_append, List.length_singleton]
  omega

theorem taken_concat_of_not (h : ¬ (p x = true ∧ (taken p cap xs).length < cap)) :
    taken p cap (xs ++ [x]) = taken p cap xs := by
  cases hx : p x with
  | false =>
      rw [taken, taken, List.filter_append, List.filter_cons_of_neg (by rw [hx]; exact Bool.false_ne_true),
        List.filter_nil, List.append_nil]
  | true =>
      have hlen : cap ≤ (xs.filter p).length := by
        have hcap : ¬ (taken p cap xs).length < cap := fun hlt => h ⟨hx, hlt⟩
        rw [taken, List.length_take] at hcap
        omega
      rw [taken, taken, List.filter_append, List.take_append_of_le_length hlen]

-- A fold that acts below its limit acts on the elements taken, one after the other.
theorem foldl_taken {f write : σ → α → σ} {count : σ → Nat} {s : σ} (hzero : count s = 0)
    (hwrite : ∀ s x, count (write s x) = count s + 1)
    (hact : ∀ s x, p x = true ∧ count s < cap → f s x = write s x)
    (hidle : ∀ s x, ¬ (p x = true ∧ count s < cap) → f s x = s) (xs : List α) :
    xs.foldl f s = (taken p cap xs).foldl write s := by
  have hcount : ∀ ys : List α, count (ys.foldl write s) = ys.length := by
    intro ys
    induction ys using List.reverseRecOn with
    | nil => exact hzero
    | append_singleton ys y ih =>
        rw [List.foldl_append, List.foldl_cons, List.foldl_nil, hwrite, ih, List.length_append]
        rfl
  induction xs using List.reverseRecOn with
  | nil => simp [taken]
  | append_singleton xs x ih =>
      rw [List.foldl_append, List.foldl_cons, List.foldl_nil, ih]
      by_cases h : p x = true ∧ (taken p cap xs).length < cap
      · rw [taken_concat_of_lt h.1 h.2, List.foldl_append, hact]
        · rfl
        · rwa [hcount]
      · rw [taken_concat_of_not h, hidle]
        rwa [hcount]

end Capped

end Counting
