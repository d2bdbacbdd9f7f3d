import Vcu.Lib.Counting

-- Greedy suppression. A list is swept from its head, and every element that is still alive strikes
-- the later ones that it hits.
namespace Greedy

variable {α κ : Type*} (key : α → κ) (live : α → Bool) (hits : κ → κ → Bool) (kill : α → α)

def strike (a b : α) : α := if hits (key a) (key b) then kill b else b

def strikeAll (a : α) (l : List α) : List α := l.map (strike key hits kill a)

def sweep : List α → List α
  | [] => []
  | a :: rest => if live a then a :: sweep (strikeAll key hits kill a rest) else a :: sweep rest
termination_by l => l.length
decreasing_by
  all_goals simp [strikeAll]

-- To kill is to take the life and nothing else.
structure Lethal : Prop where
  dead : ∀ a, live (kill a) = false
  idle : ∀ a, live a = false → kill a = a
  key_kill : ∀ a, key (kill a) = key a

variable {key live hits kill} {l : List α} {a x y : α}

theorem strike_eq (key : α → κ) (hits : κ → κ → Bool) (kill : α → α) (a x : α) :
    strike key hits kill a x = x ∧ hits (key a) (key x) = false ∨
      strike key hits kill a x = kill x ∧ hits (key a) (key x) = true := by
  unfold strike
  cases hits (key a) (key x) with
  | true => exact .inr ⟨rfl, rfl⟩
  | false => exact .inl ⟨rfl, rfl⟩

-- What a kill does not change, a sweep does not change.
theorem map_sweep {β : Type*} (f : α → β) (hf : ∀ a, f (kill a) = f a) (l : List α) :
    (sweep key live hits kill l).map f = l.map f := by
  have hs : ∀ a x, f (strike key hits kill a x) = f x := by
    intro a x
    rcases strike_eq key hits kill a x with ⟨he, -⟩ | ⟨he, -⟩
    · rw [he]
    · rw [he, hf]
  induction l using sweep.induct key live hits kill with
  | case1 => rw [sweep]
  | case2 a rest hl ih =>
      rw [sweep, if_pos hl, List.map_cons, List.map_cons, ih, strikeAll, List.map_map]
      congr 1
      exact List.map_congr_left fun x _ => hs a x
  | case3 a rest hl ih => rw [sweep, if_neg hl, List.map_cons, List.map_cons, ih]

theorem length_sweep (l : List α) : (sweep key live hits kill l).length = l.length := by
  have h : (sweep key live hits kill l).map (fun _ => ()) = l.map (fun _ => ()) :=
    map_sweep (fun _ => ()) (fun _ => rfl) l
  have hlen := congrArg List.length h
  rwa [List.length_map, List.length_map] at hlen

-- Sweeping commutes with a map that respects its parts.
theorem sweep_map {β ι : Type*} {key' : β → ι} {live' : β → Bool} {hits' : ι → ι → Bool}
    {kill' : β → β} (f : β → α) (hlive : ∀ b, live (f b) = live' b)
    (hhits : ∀ b c, hits (key (f b)) (key (f c)) = hits' (key' b) (key' c))
    (hkill : ∀ b, f (kill' b) = kill (f b)) (l : List β) :
    sweep key live hits kill (l.map f) = (sweep key' live' hits' kill' l).map f := by
  have hs : ∀ b c, strike key hits kill (f b) (f c) = f (strike key' hits' kill' b c) := by
    intro b c
    unfold strike
    rw [hhits, ← hkill]
    exact (apply_ite f _ _ _).symm
  induction l using sweep.induct key' live' hits' kill' with
  | case1 => rw [List.map_nil, sweep, sweep, List.map_nil]
  | case2 b rest hl ih =>
      have hmap : strikeAll key hits kill (f b) (rest.map f) =
          (strikeAll key' hits' kill' b rest).map f := by
        rw [strikeAll, strikeAll, List.map_map, List.map_map]
        exact List.map_congr_left fun c _ => hs b c
      rw [List.map_cons, sweep, sweep, if_pos hl, if_pos (by rw [hlive]; exact hl), hmap, ih,
        List.map_cons]
  | case3 b rest hl ih =>
      rw [List.map_cons, sweep, sweep, if_neg hl, if_neg (by rw [hlive]; exact hl), ih, List.map_cons]

-- Two readings of the elements that decide alike.
theorem sweep_congr {ι : Type*} {key' : α → ι} {hits' : ι → ι → Bool}
    (hhits : ∀ a b, hits (key a) (key b) = hits' (key' a) (key' b)) (l : List α) :
    sweep key live hits kill l = sweep key' live hits' kill l := by
  have hmap : sweep key live hits kill (l.map id) = (sweep key' live hits' kill l).map id :=
    sweep_map id (fun b => Eq.refl (live b)) hhits (fun b => Eq.refl (kill b)) l
  rwa [List.map_id, List.map_id] at hmap

section Lethal

variable (h : Lethal key live kill)

include h

-- An element that survives has not changed.
theorem Lethal.mem_of_live (hy : y ∈ sweep key live hits kill l) (hlive : live y = true) : y ∈ l := by
  induction l using sweep.induct key live hits kill with
  | case1 =>
      rw [sweep] at hy
      exact hy
  | case2 a rest hl ih =>
      rw [sweep, if_pos hl, List.mem_cons] at hy
      rcases hy with rfl | hy
      · exact List.mem_cons_self
      · obtain ⟨x, hx, rfl⟩ := List.mem_map.mp (ih hy)
        rcases strike_eq key hits kill a x with ⟨he, -⟩ | ⟨he, -⟩
        · rw [he]
          exact List.mem_cons_of_mem a hx
        · rw [he, h.dead] at hlive
          cases hlive
  | case3 a rest hl ih =>
      rw [sweep, if_neg hl, List.mem_cons] at hy
      rcases hy with rfl | hy
      · exact List.mem_cons_self
      · exact List.mem_cons_of_mem a (ih hy)

-- No survivor hits a later one.
theorem Lethal.pairwise_sweep (l : List α) :
    (sweep key live hits kill l).Pairwise fun a b =>
      live a = true → live b = true → hits (key a) (key b) = false := by
  induction l using sweep.induct key live hits kill with
  | case1 =>
      rw [sweep]
      exact List.Pairwise.nil
  | case2 a rest hl ih =>
      rw [sweep, if_pos hl]
      refine List.pairwise_cons.mpr ⟨?_, ih⟩
      intro y hy _ hlive
      obtain ⟨x, -, rfl⟩ := List.mem_map.mp (h.mem_of_live hy hlive)
      rcases strike_eq key hits kill a x with ⟨he, hh⟩ | ⟨he, -⟩
      · rw [he]
        exact hh
      · rw [he, h.dead] at hlive
        cases hlive
  | case3 a rest hl ih =>
      rw [sweep, if_neg hl]
      refine List.pairwise_cons.mpr ⟨?_, ih⟩
      intro y _ ha
      exact absurd ha hl

-- An element that lost its life was hit by a survivor that came before it.
theorem Lethal.mem_sweep {R : κ → κ → Prop} (hR : l.Pairwise fun a b => R (key a) (key b))
    (hy : y ∈ sweep key live hits kill l) :
    y ∈ l ∨ ∃ x ∈ l, live x = true ∧ y = kill x ∧ ∃ w ∈ sweep key live hits kill l,
      live w = true ∧ hits (key w) (key x) = true ∧ R (key w) (key x) := by
  induction l using sweep.induct key live hits kill with
  | case1 =>
      rw [sweep] at hy
      exact .inl hy
  | case2 a rest hl ih =>
      obtain ⟨ha, hrest⟩ := List.pairwise_cons.mp hR
      have hkey : ∀ x, key (strike key hits kill a x) = key x := by
        intro x
        rcases strike_eq key hits kill a x with ⟨he, -⟩ | ⟨he, -⟩
        · rw [he]
        · rw [he, h.key_kill]
      rw [sweep, if_pos hl, List.mem_cons] at hy
      rcases hy with rfl | hy
      · exact .inl List.mem_cons_self
      have hrest' : (strikeAll key hits kill a rest).Pairwise fun a b => R (key a) (key b) := by
        refine List.pairwise_map.mpr (hrest.imp ?_)
        intro x z hxz
        rwa [hkey, hkey]
      -- Either the head has struck `y` itself, or the sweep of the rest decides.
      rcases ih hrest' hy with hy | ⟨z, hz, hlive, rfl, w, hw, hwl, hhit, hwz⟩
      · obtain ⟨x, hx, rfl⟩ := List.mem_map.mp hy
        rcases strike_eq key hits kill a x with ⟨he, -⟩ | ⟨he, hh⟩
        · rw [he]
          exact .inl (List.mem_cons_of_mem a hx)
        · cases hxl : live x with
          | true =>
              refine .inr ⟨x, List.mem_cons_of_mem a hx, hxl, he, a, ?_, hl, hh, ha x hx⟩
              rw [sweep, if_pos hl]
              exact List.mem_cons_self
          | false =>
              rw [he, h.idle x hxl]
              exact .inl (List.mem_cons_of_mem a hx)
      · obtain ⟨x, hx, rfl⟩ := List.mem_map.mp hz
        rcases strike_eq key hits kill a x with ⟨he, -⟩ | ⟨he, -⟩
        · rw [he] at hlive hhit hwz ⊢
          refine .inr ⟨x, List.mem_cons_of_mem a hx, hlive, rfl, w, ?_, hwl, hhit, hwz⟩
          rw [sweep, if_pos hl]
          exact List.mem_cons_of_mem a hw
        · rw [he, h.dead] at hlive
          cases hlive
  | case3 a rest hl ih =>
      have hrest := (List.pairwise_cons.mp hR).2
      rw [sweep, if_neg hl] at hy ⊢
      rcases List.mem_cons.mp hy with rfl | hy
      · exact .inl List.mem_cons_self
      · rcases ih hrest hy with hy | ⟨x, hx, hlive, he, w, hw, hrest⟩
        · exact .inl (List.mem_cons_of_mem a hy)
        · exact .inr ⟨x, List.mem_cons_of_mem a hx, hlive, he, w, List.mem_cons_of_mem a hw, hrest⟩

end Lethal

section InPlace

variable (live) in
-- for (i ..) for (j = i + 1; ..) on an array, of which the first `total` entries are swept.
def strikeLoop (hit : α → α → α) (total i : Nat) (l : List α) : List α :=
  match l[i]? with
  | none => l
  | some a =>
      if live a then (List.range' (i + 1) (total - (i + 1))).foldl (fun l j => l.modify j (hit a)) l else l

variable (live) in
def sweepLoop (hit : α → α → α) (total : Nat) (l : List α) : List α :=
  (List.range total).foldl (fun l i => strikeLoop live hit total i l) l

variable {hit : α → α → α}

theorem strikeLoop_append (front rest back : List α) (a : α) :
    strikeLoop live hit (front.length + (rest.length + 1)) front.length (front ++ (a :: rest ++ back)) =
      front ++ (a :: (if live a then rest.map (hit a) else rest) ++ back) := by
  have hget : (front ++ (a :: rest ++ back))[front.length]? = some a := by
    rw [List.getElem?_append_right (Nat.le_refl _), Nat.sub_self]
    rfl
  have hlater := Counting.foldl_modify (hit a) (front ++ [a]) rest back
  rw [List.length_append, List.length_singleton, List.append_assoc, List.append_assoc,
    List.singleton_append, List.singleton_append] at hlater
  have hcount : front.length + (rest.length + 1) - (front.length + 1) = rest.length := by omega
  rw [strikeLoop, hget]
  simp only [hcount]
  split
  · exact hlater
  · rfl

variable (live) in
theorem foldl_strikeLoop (hhit : ∀ a b, hit a b = strike key hits kill a b) (front rest back : List α) :
    (List.range' front.length rest.length).foldl
        (fun l i => strikeLoop live hit (front.length + rest.length) i l) (front ++ (rest ++ back)) =
      front ++ (sweep key live hits kill rest ++ back) := by
  induction rest using sweep.induct key live hits kill generalizing front with
  | case1 =>
      rw [sweep]
      rfl
  | case2 a rest hl ih =>
      have hstruck : rest.map (hit a) = strikeAll key hits kill a rest :=
        List.map_congr_left fun b _ => hhit a b
      have hlen : (strikeAll key hits kill a rest).length = rest.length := List.length_map _
      have hnext := ih (front ++ [a])
      rw [hlen, List.length_append, List.length_singleton, List.append_assoc, List.append_assoc,
        List.singleton_append, List.singleton_append, Nat.add_assoc, Nat.add_comm 1] at hnext
      rw [sweep, if_pos hl, List.length_cons, List.range'_succ, List.foldl_cons, strikeLoop_append,
        if_pos hl, hstruck]
      exact hnext
  | case3 a rest hl ih =>
      have hnext := ih (front ++ [a])
      rw [List.length_append, List.length_singleton, List.append_assoc, List.append_assoc,
        List.singleton_append, List.singleton_append, Nat.add_assoc, Nat.add_comm 1] at hnext
      rw [sweep, if_neg hl, List.length_cons, List.range'_succ, List.foldl_cons, strikeLoop_append,
        if_neg hl]
      exact hnext

-- What no hit changes, as long as it holds of all entries that `good` says.
theorem map_sweepLoop {β : Type*} {f : α → β} {good : β → Prop}
    (hhit : ∀ a b, good (f a) → good (f b) → f (hit a b) = f b) {l : List α}
    (hl : ∀ a ∈ l, good (f a)) (total : Nat) : (sweepLoop live hit total l).map f = l.map f := by
  have hgood : ∀ {m : List α}, m.map f = l.map f → ∀ a ∈ m, good (f a) := by
    intro m hm
    exact Counting.forall_of_map_perm (.of_eq hm) hl
  refine Counting.map_foldl_of ?_ _
  intro m i hm
  rw [strikeLoop]
  cases hget : m[i]? with
  | none => exact hm
  | some a =>
      have ha := hgood hm a (List.mem_of_getElem? hget)
      simp only
      split
      · refine (Counting.map_foldl_of ?_ _).trans hm
        intro m' j hm'
        rw [Counting.map_modify_of fun b hb => hhit a b ha (hgood (hm'.trans hm) b hb)]
        exact hm'
      · exact hm

variable (live) in
-- The loops in place sweep the front of the array.
theorem sweepLoop_eq (hhit : ∀ a b, hit a b = strike key hits kill a b) (rest back : List α) :
    sweepLoop live hit rest.length (rest ++ back) = sweep key live hits kill rest ++ back := by
  have hloop := foldl_strikeLoop live hhit [] rest back
  rw [List.length_nil, Nat.zero_add, ← List.range_eq_range', List.nil_append, List.nil_append] at hloop
  exact hloop

end InPlace

end Greedy
