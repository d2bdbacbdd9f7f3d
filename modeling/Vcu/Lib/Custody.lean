import Mathlib.Data.List.Nodup
import Mathlib.Data.List.Pairwise
import Mathlib.Data.List.Perm.Basic

-- Numbered items that are handed from one place to the next.
namespace Custody

variable {P : Type*}

-- The items 0 to n - 1 are there once each, at some of the places.
def Placed (places : List P) (held : P → List Nat) (n : Nat) : Prop :=
  (places.flatMap held).Perm (List.range n)

variable {places : List P} {held : P → List Nat} {n id : Nat}

theorem Placed.nodup (h : Placed places held n) : (places.flatMap held).Nodup :=
  h.nodup_iff.mpr List.nodup_range

theorem Placed.nodup_of_mem (h : Placed places held n) {p : P} (hp : p ∈ places) :
    (held p).Nodup :=
  (List.nodup_flatMap.mp h.nodup).1 p hp

-- Every item is at exactly one place.
theorem Placed.exists_place (h : Placed places held n) (hid : id < n) :
    ∃ p ∈ places, id ∈ held p ∧ ∀ q ∈ places, id ∈ held q → q = p := by
  have hm : id ∈ places.flatMap held := h.mem_iff.mpr (List.mem_range.mpr hid)
  obtain ⟨p, hp, hid⟩ := List.mem_flatMap.mp hm
  refine ⟨p, hp, hid, fun q hq hidq => ?_⟩
  have hdisj := (List.nodup_flatMap.mp h.nodup).2
  have : Std.Symm (Function.onFun List.Disjoint held) := ⟨fun _ _ hd _ hp hq => hd hq hp⟩
  by_contra hne
  exact hdisj.forall hq hp hne hidq hid

-- The same without a list of the places, of which there may be infinitely many.
structure Located (held : P → List Nat) (n : Nat) : Prop where
  bound : ∀ p, ∀ id ∈ held p, id < n
  place : ∀ id < n, ∃ p, id ∈ held p
  unique : ∀ p q, ∀ id ∈ held p, id ∈ held q → p = q
  nodup : ∀ p, (held p).Nodup

section Located

variable {held' : P → List Nat} {p q : P}

theorem located_nil (hheld : ∀ p, held p = []) : Located held 0 := by
  refine ⟨?_, ?_, ?_, ?_⟩
  · intro p id hid
    simp [hheld] at hid
  · intro id hid
    omega
  · intro p q id hid
    simp [hheld] at hid
  · intro p
    simp [hheld]

theorem Located.existsUnique (h : Located held n) (hid : id < n) : ∃! p, id ∈ held p := by
  obtain ⟨p, hp⟩ := h.place id hid
  exact ⟨p, hp, fun q hq => h.unique q p id hq hp⟩

-- A new item comes to one place.
theorem Located.add (h : Located held n) (hp : held' p = held p ++ [n])
    (hrest : ∀ r, r ≠ p → held' r = held r) : Located held' (n + 1) := by
  have hold : ∀ r, ∀ id ∈ held' r, id ∈ held r ∨ r = p ∧ id = n := by
    intro r id hid
    by_cases hr : r = p
    · rw [hr, hp, List.mem_append, List.mem_singleton] at hid
      rcases hid with hid | hid
      · exact .inl (hr ▸ hid)
      · exact .inr ⟨hr, hid⟩
    · exact .inl (hrest r hr ▸ hid)
  have hnew : ∀ r, n ∉ held r := fun r hr => Nat.lt_irrefl n (h.bound r n hr)
  refine ⟨?_, ?_, ?_, ?_⟩
  · intro r id hid
    rcases hold r id hid with hid | ⟨-, rfl⟩
    · exact Nat.lt_succ_of_lt (h.bound r id hid)
    · exact Nat.lt_succ_self id
  · intro id hid
    by_cases hn : id = n
    · exact ⟨p, by rw [hp, hn]; simp⟩
    · obtain ⟨r, hr⟩ := h.place id (by omega)
      by_cases hrp : r = p
      · exact ⟨p, by rw [hp]; exact List.mem_append_left _ (hrp ▸ hr)⟩
      · exact ⟨r, by rw [hrest r hrp]; exact hr⟩
  · intro r t id hr ht
    rcases hold r id hr with hr | ⟨rfl, rfl⟩
    · rcases hold t id ht with ht | ⟨rfl, rfl⟩
      · exact h.unique r t id hr ht
      · exact absurd hr (hnew r)
    · rcases hold t id ht with ht | ⟨rfl, -⟩
      · exact absurd ht (hnew t)
      · rfl
  · intro r
    by_cases hr : r = p
    · rw [hr, hp]
      exact (h.nodup p).append (List.nodup_singleton n) (by simpa using hnew p)
    · rw [hrest r hr]
      exact h.nodup r

-- What two places hold together is still somewhere when they exchange items.
theorem exists_mem_of_move {before after : P → List Nat}
    (hmem : id ∈ before p ∨ id ∈ before q → id ∈ after p ∨ id ∈ after q)
    (hrest : ∀ r, r ≠ p → r ≠ q → after r = before r) {r : P} (hr : id ∈ before r) :
    ∃ t, id ∈ after t := by
  by_cases hpq : r = p ∨ r = q
  · have hold : id ∈ before p ∨ id ∈ before q := by
      rcases hpq with rfl | rfl
      · exact .inl hr
      · exact .inr hr
    rcases hmem hold with hid | hid
    · exact ⟨p, hid⟩
    · exact ⟨q, hid⟩
  · obtain ⟨hrp, hrq⟩ := not_or.mp hpq
    exact ⟨r, by rwa [hrest r hrp hrq]⟩

theorem Located.nodup_move (h : Located held n) (hne : p ≠ q)
    (hperm : (held' p ++ held' q).Perm (held p ++ held q)) : (held' p ++ held' q).Nodup := by
  refine hperm.nodup_iff.mpr ((h.nodup p).append (h.nodup q) ?_)
  exact fun id hp hq => hne (h.unique p q id hp hq)

-- An item of the two places stays with them, so that it is at no third one.
theorem Located.third (h : Located held n)
    (hmem : id ∈ held' p ∨ id ∈ held' q → id ∈ held p ∨ id ∈ held q)
    (hrest : ∀ r, r ≠ p → r ≠ q → held' r = held r) {r : P} (hrp : r ≠ p) (hrq : r ≠ q)
    (hr : id ∈ held' r) : ¬ (id ∈ held' p ∨ id ∈ held' q) := by
  intro hid
  rw [hrest r hrp hrq] at hr
  rcases hmem hid with hid | hid
  · exact hrp (h.unique r p id hr hid)
  · exact hrq (h.unique r q id hr hid)

theorem Located.unique_move (h : Located held n) (hne : p ≠ q)
    (hperm : (held' p ++ held' q).Perm (held p ++ held q))
    (hrest : ∀ r, r ≠ p → r ≠ q → held' r = held r) {r t : P} (hr : id ∈ held' r)
    (ht : id ∈ held' t) : r = t := by
  have hapart : id ∈ held' p → id ∉ held' q :=
    fun hp hq => (List.nodup_append.mp (h.nodup_move hne hperm)).2.2 id hp id hq rfl
  have hmem : id ∈ held' p ∨ id ∈ held' q → id ∈ held p ∨ id ∈ held q := by
    rw [← List.mem_append, ← List.mem_append]
    exact hperm.mem_iff.mp
  have hpair : ∀ {x}, x = p ∨ x = q → id ∈ held' x → id ∈ held' p ∨ id ∈ held' q := by
    rintro x (rfl | rfl) hx
    · exact .inl hx
    · exact .inr hx
  by_cases hr' : r = p ∨ r = q
  · by_cases ht' : t = p ∨ t = q
    · rcases hr' with rfl | rfl
      · rcases ht' with rfl | rfl
        · rfl
        · exact absurd ht (hapart hr)
      · rcases ht' with rfl | rfl
        · exact absurd hr (hapart ht)
        · rfl
    · obtain ⟨htp, htq⟩ := not_or.mp ht'
      exact absurd (hpair hr' hr) (h.third hmem hrest htp htq ht)
  · obtain ⟨hrp, hrq⟩ := not_or.mp hr'
    have hno := h.third hmem hrest hrp hrq hr
    by_cases ht' : t = p ∨ t = q
    · exact absurd (hpair ht' ht) hno
    · obtain ⟨htp, htq⟩ := not_or.mp ht'
      rw [hrest r hrp hrq] at hr
      rw [hrest t htp htq] at ht
      exact h.unique r t id hr ht

-- Two places exchange items and lose none.
theorem Located.move (h : Located held n) (hne : p ≠ q)
    (hperm : (held' p ++ held' q).Perm (held p ++ held q))
    (hrest : ∀ r, r ≠ p → r ≠ q → held' r = held r) : Located held' n := by
  have hmem : ∀ id, id ∈ held' p ∨ id ∈ held' q ↔ id ∈ held p ∨ id ∈ held q := by
    intro id
    rw [← List.mem_append, ← List.mem_append]
    exact hperm.mem_iff
  have hboth := List.nodup_append.mp (h.nodup_move hne hperm)
  refine ⟨?_, ?_, fun r t id => h.unique_move hne hperm hrest, ?_⟩
  · intro r id hr
    obtain ⟨t, ht⟩ :=
      exists_mem_of_move (hmem id).mp (fun t htp htq => (hrest t htp htq).symm) hr
    exact h.bound t id ht
  · intro id hid
    obtain ⟨r, hr⟩ := h.place id hid
    exact exists_mem_of_move (hmem id).mpr hrest hr
  · intro r
    by_cases hrp : r = p
    · exact hrp ▸ hboth.1
    · by_cases hrq : r = q
      · exact hrq ▸ hboth.2.1
      · rw [hrest r hrp hrq]
        exact h.nodup r

end Located

end Custody
