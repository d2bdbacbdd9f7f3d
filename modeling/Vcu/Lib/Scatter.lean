import Mathlib.Data.List.ProdSigma

-- Runs of memcpy from one buffer into another.
namespace Scatter

variable {α ι : Type*}

-- memcpy(dst + pos, src + pos2, n). A copy that leaves one of the buffers has the result none.
def memcpy (n : Nat) (src dst : List α) (pos pos2 : Int) : Option (List α) :=
  if 0 ≤ pos ∧ pos + n ≤ dst.length ∧ 0 ≤ pos2 ∧ pos2 + n ≤ src.length then
    some (dst.take pos.toNat ++ (src.drop pos2.toNat).take n ++ dst.drop (pos.toNat + n))
  else none

-- One copy for every element of a list.
def copies (n : Nat) (src : List α) (pos pos2 : ι → Int) (l : List ι) (dst : List α) : Option (List α) :=
  l.foldlM (fun dst x => memcpy n src dst (pos x) (pos2 x)) dst

-- The copy writes that byte.
def Covers (n : Nat) (pos : Int) (p : Nat) : Prop := pos ≤ p ∧ p < pos + n

section Memcpy

variable {n : Nat} {src dst out : List α} {pos pos2 : Int}

theorem memcpy_length (h : memcpy n src dst pos pos2 = some out) : out.length = dst.length := by
  rw [memcpy] at h
  split at h
  · obtain rfl := Option.some.inj h
    simp only [List.length_append, List.length_take, List.length_drop]
    omega
  · cases h

theorem memcpy_getElem? (h : memcpy n src dst pos pos2 = some out) (p : Nat) :
    (Covers n pos p → out[p]? = src[p - pos.toNat + pos2.toNat]?) ∧
      (¬ Covers n pos p → out[p]? = dst[p]?) := by
  rw [memcpy] at h
  split at h
  · rename_i hrange
    obtain rfl := Option.some.inj h
    have htake : (dst.take pos.toNat).length = pos.toNat := by
      rw [List.length_take]
      omega
    have hmid : ((src.drop pos2.toNat).take n).length = n := by
      rw [List.length_take, List.length_drop]
      omega
    constructor
    · rintro ⟨hlo, hhi⟩
      rw [List.append_assoc, List.getElem?_append_right (by omega), htake,
        List.getElem?_append_left (by omega), List.getElem?_take_of_lt (by omega), List.getElem?_drop,
        Nat.add_comm]
    · intro hout
      rw [Covers] at hout
      by_cases hlo : p < pos.toNat
      · rw [List.append_assoc, List.getElem?_append_left (by omega), List.getElem?_take_of_lt hlo]
      · have hlength : (dst.take pos.toNat ++ (src.drop pos2.toNat).take n).length = pos.toNat + n := by
          rw [List.length_append, htake, hmid]
        rw [List.getElem?_append_right (by omega), hlength, List.getElem?_drop]
        congr 1
        omega
  · cases h

end Memcpy

section Copies

variable {n : Nat} {src dst out : List α} {pos pos2 : ι → Int} {l : List ι}

-- A run is defined exactly if every copy stays in the buffers.
theorem copies_isSome_iff : (copies n src pos pos2 l dst).isSome ↔
    ∀ x ∈ l, 0 ≤ pos x ∧ pos x + n ≤ dst.length ∧ 0 ≤ pos2 x ∧ pos2 x + n ≤ src.length := by
  induction l generalizing dst with
  | nil => exact iff_of_true rfl fun _ h => nomatch h
  | cons x l ih =>
      rw [copies, List.foldlM_cons, List.forall_mem_cons]
      cases hx : memcpy n src dst (pos x) (pos2 x) with
      | none =>
          rw [memcpy] at hx
          split at hx
          · cases hx
          · rename_i hrange
            exact iff_of_false Bool.false_ne_true fun h => hrange h.1
      | some next =>
          have hlength := memcpy_length hx
          rw [memcpy] at hx
          split at hx
          · rename_i hrange
            have hnext : (copies n src pos pos2 l next).isSome ↔ _ := ih
            rw [hlength] at hnext
            exact hnext.trans (and_iff_right hrange).symm
          · cases hx

theorem copies_length (h : copies n src pos pos2 l dst = some out) : out.length = dst.length := by
  induction l generalizing dst with
  | nil =>
      obtain rfl := Option.some.inj h
      rfl
  | cons x l ih =>
      obtain ⟨next, hx, hrest⟩ := Option.bind_eq_some_iff.mp h
      rw [ih hrest, memcpy_length hx]

-- A byte that no copy covers stays.
theorem copies_outside (h : copies n src pos pos2 l dst = some out) {p : Nat}
    (hp : ∀ x ∈ l, ¬ Covers n (pos x) p) : out[p]? = dst[p]? := by
  induction l generalizing dst with
  | nil =>
      obtain rfl := Option.some.inj h
      rfl
  | cons x l ih =>
      obtain ⟨next, hx, hrest⟩ := Option.bind_eq_some_iff.mp h
      rw [List.forall_mem_cons] at hp
      rw [ih hrest hp.2, (memcpy_getElem? hx p).2 hp.1]

-- A byte that only one copy covers comes from it.
theorem copies_inside (h : copies n src pos pos2 l dst = some out) {p : Nat} {x : ι} (hx : x ∈ l)
    (hp : Covers n (pos x) p) (hone : ∀ y ∈ l, Covers n (pos y) p → y = x) :
    out[p]? = src[p - (pos x).toNat + (pos2 x).toNat]? := by
  induction l generalizing dst with
  | nil => cases hx
  | cons y l ih =>
      obtain ⟨next, hy, hrest⟩ := Option.bind_eq_some_iff.mp h
      by_cases hlater : x ∈ l
      · exact ih hrest hlater fun z hz => hone z (List.mem_cons_of_mem y hz)
      · obtain rfl := (List.mem_cons.mp hx).resolve_right hlater
        have hnot : ∀ z ∈ l, ¬ Covers n (pos z) p := by
          intro z hz hcov
          exact hlater (hone z (List.mem_cons_of_mem x hz) hcov ▸ hz)
        rw [copies_outside hrest hnot, (memcpy_getElem? hy p).1 hp]

end Copies

-- Two nested loops visit the pairs of their indices.
theorem foldlM_foldlM {m : Type _ → Type _} [Monad m] [LawfulMonad m] {β σ : Type _} (is : List ι)
    (js : List β) (body : σ → ι → β → m σ) (s : σ) :
    is.foldlM (fun s i => js.foldlM (fun s j => body s i j) s) s =
      (is ×ˢ js).foldlM (fun s x => body s x.1 x.2) s := by
  induction is generalizing s with
  | nil => rfl
  | cons i is ih =>
      rw [List.foldlM_cons, List.product_cons, List.foldlM_append, List.foldlM_map]
      simp only [ih]

end Scatter
