import Vcu.Lib.History
import Vcu.Lib.Scatter
import Vcu.Lib.Window
import Mathlib.Data.List.Induction

-- A buffer of equal slots that is written to round and round.
namespace Slots

open History Scatter

variable {α : Type*}

-- Where slot `k` begins, for `count` slots of `size` elements from `base` on.
def address (base size count k : Nat) : Nat := base + size * (k % count)

-- The first `d.1` elements of `d.2` go into the next slot.
def fill (base size count start : Nat) (ds : List (Nat × List α)) (mem : List α) : Option (List α) :=
  ds.zipIdx.foldlM
    (fun mem d => memcpy d.1.1 d.1.2 mem (address base size count (start + d.2)) 0) mem

variable {base size count start : Nat} {ds : List (Nat × List α)} {mem : List α}

theorem address_le (base size : Nat) (hcount : 0 < count) (k : Nat) :
    address base size count k + size ≤ base + size * count := by
  have hlt : k % count + 1 ≤ count := Nat.mod_lt k hcount
  have hmul := Nat.mul_le_mul_left size hlt
  rw [Nat.mul_add, Nat.mul_one] at hmul
  rw [address]
  omega

-- Two positions less than a lap apart have slots that do not meet.
theorem address_disjoint (base size : Nat) {j k : Nat} (hjk : j < k) (hk : k < j + count) :
    address base size count j + size ≤ address base size count k ∨
      address base size count k + size ≤ address base size count j := by
  have hne : j % count ≠ k % count := by
    intro h
    have := Window.eq_of_mod_eq (Nat.le_refl j) (by omega) (Nat.le_of_lt hjk) hk h
    omega
  rw [address, address]
  rcases Nat.lt_or_gt_of_ne hne with h | h
  · have := Nat.mul_le_mul_left size (Nat.succ_le_of_lt h)
    rw [Nat.mul_succ] at this
    omega
  · have := Nat.mul_le_mul_left size (Nat.succ_le_of_lt h)
    rw [Nat.mul_succ] at this
    omega

theorem fill_concat (d : Nat × List α) :
    fill base size count start (ds ++ [d]) mem =
      (fill base size count start ds mem).bind fun out =>
        memcpy d.1 d.2 out (address base size count (start + ds.length)) 0 := by
  rw [fill, List.zipIdx_append, List.foldlM_append]
  simp [fill]

-- What is known of the memory after the writes. The last lap of data is still there.
structure Filled (base size count start : Nat) (ds : List (Nat × List α)) (mem out : List α) : Prop where
  length : out.length = mem.length
  outside : ∀ p, p < base ∨ base + size * count ≤ p → out[p]? = mem[p]?
  recent : ∀ k d, ds[k]? = some d → ds.length ≤ k + count → ∀ i, i < d.1 →
    out[address base size count (start + k) + i]? = d.2[i]?

theorem Filled.concat {d : Nat × List α} {out next : List α} (hcount : 0 < count)
    (h : Filled base size count start ds mem out) (hds : ∀ d ∈ ds, d.1 ≤ size) (hd : d.1 ≤ size)
    (hnext : memcpy d.1 d.2 out (address base size count (start + ds.length)) 0 = some next) :
    Filled base size count start (ds ++ [d]) mem next := by
  have hget := memcpy_getElem? hnext
  have hend := address_le base size hcount (start + ds.length)
  refine ⟨(memcpy_length hnext).trans h.length, ?_, ?_⟩
  · intro p hp
    rw [← h.outside p hp]
    refine (hget p).2 ?_
    rintro ⟨hlo, hhi⟩
    have : base ≤ address base size count (start + ds.length) := Nat.le_add_right _ _
    omega
  · intro k c hk hlap i hi
    rw [List.length_append, List.length_singleton] at hlap
    rcases getElem?_concat_eq_some.mp hk with hk | ⟨rfl, rfl⟩
    · have hlt := (List.getElem?_eq_some_iff.mp hk).1
      have hsize := hds c (List.mem_of_getElem? hk)
      have hapart := address_disjoint base size (j := start + k) (k := start + ds.length) (by omega)
        (show _ < _ + count by omega)
      rw [← h.recent k c hk (by omega) i hi]
      refine (hget _).2 ?_
      rintro ⟨hlo, hhi⟩
      omega
    · rw [(hget _).1 ⟨by omega, by omega⟩]
      congr 1
      omega

-- Writes of at most a slot each stay in the slots.
theorem exists_fill (hcount : 0 < count) (hmem : base + size * count ≤ mem.length)
    (hds : ∀ d ∈ ds, d.1 ≤ size ∧ d.1 ≤ d.2.length) :
    ∃ out, fill base size count start ds mem = some out ∧ Filled base size count start ds mem out := by
  induction ds using List.reverseRecOn with
  | nil => exact ⟨mem, rfl, rfl, fun _ _ => rfl, fun k d hk => by cases hk⟩
  | append_singleton ds d ih =>
      have hinit : ∀ d ∈ ds, d.1 ≤ size ∧ d.1 ≤ d.2.length := fun c hc =>
        hds c (List.mem_append_left _ hc)
      obtain ⟨hdsize, hdlength⟩ := hds d (List.mem_append_right _ (List.mem_singleton_self d))
      obtain ⟨out, hout, h⟩ := ih hinit
      have hend := address_le base size hcount (start + ds.length)
      have hlength := h.length
      obtain ⟨next, hnext⟩ : ∃ next,
          memcpy d.1 d.2 out (address base size count (start + ds.length)) 0 = some next := by
        rw [memcpy, if_pos ⟨by omega, by omega, by omega, by omega⟩]
        exact ⟨_, rfl⟩
      refine ⟨next, ?_, h.concat hcount (fun c hc => (hinit c hc).1) hdsize hnext⟩
      rw [fill_concat, hout, Option.bind_some, hnext]

end Slots
