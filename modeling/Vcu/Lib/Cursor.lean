import Mathlib.Data.List.Infix

-- What stands at a position of a list. A reader that moves over the list carries such facts along.
namespace Cursor

variable {α : Type*} {data a b : List α} {x : α} {pos i : Nat}

def Has (data : List α) (pos : Nat) (a : List α) : Prop := a <+: data.drop pos

theorem has_self (data : List α) : Has data 0 data := List.prefix_rfl

theorem has_append : Has data pos (a ++ b) ↔ Has data pos a ∧ Has data (pos + a.length) b := by
  constructor
  · rintro ⟨rest, h⟩
    refine ⟨⟨b ++ rest, by rw [← h, List.append_assoc]⟩, ⟨rest, ?_⟩⟩
    rw [← List.drop_drop, ← h, List.append_assoc, List.drop_left]
  · rintro ⟨⟨rest, h⟩, ⟨rest', h'⟩⟩
    rw [← List.drop_drop, ← h, List.drop_left] at h'
    exact ⟨rest', by rw [← h, ← h', List.append_assoc]⟩

theorem has_cons : Has data pos (x :: a) ↔ data[pos]? = some x ∧ Has data (pos + 1) a := by
  rw [← List.singleton_append, has_append, List.length_singleton]
  refine and_congr_left fun _ => ?_
  constructor
  · rintro ⟨rest, h⟩
    rw [← Nat.add_zero pos, ← List.getElem?_drop, ← h]
    rfl
  · intro h
    obtain ⟨hlt, rfl⟩ := List.getElem?_eq_some_iff.mp h
    exact ⟨data.drop (pos + 1), by rw [List.singleton_append, List.cons_getElem_drop_succ]⟩

theorem Has.getElem? (h : Has data pos a) (hi : i < a.length) : data[pos + i]? = a[i]? := by
  obtain ⟨rest, h⟩ := h
  rw [← List.getElem?_drop, ← h, List.getElem?_append_left hi]

theorem Has.take (h : Has data pos a) : (data.drop pos).take a.length = a := by
  obtain ⟨rest, h⟩ := h
  rw [← h, List.take_left]

theorem Has.le (h : Has data pos a) (hne : a ≠ []) : pos + a.length ≤ data.length := by
  have hle := h.length_le
  have hpos := List.length_pos_iff.mpr hne
  rw [List.length_drop] at hle
  omega

end Cursor
