import Vcu.ByteArray

namespace Vcu.ByteArray

-- The contents lie inside the block.
def Held (a : ByteArray) : Prop := a.dataSize ≤ a.block.length

@[simp] theorem block_write (a : ByteArray) (pos : Nat) (s : List UInt8) :
    (a.write pos s).block = a.block.take pos ++ s ++ a.block.drop (pos + s.length) := rfl

@[simp] theorem dataSize_write (a : ByteArray) (pos : Nat) (s : List UInt8) :
    (a.write pos s).dataSize = a.dataSize := rfl

@[simp] theorem capacity_write (a : ByteArray) (pos : Nat) (s : List UInt8) :
    (a.write pos s).capacity = a.capacity := rfl

@[simp] theorem overrun_write (a : ByteArray) (pos : Nat) (s : List UInt8) :
    (a.write pos s).overrun = (a.overrun || decide (a.block.length < pos + s.length)) := rfl

@[simp] theorem block_setSize (a : ByteArray) (n : Nat) :
    ({ a with dataSize := n } : ByteArray).block = a.block := rfl

theorem appendChar_eq (a : ByteArray) (c : UInt8) : a.appendChar c = a.append [c] := rfl

theorem length_block_write (a : ByteArray) (pos : Nat) (s : List UInt8) (h : pos ≤ a.block.length) :
    (a.write pos s).block.length = max a.block.length (pos + s.length) := by
  simp only [block_write, List.length_append, List.length_take, List.length_drop]
  omega

theorem take_block_write (a : ByteArray) (pos : Nat) (s : List UInt8) (h : pos ≤ a.block.length) :
    (a.write pos s).block.take (pos + s.length) = a.block.take pos ++ s := by
  have hl : (a.block.take pos ++ s).length = pos + s.length := by
    simp only [List.length_append, List.length_take]
    omega
  rw [block_write, ← hl]
  exact List.take_left

theorem length_bytes (a : ByteArray) (h : a.Held) : a.bytes.length = a.dataSize := by
  unfold Held at h
  simp only [bytes, List.length_take]
  omega

theorem dataSize_expand (a : ByteArray) (n : Nat) : (a.expand n).dataSize = a.dataSize := rfl

theorem bytes_expand (a : ByteArray) (n : Nat) (h : a.Held) : (a.expand n).bytes = a.bytes := by
  have hl := a.length_bytes h
  simp only [bytes, expand, block_write, dataSize_write, List.take_zero, List.nil_append,
    Nat.zero_add]
  simp only [bytes] at hl
  rw [List.take_append_of_le_length (Nat.le_of_eq hl.symm),
    List.take_of_length_le (Nat.le_of_eq hl)]

theorem held_expand (a : ByteArray) (n : Nat) (h : a.Held) : (a.expand n).Held := by
  have hl := a.length_bytes h
  simp only [Held, expand, block_write, dataSize_write, List.take_zero, List.nil_append,
    List.length_append, hl]
  omega

theorem dataSize_reserve (a : ByteArray) (n : Nat) : (a.reserve n).dataSize = a.dataSize := by
  unfold reserve
  split
  · exact a.dataSize_expand n
  · rfl

theorem bytes_reserve (a : ByteArray) (n : Nat) (h : a.Held) : (a.reserve n).bytes = a.bytes := by
  unfold reserve
  split
  · exact a.bytes_expand n h
  · rfl

theorem held_reserve (a : ByteArray) (n : Nat) (h : a.Held) : (a.reserve n).Held := by
  unfold reserve
  split
  · exact a.held_expand n h
  · exact h

@[simp] theorem dataSize_append (a : ByteArray) (s : List UInt8) :
    (a.append s).dataSize = a.dataSize + s.length := rfl

-- An append adds its range to the contents, whatever the capacity arithmetic does.
theorem bytes_append (a : ByteArray) (s : List UInt8) (h : a.Held) :
    (a.append s).bytes = a.bytes ++ s := by
  have hr : a.dataSize ≤ (a.reserve s.length).block.length := by
    have := a.held_reserve s.length h
    rwa [Held, dataSize_reserve] at this
  have hw := take_block_write (a.reserve s.length) a.dataSize s hr
  have hlen := length_block_write (a.reserve s.length) a.dataSize s hr
  have hb := a.bytes_reserve s.length h
  rw [bytes, dataSize_reserve] at hb
  rw [hb] at hw
  have hle : a.dataSize + s.length ≤
      ((a.reserve s.length).write a.dataSize s).block.length := by omega
  rw [bytes, dataSize_append]
  simp only [append]
  rw [block_write, block_setSize, List.append_assoc,
    List.take_append_of_le_length (by rw [List.length_take]; omega), List.take_take, Nat.min_self, hw]

theorem held_append (a : ByteArray) (s : List UInt8) (h : a.Held) : (a.append s).Held := by
  have hr : a.dataSize ≤ (a.reserve s.length).block.length := by
    have := a.held_reserve s.length h
    rwa [Held, dataSize_reserve] at this
  have hlen := length_block_write (a.reserve s.length) a.dataSize s hr
  rw [Held, dataSize_append]
  simp only [append]
  rw [length_block_write _ _ _ (by rw [block_setSize]; omega), block_setSize]
  omega

theorem bytes_shrink (a : ByteArray) (h : a.Held) : a.shrink.bytes = a.bytes := by
  have hl := a.length_bytes h
  simp only [bytes, shrink, block_write, dataSize_write, List.take_zero, List.nil_append,
    Nat.zero_add]
  simp only [bytes] at hl
  rw [List.take_append_of_le_length (Nat.le_of_eq hl.symm),
    List.take_of_length_le (Nat.le_of_eq hl)]

theorem held_shrink (a : ByteArray) (h : a.Held) : a.shrink.Held := by
  have hl := a.length_bytes h
  simp only [Held, shrink, block_write, dataSize_write, List.take_zero, List.nil_append,
    List.length_append, hl]
  omega

section Remove

variable {a : ByteArray} {index len : Nat}

theorem remove_eq (h : index + len ≤ a.dataSize) :
    a.remove index len =
      let b : ByteArray :=
      { a.write index (a.bytes.drop (index + len)) with dataSize := a.dataSize - len }
      if b.capacity / 4 > b.dataSize then b.shrink else b := by
  have hin : ¬ ((len : Int) < 0 ∨ (index : Int) < 0 ∨ (a.dataSize : Int) - index < len) := by omega
  have hsum : ((index : Int) + len).toNat = index + len := by omega
  rw [remove, if_neg hin, hsum, Int.toNat_natCast, Int.toNat_natCast]

-- The contents before a remove decides whether to shrink the block.
theorem bytes_moved (h : a.Held) (hr : index + len ≤ a.dataSize) :
    let b : ByteArray :=
      { a.write index (a.bytes.drop (index + len)) with dataSize := a.dataSize - len }
    b.Held ∧ b.bytes = a.bytes.take index ++ a.bytes.drop (index + len) := by
  have hl := a.length_bytes h
  have hi : index ≤ a.block.length := Nat.le_trans (by omega) h
  have hd : (a.bytes.drop (index + len)).length = a.dataSize - (index + len) := by
    rw [List.length_drop, hl]
  have hw := length_block_write a index (a.bytes.drop (index + len)) hi
  have ht := take_block_write a index (a.bytes.drop (index + len)) hi
  have hsize : index + (a.bytes.drop (index + len)).length = a.dataSize - len := by omega
  have htake : a.bytes.take index = a.block.take index := by
    rw [bytes, List.take_take, Nat.min_eq_left (by omega)]
  refine ⟨?_, ?_⟩
  · show a.dataSize - len ≤ (a.write index (a.bytes.drop (index + len))).block.length
    omega
  · show (a.write index (a.bytes.drop (index + len))).block.take (a.dataSize - len) = _
    rw [← hsize, ht, htake]

theorem bytes_remove (h : a.Held) (hr : index + len ≤ a.dataSize) :
    (a.remove index len).bytes = a.bytes.take index ++ a.bytes.drop (index + len) := by
  obtain ⟨hheld, hbytes⟩ := bytes_moved h hr
  rw [remove_eq hr]
  simp only
  split
  · rw [bytes_shrink _ hheld, hbytes]
  · exact hbytes

theorem held_remove (h : a.Held) (hr : index + len ≤ a.dataSize) : (a.remove index len).Held := by
  obtain ⟨hheld, -⟩ := bytes_moved h hr
  rw [remove_eq hr]
  simp only
  split
  · exact held_shrink _ hheld
  · exact hheld

end Remove

@[simp] theorem dataSize_clear (a : ByteArray) : a.clear.dataSize = 0 := rfl

@[simp] theorem bytes_clear (a : ByteArray) : a.clear.bytes = [] := by simp [bytes]

-- No write has left the block so far, and the next one that fits will not either.
def WellFormed (a : ByteArray) : Prop :=
  a.overrun = false ∧ a.block.length = a.capacity ∧ a.dataSize < a.capacity

theorem WellFormed.held {a : ByteArray} (h : a.WellFormed) : a.Held :=
  Nat.le_of_lt (Nat.lt_of_lt_of_eq h.2.2 h.2.1.symm)

theorem wellFormed_init : WellFormed {} := ⟨rfl, List.length_replicate, Nat.zero_lt_succ _⟩

theorem wellFormed_write {a : ByteArray} (pos : Nat) {s : List UInt8} (h : a.WellFormed)
    (hp : pos + s.length ≤ a.capacity) : (a.write pos s).WellFormed := by
  obtain ⟨ho, hb, hd⟩ := h
  have hl := length_block_write a pos s (by omega)
  have hn : ¬ a.block.length < pos + s.length := by omega
  exact ⟨by simp [ho, hn], by rw [hl, capacity_write]; omega, hd⟩

-- A fresh block that is larger than the contents takes them.
theorem moved_wellFormed {a : ByteArray} (h : a.WellFormed) {c : Nat} (hc : a.dataSize < c) :
    (({ a with capacity := c, pData := some (List.replicate c 0) } : ByteArray).write 0
      a.bytes).WellFormed := by
  have hw : ({ a with capacity := c, pData := some (List.replicate c 0) } : ByteArray).WellFormed :=
    ⟨h.1, List.length_replicate, hc⟩
  refine wellFormed_write 0 hw ?_
  rw [a.length_bytes h.held, Nat.zero_add]
  exact Nat.le_of_lt hc

theorem expand_wellFormed {a : ByteArray} (h : a.WellFormed) (n : Nat) : (a.expand n).WellFormed := by
  have hlt := h.2.2
  refine moved_wellFormed h ?_
  split <;> omega

theorem shrink_wellFormed {a : ByteArray} (h : a.WellFormed) (hquarter : a.capacity / 4 > a.dataSize) :
    a.shrink.WellFormed :=
  moved_wellFormed h (by omega)

theorem capacity_expand (a : ByteArray) (n : Nat) :
    (a.expand n).capacity = if n < a.capacity * 2 then a.capacity * 2 else a.capacity + (n + 1) := rfl

theorem reserve_keeps {a : ByteArray} (h : a.WellFormed) (n : Nat) : (a.reserve n).WellFormed := by
  rw [reserve]
  split
  · exact expand_wellFormed h n
  · exact h

theorem reserve_wellFormed {a : ByteArray} {n : Nat} (h : a.WellFormed)
    (hn : a.dataSize + n < 2 * a.capacity) :
    (a.reserve n).WellFormed ∧ a.capacity ≤ (a.reserve n).capacity ∧
      a.dataSize + n < (a.reserve n).capacity := by
  refine ⟨reserve_keeps h n, ?_⟩
  have hlt := h.2.2
  rw [reserve]
  split
  · rw [capacity_expand, if_pos (by omega)]
    omega
  · omega

-- Doubling is enough room as long as the new size stays below twice the old capacity.
theorem append_wellFormed {a : ByteArray} {s : List UInt8} (h : a.WellFormed)
    (hs : a.dataSize + s.length < 2 * a.capacity) :
    (a.append s).WellFormed ∧ a.capacity ≤ (a.append s).capacity := by
  obtain ⟨hr, hc, hlt⟩ := reserve_wellFormed h hs
  have hw := wellFormed_write a.dataSize (s := s) hr (Nat.le_of_lt hlt)
  have hb : ({ (a.reserve s.length).write a.dataSize s with
      dataSize := a.dataSize + s.length } : ByteArray).WellFormed := ⟨hw.1, hw.2.1, hlt⟩
  exact ⟨wellFormed_write _ hb hlt, hc⟩

theorem clear_wellFormed {a : ByteArray} (h : a.WellFormed) : a.clear.WellFormed := by
  have hw := wellFormed_write 0 (s := List.replicate a.dataSize 0) h
    (by simpa using Nat.le_of_lt h.2.2)
  exact ⟨hw.1, hw.2.1, Nat.lt_of_le_of_lt (Nat.zero_le _) h.2.2⟩

end Vcu.ByteArray
