import Mathlib.Data.List.Infix
import Vcu.ByteArray.Lemmas
import Vcu.Lib.Machine

namespace Vcu.ByteArray

open Machine

inductive Op where
  | appendChar (c : UInt8)
  -- `none` is a null pointer, and the length is that of the range.
  | append (s : Option (List UInt8))
  | appendArray (s : List UInt8)
  | appendSelf
  | remove (index len : Int)
  | clear

def apply (a : ByteArray) : Op → ByteArray
  | .appendChar c => a.appendChar c
  | .append none => a
  | .append (some s) => a.append s
  | .appendArray s => a.appendArray s
  | .appendSelf => a.appendArray a.bytes
  | .remove index len => a.remove index len
  | .clear => a.clear

def step (a : ByteArray) (op : Op) : Option ByteArray := some (a.apply op)

-- The growth rule leaves room for `n` more bytes: twice the capacity is enough, or `n` is too
-- large for doubling and is added itself.
def GrowsEnough (a : ByteArray) (n : Nat) : Prop :=
  a.dataSize + n < 2 * a.capacity ∨ 2 * a.capacity ≤ n

instance (a : ByteArray) (n : Nat) : Decidable (GrowsEnough a n) :=
  inferInstanceAs (Decidable (a.dataSize + n < 2 * a.capacity ∨ 2 * a.capacity ≤ n))

-- How many bytes an operation appends.
def Op.added (a : ByteArray) : Op → Nat
  | .appendChar _ => 1
  | .append none => 0
  | .append (some s) => s.length
  | .appendArray s => s.length
  | .appendSelf => a.dataSize
  | .remove _ _ => 0
  | .clear => 0

-- After the growth there is room exactly if the growth rule is enough.
theorem room_iff {a : ByteArray} (h : a.WellFormed) (n : Nat) :
    a.dataSize + n < (a.reserve n).capacity ↔ GrowsEnough a n := by
  have hlt := h.2.2
  rw [reserve, GrowsEnough]
  split
  · rw [capacity_expand]
    split <;> omega
  · omega

theorem append_wellFormed_iff {a : ByteArray} (h : a.WellFormed) (s : List UInt8) :
    (a.append s).WellFormed ↔ GrowsEnough a s.length := by
  rw [← room_iff h]
  constructor
  · intro hs
    exact hs.2.2
  · intro hroom
    have hw := wellFormed_write a.dataSize (s := s) (reserve_keeps h s.length) (Nat.le_of_lt hroom)
    have hb : ({ (a.reserve s.length).write a.dataSize s with
        dataSize := a.dataSize + s.length } : ByteArray).WellFormed := ⟨hw.1, hw.2.1, hroom⟩
    exact wellFormed_write _ hb hroom

theorem growsEnough_of_append {a : ByteArray} (h : a.WellFormed) {s : List UInt8}
    (hs : (a.append s).overrun = false) : GrowsEnough a s.length := by
  obtain ⟨-, hblock, hlt⟩ := reserve_keeps h s.length
  rw [dataSize_reserve] at hlt
  have hlength := length_block_write (a.reserve s.length) a.dataSize s (by omega)
  have hzero : ¬ ((a.reserve s.length).write a.dataSize s).block.length < a.dataSize + s.length + 1 :=
    of_decide_eq_false (Bool.or_eq_false_iff.mp hs).2
  rw [← room_iff h]
  omega

theorem remove_wellFormed {a : ByteArray} (h : a.WellFormed) (index len : Int) :
    (a.remove index len).WellFormed := by
  have hlength := a.length_bytes h.held
  have hlt := h.2.2
  rw [remove]
  split
  · exact h
  · have hmoved : (a.write index.toNat (a.bytes.drop (index + len).toNat)).WellFormed := by
      refine wellFormed_write _ h ?_
      rw [List.length_drop, hlength]
      omega
    have hsize : ({ a.write index.toNat (a.bytes.drop (index + len).toNat) with
        dataSize := a.dataSize - len.toNat } : ByteArray).WellFormed :=
      ⟨hmoved.1, hmoved.2.1, Nat.lt_of_le_of_lt (Nat.sub_le ..) hlt⟩
    dsimp only
    split
    · exact shrink_wellFormed hsize ‹_›
    · exact hsize

theorem growsEnough_of_le {a : ByteArray} (h : a.WellFormed) {n : Nat} (hn : n ≤ a.dataSize ∨ n ≤ 1) :
    GrowsEnough a n := by
  have hlt := h.2.2
  rw [GrowsEnough]
  omega

theorem appendArray_wellFormed_iff {a : ByteArray} (h : a.WellFormed) (s : List UInt8) :
    (a.appendArray s).WellFormed ↔ GrowsEnough a s.length := by
  rw [appendArray]
  split
  · subst s
    exact iff_of_true h (growsEnough_of_le h (.inr (Nat.zero_le _)))
  · exact append_wellFormed_iff h s

-- One operation keeps the array well formed exactly if the growth rule leaves enough room.
theorem apply_wellFormed_iff {a : ByteArray} (h : a.WellFormed) (op : Op) :
    (a.apply op).WellFormed ↔ GrowsEnough a (op.added a) := by
  cases op with
  | appendChar c =>
      rw [apply, appendChar_eq]
      exact append_wellFormed_iff h [c]
  | append s =>
      cases s with
      | none => exact iff_of_true h (growsEnough_of_le h (.inr (Nat.zero_le _)))
      | some s => exact append_wellFormed_iff h s
  | appendArray s => exact appendArray_wellFormed_iff h s
  | appendSelf =>
      have hself := appendArray_wellFormed_iff h a.bytes
      rw [a.length_bytes h.held] at hself
      exact hself
  | remove index len =>
      exact iff_of_true (remove_wellFormed h index len) (growsEnough_of_le h (.inr (Nat.zero_le _)))
  | clear =>
      exact iff_of_true (clear_wellFormed h) (growsEnough_of_le h (.inr (Nat.zero_le _)))

-- An operation is safe in a state.
def safeOp (_ : List Op) (a : ByteArray) (op : Op) : Prop := GrowsEnough a (op.added a)

-- All states of a run are well formed exactly if every append of it meets the growth rule. The
-- last state of a run shows what happened before: `overrun` stays, and so do the lost bytes.
theorem run_wellFormed_iff (ops : List Op) :
    (∀ before a, before <+: ops → run step {} before = some a → a.WellFormed) ↔
      Along step safeOp {} ops := by
  constructor
  · rintro hall before op after a rfl ha
    have hpre : before <+: before ++ op :: after := List.prefix_append ..
    have hnext : before ++ [op] <+: before ++ op :: after :=
      ⟨after, by rw [List.append_assoc, List.singleton_append]⟩
    have hrun : run step {} (before ++ [op]) = some (a.apply op) := by
      rw [run_concat, ha]
      rfl
    exact (apply_wellFormed_iff (hall before a hpre ha) op).mp (hall _ _ hnext hrun)
  · rintro hsafe before a ⟨after, rfl⟩ ha
    refine run_invariant_along safeOp (fun _ a => a.WellFormed) wellFormed_init ?_
      hsafe.of_append ha
    intro es t op u ht hop hstep
    obtain rfl := Option.some.inj hstep
    exact (apply_wellFormed_iff ht op).mpr hop

-- After 1000 bytes of the first 1024 an append of 2000 bytes only doubles the capacity.
theorem not_wellFormed_doubled :
    ∃ a, run step {} [.append (some (List.replicate 1000 7)), .append (some (List.replicate 2000 7))] =
        some a ∧ a.capacity = 2048 ∧ a.dataSize = 3000 ∧ a.overrun = true := by
  decide +kernel

end Vcu.ByteArray
