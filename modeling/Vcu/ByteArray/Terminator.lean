import Vcu.ByteArray.Safety

namespace Vcu.ByteArray

open Machine

-- The byte at data()[size()].
def ZeroBehind (a : ByteArray) : Prop := a.block[a.dataSize]? = some 0

-- An operation on the list of bytes.
def Op.edit (content : List UInt8) : Op → List UInt8
  | .appendChar c => content ++ [c]
  | .append none => content
  | .append (some s) => content ++ s
  | .appendArray s => content ++ s
  | .appendSelf => content ++ content
  | .remove index len => content.take index.toNat ++ content.drop (index + len).toNat
  | .clear => []

def edited (ops : List Op) : List UInt8 := ops.foldl Op.edit []

-- Appends of bytes that are not zero, and removals inside the contents.
def Op.Edits (a : ByteArray) : Op → Prop
  | .appendChar c => c ≠ 0
  | .append none => True
  | .append (some s) => (0 : UInt8) ∉ s
  | .appendArray s => (0 : UInt8) ∉ s
  | .appendSelf => True
  | .remove index len => 0 ≤ index ∧ 0 ≤ len ∧ index + len ≤ a.dataSize
  | .clear => False

-- A removal of bytes that makes the block shrink, or of no bytes.
def Op.Restores (a : ByteArray) : Op → Prop
  | .remove _ len => len = 0 ∨ a.capacity / 4 > a.dataSize - len.toNat
  | _ => True

def editOp (before : List Op) (a : ByteArray) (op : Op) : Prop := op.Edits a ∧ safeOp before a op

-- The array shows `content`, ends with a zero, and mid with its default length ends where it ends.
structure Terminated (a : ByteArray) (content : List UInt8) : Prop where
  shown : a.bytes = content ∧ a.dataSize = content.length
  zero : a.ZeroBehind
  mid : ∀ i : Nat, i ≤ a.dataSize → (a.mid i (-1)).bytes = content.drop i

section Step

variable {a : ByteArray} {index len : Nat}

theorem block_eq (a : ByteArray) : a.block = a.bytes ++ a.block.drop a.dataSize :=
  (List.take_append_drop a.dataSize a.block).symm

theorem zeroBehind_iff (h : a.Held) : a.ZeroBehind ↔ ∃ rest, a.block = a.bytes ++ 0 :: rest := by
  have hlength := a.length_bytes h
  rw [ZeroBehind, block_eq a, List.getElem?_append_right (by omega), hlength, Nat.sub_self]
  cases a.block.drop a.dataSize with
  | nil => simp
  | cons b back => simp

-- A default slice is what strlen counts from its index.
theorem bytes_mid_default {i : Nat} (hi : i ≤ a.dataSize) :
    (a.mid i (-1)).bytes = cString (a.block.drop i) := by
  rw [mid, if_neg (by omega), Int.toNat_natCast]
  cases hdata : a.pData with
  | none =>
      have hblock : a.block = [] := by rw [block, hdata, Option.getD_none]
      rw [hblock, List.drop_nil]
      rfl
  | some data =>
      have hblock : a.block = data := by rw [block, hdata, Option.getD_some]
      rw [hblock]
      exact List.take_left

theorem terminated_iff {content : List UInt8} (h : a.WellFormed) (hcontent : a.bytes = content)
    (hzero : (0 : UInt8) ∉ content) : Terminated a content ↔ a.ZeroBehind := by
  have hlength := a.length_bytes h.held
  rw [hcontent] at hlength
  refine ⟨Terminated.zero, fun hbehind => ⟨⟨hcontent, hlength.symm⟩, hbehind, ?_⟩⟩
  intro i hi
  obtain ⟨rest, hrest⟩ := (zeroBehind_iff h.held).mp hbehind
  rw [bytes_mid_default hi, hrest, hcontent, List.drop_append_of_le_length (by omega)]
  exact cString_of_notMem (fun hmem => hzero (List.mem_of_mem_drop hmem)) rest

theorem getElem?_block_write (a : ByteArray) {pos : Nat} (hpos : pos ≤ a.block.length) (b : UInt8)
    (s : List UInt8) : (a.write pos (b :: s)).block[pos]? = some b := by
  have hlength : (a.block.take pos).length = pos := by
    rw [List.length_take]
    omega
  rw [block_write, List.append_assoc, List.getElem?_append_right (by omega), hlength, Nat.sub_self]
  rfl

-- Every append ends with its zero.
theorem zeroBehind_append (h : a.WellFormed) (s : List UInt8) :
    (a.append s).ZeroBehind := by
  have hr := reserve_keeps h s.length
  have hlength := length_block_write (a.reserve s.length) a.dataSize s (by
    have hheld := hr.held
    rwa [Held, dataSize_reserve] at hheld)
  refine getElem?_block_write _ ?_ 0 []
  rw [block_setSize, hlength]
  exact le_max_right _ _

theorem zeroBehind_shrink (h : a.WellFormed) (hquarter : a.capacity / 4 > a.dataSize) :
    a.shrink.ZeroBehind := by
  have hlength := a.length_bytes h.held
  have hroom : a.bytes.length < a.capacity / 2 := by omega
  refine (zeroBehind_iff (shrink_wellFormed h hquarter).held).mpr
    ⟨List.replicate (a.capacity / 2 - a.bytes.length - 1) 0, ?_⟩
  rw [bytes_shrink a h.held]
  have hrest : a.capacity / 2 - a.bytes.length = a.capacity / 2 - a.bytes.length - 1 + 1 := by omega
  show [] ++ a.bytes ++ (List.replicate (a.capacity / 2) 0).drop (0 + a.bytes.length) = _
  rw [List.nil_append, Nat.zero_add, List.drop_replicate, hrest, List.replicate_succ]
  rfl

-- A removal leaves the byte at its new end as it was, unless it shrinks the block.
theorem zeroBehind_remove_iff (h : a.WellFormed) (hr : index + len ≤ a.dataSize) :
    (a.remove index len).ZeroBehind ↔
      a.capacity / 4 > a.dataSize - len ∨ a.block[a.dataSize - len]? = some 0 := by
  have hlength := a.length_bytes h.held
  have hblock : a.block.length = a.capacity := h.2.1
  have hlt := h.2.2
  have hmoved := (wellFormed_write index (s := a.bytes.drop (index + len)) h (by
    rw [List.length_drop]
    omega))
  rw [remove_eq hr]
  by_cases hquarter : a.capacity / 4 > a.dataSize - len
  · simp only [capacity_write, hquarter, if_true]
    refine iff_of_true (zeroBehind_shrink ⟨hmoved.1, hmoved.2.1, ?_⟩ hquarter) (.inl trivial)
    exact Nat.lt_of_le_of_lt (Nat.sub_le ..) hlt
  · simp only [capacity_write, hquarter, if_false, false_or]
    have hend : index + (a.bytes.drop (index + len)).length = a.dataSize - len := by
      rw [List.length_drop]
      omega
    have hfront : (a.block.take index ++ a.bytes.drop (index + len)).length = a.dataSize - len := by
      rw [List.length_append, List.length_take, List.length_drop]
      omega
    show (a.block.take index ++ a.bytes.drop (index + len) ++
      a.block.drop (index + (a.bytes.drop (index + len)).length))[a.dataSize - len]? = some 0 ↔ _
    rw [List.getElem?_append_right (Nat.le_of_eq hfront), hfront, hend, List.getElem?_drop,
      Nat.sub_self, Nat.add_zero]

end Step

section Operations

variable {a : ByteArray} {op : Op}

theorem edit_bytes (h : a.WellFormed) (hop : op.Edits a) : (a.apply op).bytes = op.edit a.bytes := by
  have happend : ∀ s, (a.appendArray s).bytes = a.bytes ++ s := by
    intro s
    rw [appendArray]
    split
    · subst s
      rw [List.append_nil]
    · exact bytes_append a s h.held
  cases op with
  | appendChar c => exact bytes_append a [c] h.held
  | append s =>
      cases s with
      | none => rfl
      | some s => exact bytes_append a s h.held
  | appendArray s => exact happend s
  | appendSelf => exact happend a.bytes
  | remove index len =>
      obtain ⟨hindex, hlen, hin⟩ := hop
      lift index to Nat using hindex
      lift len to Nat using hlen
      exact bytes_remove h.held (by omega)
  | clear => exact absurd hop id

theorem zero_notMem_edit (hzero : (0 : UInt8) ∉ a.bytes) (hop : op.Edits a) :
    (0 : UInt8) ∉ op.edit a.bytes := by
  have happend : ∀ s : List UInt8, (0 : UInt8) ∉ s → (0 : UInt8) ∉ a.bytes ++ s := by
    intro s hs
    rw [List.mem_append, not_or]
    exact ⟨hzero, hs⟩
  cases op with
  | appendChar c => exact happend [c] (mt List.mem_singleton.mp hop.symm)
  | append s =>
      cases s with
      | none => exact hzero
      | some s => exact happend s hop
  | appendArray s => exact happend s hop
  | appendSelf => exact happend a.bytes hzero
  | remove index len =>
      rw [Op.edit, List.mem_append, not_or]
      exact ⟨fun hmem => hzero (List.mem_of_mem_take hmem), fun hmem => hzero (List.mem_of_mem_drop hmem)⟩
  | clear => exact absurd hop id

-- Behind an array that ended with a zero the next operation leaves one exactly if it restores it.
theorem zeroBehind_apply_iff (h : a.WellFormed) (hzero : (0 : UInt8) ∉ a.bytes)
    (hbehind : a.ZeroBehind) (hop : op.Edits a) : (a.apply op).ZeroBehind ↔ op.Restores a := by
  have happend : ∀ s, (a.appendArray s).ZeroBehind := by
    intro s
    rw [appendArray]
    split
    · exact hbehind
    · exact zeroBehind_append h s
  cases op with
  | appendChar c => exact iff_of_true (zeroBehind_append h [c]) trivial
  | append s =>
      cases s with
      | none => exact iff_of_true hbehind trivial
      | some s => exact iff_of_true (zeroBehind_append h s) trivial
  | appendArray s => exact iff_of_true (happend s) trivial
  | appendSelf => exact iff_of_true (happend a.bytes) trivial
  | remove index len =>
      obtain ⟨hindex, hlen, hin⟩ := hop
      lift index to Nat using hindex
      lift len to Nat using hlen
      have hlength := a.length_bytes h.held
      rw [apply, zeroBehind_remove_iff h (by omega), Op.Restores, Int.toNat_natCast, or_comm]
      refine or_congr_left ?_
      cases len with
      | zero => exact iff_of_true hbehind rfl
      | succ n =>
          refine iff_of_false ?_ (by omega)
          -- The byte at the new end is still one of the contents.
          intro hget
          rw [block_eq a, List.getElem?_append_left (by omega)] at hget
          exact hzero (List.mem_of_getElem? hget)
  | clear => exact absurd hop id

end Operations

section Runs

variable {ops : List Op} {a : ByteArray}

theorem edited_concat (ops : List Op) (op : Op) : edited (ops ++ [op]) = op.edit (edited ops) := by
  rw [edited, List.foldl_concat]
  rfl

-- Whatever stands behind them, the contents are right.
theorem contents_of_run (hedit : Along step editOp {} ops) (hr : run step {} ops = some a) :
    a.WellFormed ∧ a.bytes = edited ops ∧ (0 : UInt8) ∉ edited ops := by
  refine run_invariant_along editOp
    (fun ops a => a.WellFormed ∧ a.bytes = edited ops ∧ (0 : UInt8) ∉ edited ops)
    ⟨wellFormed_init, rfl, List.not_mem_nil⟩ ?_ hedit hr
  rintro ops a op b ⟨h, hbytes, hzero⟩ ⟨hop, hsafe⟩ hstep
  obtain rfl := Option.some.inj hstep
  rw [edited_concat, ← hbytes]
  rw [← hbytes] at hzero
  exact ⟨(apply_wellFormed_iff h op).mpr hsafe, edit_bytes h hop, zero_notMem_edit hzero hop⟩

theorem run_total (ops : List Op) : run step {} ops = some (ops.foldl apply {}) := by
  induction ops using List.reverseRecOn with
  | nil => rfl
  | append_singleton ops op ih =>
      rw [run_concat, ih, Option.bind_some, List.foldl_concat]
      rfl

theorem zeroBehind_of_run (hedit : Along step editOp {} ops)
    (hrestore : Along step (fun _ a op => op.Restores a) {} ops) (hr : run step {} ops = some a) :
    a.ZeroBehind := by
  induction ops using List.reverseRecOn generalizing a with
  | nil =>
      obtain rfl := Option.some.inj hr
      rfl
  | append_singleton ops op ih =>
      obtain ⟨b, hb, hstep⟩ := run_concat_eq_some hr
      obtain rfl := Option.some.inj hstep
      obtain ⟨h, hbytes, hzero⟩ := contents_of_run hedit.of_append hb
      rw [← hbytes] at hzero
      exact (zeroBehind_apply_iff h hzero (ih hedit.of_append hrestore.of_append hb)
        (hedit.last hb).1).mpr (hrestore.last hb)

-- The array ends with its zero after every operation exactly if every removal restores it.
theorem terminated_run_iff (ops : List Op) (hedit : Along step editOp {} ops) :
    (∀ before, before <+: ops → ∃ a, run step {} before = some a ∧ Terminated a (edited before)) ↔
      Along step (fun _ a op => op.Restores a) {} ops := by
  constructor
  · rintro hall before op after a rfl ha
    obtain ⟨h, hbytes, hzero⟩ := contents_of_run hedit.of_append ha
    obtain ⟨b, hb, hterminated⟩ := hall before (List.prefix_append ..)
    obtain rfl := Option.some.inj (hb.symm.trans ha)
    obtain ⟨c, hc, hnext⟩ := hall (before ++ [op])
      ⟨after, by rw [List.append_assoc, List.singleton_append]⟩
    obtain ⟨d, hd, hstep⟩ := run_concat_eq_some hc
    obtain rfl := Option.some.inj (hb.symm.trans hd)
    obtain rfl := Option.some.inj hstep
    rw [← hbytes] at hzero
    exact (zeroBehind_apply_iff h hzero hterminated.zero (hedit before op after b rfl hb).1).mp
      hnext.zero
  · rintro hrestore before ⟨after, rfl⟩
    obtain ⟨h, hbytes, hzero⟩ := contents_of_run hedit.of_append (run_total before)
    refine ⟨_, run_total before, (terminated_iff h hbytes hzero).mpr ?_⟩
    exact zeroBehind_of_run hedit.of_append hrestore.of_append (run_total before)

end Runs

instance (a : ByteArray) : DecidablePred (Op.Edits a)
  | .appendChar c => inferInstanceAs (Decidable (c ≠ 0))
  | .append none => inferInstanceAs (Decidable True)
  | .append (some s) => inferInstanceAs (Decidable ((0 : UInt8) ∉ s))
  | .appendArray s => inferInstanceAs (Decidable ((0 : UInt8) ∉ s))
  | .appendSelf => inferInstanceAs (Decidable True)
  | .remove index len => inferInstanceAs (Decidable (0 ≤ index ∧ 0 ≤ len ∧ index + len ≤ a.dataSize))
  | .clear => inferInstanceAs (Decidable False)

theorem along_editOp {ops : List Op}
    (h : alongCheck step (fun a op => decide (op.Edits a ∧ GrowsEnough a (op.added a))) {} ops = true) :
    Along step editOp {} ops :=
  along_of_check _ (fun _ _ _ => of_decide_eq_true) h

-- Of four bytes the last one is removed, which shrinks the block.
def shrinkingEdit : List Op := [.append (some [97, 98, 99, 100]), .remove 3 1, .appendChar 101]

theorem terminated_run_iff_shrinking : Along step editOp {} shrinkingEdit ∧
    ∀ before, before <+: shrinkingEdit →
      ∃ a, run step {} before = some a ∧ Terminated a (edited before) := by
  have hedit : Along step editOp {} shrinkingEdit := along_editOp (by decide +kernel)
  refine ⟨hedit, (terminated_run_iff shrinkingEdit hedit).mpr ?_⟩
  refine along_of_check (fun a op => match op with
    | .remove _ len => decide (a.capacity / 4 > a.dataSize - len.toNat)
    | _ => true) ?_ (by decide +kernel)
  intro before a op hop
  cases op with
  | remove index len => exact .inr (of_decide_eq_true hop)
  | _ => trivial

-- Of 600 bytes the first is removed. The block is too full to shrink.
def staleEdit : List Op := [.append (some (List.replicate 600 7)), .remove 0 1]

-- The last byte then stands twice, and the default slice from 0 has it twice.
theorem stale_behind : Along step editOp {} staleEdit ∧
    ∃ a, run step {} staleEdit = some a ∧ a.bytes = List.replicate 599 7 ∧ a.block[599]? = some 7 ∧
      (a.mid 0 (-1)).bytes = List.replicate 600 7 ∧ ¬ Terminated a (edited staleEdit) := by
  have hrun : (run step {} staleEdit).map (fun a => (a.bytes, a.block[599]?, (a.mid 0 (-1)).bytes)) =
      some (List.replicate 599 7, some 7, List.replicate 600 7) := by decide +kernel
  obtain ⟨a, ha, hshown⟩ := Option.map_eq_some_iff.mp hrun
  simp only [Prod.mk.injEq] at hshown
  obtain ⟨hbytes, hbehind, hmid⟩ := hshown
  have hedited : edited staleEdit = List.replicate 599 7 := by decide +kernel
  refine ⟨along_editOp (by decide +kernel), a, ha, hbytes, hbehind, hmid, ?_⟩
  intro hterminated
  have hslice := hterminated.mid 0 (Nat.zero_le _)
  rw [Int.natCast_zero, hmid, hedited, List.drop_zero] at hslice
  have hlength := congrArg List.length hslice
  rw [List.length_replicate, List.length_replicate] at hlength
  omega

end Vcu.ByteArray
