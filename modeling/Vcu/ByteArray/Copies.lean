import Vcu.ByteArray.Lemmas

namespace Vcu.ByteArray

-- The ways to obtain an array. The index and the length of mid are not negative.
inductive Origin where
  | default
  | pointer (p : Option (List UInt8)) (size : Int)
  | char (c : UInt8) (size : Int)
  | copy (a : ByteArray)
  | assign (a b : ByteArray)
  | assignSelf (a : ByteArray)
  | assignPointer (a : ByteArray) (p : Option (List UInt8))
  | mid (a : ByteArray) (index len : Nat)

namespace Origin

def result (fresh : Nat → UInt8) : Origin → ByteArray
  | .default => {}
  | .pointer p size => ofPointer p size
  | .char c size => ofChar c size
  | .copy a => a.copy
  | .assign a b => a.assign b
  | .assignSelf a => a.assignSelf fresh
  | .assignPointer a p => a.assignPointer p
  | .mid a index len => a.mid index len

-- The bytes that the arguments stand for.
def denoted : Origin → List UInt8
  | .default => []
  | .pointer none _ => []
  | .pointer (some p) size => if size = -1 then cString p else p.take size.toNat
  | .char c size => List.replicate size.toNat c
  | .copy a => a.bytes
  | .assign _ b => b.bytes
  | .assignSelf a => a.bytes
  | .assignPointer _ none => []
  | .assignPointer _ (some p) => cString p
  | .mid a index len => (a.bytes.drop index).take len

-- The memory behind a pointer has the bytes that are read, up to a zero where strlen counts
-- them, an array has its own, and the index of mid is inside the contents.
def Valid : Origin → Prop
  | .default => True
  | .pointer none _ => True
  | .pointer (some p) size => (size = -1 → 0 ∈ p) ∧ size ≤ p.length
  | .char _ _ => True
  | .copy a => a.Held
  | .assign _ b => b.Held
  | .assignSelf a => a.Held
  | .assignPointer _ none => True
  | .assignPointer _ (some p) => 0 ∈ p
  | .mid a index _ => a.Held ∧ index ≤ a.dataSize

-- When the code allocates a block and fills it with what was meant.
def Sound : Origin → Prop
  | .default => True
  | .pointer none _ => False
  | .pointer (some _) size => size = -1 ∨ 0 < size
  | .char _ _ => False
  | .copy _ => True
  | .assign _ _ => True
  | .assignSelf a => a.dataSize = 0
  | .assignPointer a none => a.capacity = 0
  | .assignPointer _ (some _) => True
  | .mid a index len => 0 < len ∧ index + len ≤ a.dataSize ∨ index = 0 ∧ a.dataSize < len

end Origin

-- The array holds `content`, an append within its capacity stays in its block, and it has a
-- block unless its capacity is 0.
structure Usable (a : ByteArray) (content : List UInt8) : Prop where
  content : a.bytes = content ∧ a.dataSize = content.length
  append : ∀ s, a.dataSize + s.length < a.capacity → (a.append s).overrun = a.overrun
  allocated : a.pData = none → a.capacity = 0

theorem overrun_append {a : ByteArray} {s : List UInt8} (hblock : a.block.length = a.capacity)
    (hroom : a.dataSize + s.length < a.capacity) : (a.append s).overrun = a.overrun := by
  have hreserve : a.reserve s.length = a := by
    rw [reserve, if_neg (by omega)]
  have hrange : ¬ a.block.length < a.dataSize + s.length := by omega
  have hlength := length_block_write a a.dataSize s (by omega)
  have hzero : ¬ (a.write a.dataSize s).block.length < a.dataSize + s.length + 1 := by omega
  rw [append, hreserve, overrun_write, block_setSize, List.length_singleton, decide_eq_false hzero,
    Bool.or_false, overrun_write, decide_eq_false hrange, Bool.or_false]

-- A block that holds the contents and the zero behind them.
theorem usable_of_block {a : ByteArray} {s : List UInt8} (hdata : a.pData = some (s ++ [0]))
    (hcapacity : a.capacity = s.length + 1) (hsize : a.dataSize = s.length) : Usable a s := by
  have hblock : a.block = s ++ [0] := by rw [block, hdata, Option.getD_some]
  refine ⟨⟨?_, hsize⟩, fun t ht => overrun_append ?_ ht, ?_⟩
  · rw [bytes, hblock, hsize, List.take_left]
  · rw [hblock, hcapacity, List.length_append, List.length_singleton]
  · intro hnull
    rw [hdata] at hnull
    cases hnull

theorem not_usable_of_null {a : ByteArray} {s : List UInt8} (hdata : a.pData = none)
    (hcapacity : a.capacity ≠ 0) : ¬ Usable a s :=
  fun h => hcapacity (h.allocated hdata)

theorem usable_default : Usable {} [] := by
  refine ⟨⟨rfl, rfl⟩, fun t ht => overrun_append List.length_replicate ht, ?_⟩
  intro hnull
  cases hnull

theorem usable_copy {a : ByteArray} (h : a.Held) : Usable a.copy a.bytes := by
  have hlength := a.length_bytes h
  exact usable_of_block rfl (by rw [hlength]; rfl) hlength.symm

theorem usable_ofPointer_iff {p : List UInt8} {size : Int} (hsize : size ≤ p.length) :
    Usable (ofPointer (some p) size) (if size = -1 then cString p else p.take size.toNat) ↔
      size = -1 ∨ 0 < size := by
  by_cases hstring : size = -1
  · rw [ofPointer, if_pos hstring, if_pos hstring]
    exact iff_of_true (usable_of_block rfl rfl rfl) (.inl hstring)
  · by_cases hpos : size > 0
    · have hlength : (p.take size.toNat).length = size.toNat := by
        rw [List.length_take]
        omega
      simp only [ofPointer, if_neg hstring, if_pos hpos]
      exact iff_of_true (usable_of_block rfl (by rw [hlength]) hlength.symm) (.inr hpos)
    · simp only [ofPointer, if_neg hstring, if_neg hpos]
      exact iff_of_false (not_usable_of_null rfl (Nat.succ_ne_zero _)) (by omega)

theorem bytes_assignSelf (a : ByteArray) (fresh : Nat → UInt8) :
    (a.assignSelf fresh).bytes = (List.range a.dataSize).map fresh := by
  have hlength : ((List.range a.dataSize).map fresh).length = a.dataSize := by
    rw [List.length_map, List.length_range]
  show ((List.range a.dataSize).map fresh ++ [0]).take a.dataSize = _
  rw [List.take_append_of_le_length (Nat.le_of_eq hlength.symm),
    List.take_of_length_le (Nat.le_of_eq hlength)]

-- A new block may hold anything, so only an empty array comes back as it was.
theorem usable_assignSelf_iff {a : ByteArray} (h : a.Held) :
    (∀ fresh, Usable (a.assignSelf fresh) a.bytes) ↔ a.dataSize = 0 := by
  have hlength := a.length_bytes h
  constructor
  · intro hall
    by_contra hne
    obtain ⟨b, rest, hbytes⟩ := List.exists_cons_of_length_pos (by omega : 0 < a.bytes.length)
    have hcontent := (hall fun _ => b + 1).content.1
    have hmem : b ∈ (a.assignSelf fun _ => b + 1).bytes := by
      rw [hcontent, hbytes]
      exact List.mem_cons_self ..
    rw [bytes_assignSelf] at hmem
    obtain ⟨_, -, heq⟩ := List.mem_map.mp hmem
    have hnat := congrArg UInt8.toNat heq
    have hone : (1 : UInt8).toNat = 1 := rfl
    have hbyte := b.toNat_lt
    rw [UInt8.toNat_add] at hnat
    omega
  · intro hzero fresh
    have hbytes : a.bytes = [] := List.length_eq_zero_iff.mp (hlength.trans hzero)
    rw [hbytes]
    refine usable_of_block ?_ ?_ hzero
    · rw [assignSelf, hzero]
      rfl
    · rw [assignSelf, hzero]
      rfl

theorem usable_assignPointer_iff {a : ByteArray} {p : Option (List UInt8)} :
    Usable (a.assignPointer p) (Origin.assignPointer a p).denoted ↔
      (Origin.assignPointer a p).Sound := by
  cases p with
  | none =>
      constructor
      · intro h
        exact h.allocated rfl
      · intro hzero
        have hcapacity : (a.assignPointer none).capacity = 0 := hzero
        refine ⟨⟨rfl, rfl⟩, ?_, fun _ => hcapacity⟩
        intro s hs
        rw [hcapacity] at hs
        exact absurd hs (Nat.not_lt_zero _)
  | some p => exact iff_of_true (usable_of_block rfl rfl rfl) trivial

-- A slice that fits is copied. One that is too long gives the whole array instead.
theorem usable_mid_iff {a : ByteArray} {index len : Nat} (h : a.Held) (hindex : index ≤ a.dataSize) :
    Usable (a.mid index len) ((a.bytes.drop index).take len) ↔
      0 < len ∧ index + len ≤ a.dataSize ∨ index = 0 ∧ a.dataSize < len := by
  have hlength := a.length_bytes h
  rw [mid]
  by_cases hlong : a.dataSize < index + len
  · rw [if_pos (by omega)]
    have htake : (a.bytes.drop index).take len = a.bytes.drop index := by
      rw [List.take_of_length_le]
      rw [List.length_drop]
      omega
    rw [htake]
    constructor
    · intro husable
      have hsize : a.dataSize = (a.bytes.drop index).length := husable.content.2
      rw [List.length_drop] at hsize
      omega
    · intro hwhole
      obtain rfl : index = 0 := by omega
      rw [List.drop_zero]
      exact usable_copy h
  · rw [if_neg (by omega), Int.toNat_natCast]
    cases hdata : a.pData with
    | none =>
        have hblock : a.block = [] := by rw [block, hdata, Option.getD_none]
        have hzero : a.dataSize = 0 := by
          rw [Held, hblock] at h
          exact Nat.le_zero.mp h
        exact iff_of_false (not_usable_of_null rfl (Nat.succ_ne_zero _)) (by omega)
    | some data =>
        have hblock : a.block = data := by rw [block, hdata, Option.getD_some]
        rw [Held, hblock] at h
        have hslice : (a.bytes.drop index).take len = (data.drop index).take len := by
          rw [bytes, hblock, List.drop_take, List.take_take]
          congr 1
          omega
        have hsize : (len : Int) ≤ (data.drop index).length := by
          rw [List.length_drop]
          omega
        have hpointer := usable_ofPointer_iff hsize
        rw [if_neg (by omega), Int.toNat_natCast] at hpointer
        rw [Option.map_some, hslice, hpointer]
        omega

-- Only self-assignment looks at what a new block holds.
theorem usable_constant {o : Origin} {a : ByteArray} (ha : ∀ fresh, o.result fresh = a) :
    (∀ fresh, Usable (o.result fresh) o.denoted) ↔ Usable a o.denoted := by
  simp only [ha, forall_const]

-- Every way to obtain an array leaves it usable exactly where the code allocates and fills.
theorem usable_origin_iff {o : Origin} (hvalid : o.Valid) :
    (∀ fresh, Usable (o.result fresh) o.denoted) ↔ o.Sound := by
  cases o with
  | default => exact iff_of_true (fun _ => usable_default) trivial
  | pointer p size =>
      rw [usable_constant fun _ => rfl]
      cases p with
      | none => exact iff_of_false (not_usable_of_null rfl (Nat.succ_ne_zero _)) id
      | some p => exact usable_ofPointer_iff hvalid.2
  | char c size =>
      rw [usable_constant fun _ => rfl]
      exact iff_of_false (not_usable_of_null rfl (Nat.succ_ne_zero _)) id
  | copy a => exact iff_of_true (fun _ => usable_copy hvalid) trivial
  | assign a b =>
      have hlength := b.length_bytes hvalid
      exact iff_of_true (fun _ => usable_of_block rfl (congrArg (· + 1) hlength.symm) hlength.symm)
        trivial
  | assignSelf a => exact usable_assignSelf_iff hvalid
  | assignPointer a p =>
      rw [usable_constant fun _ => rfl]
      exact usable_assignPointer_iff
  | mid a index len =>
      rw [usable_constant fun _ => rfl]
      exact usable_mid_iff hvalid.1 hvalid.2

theorem usable_origin_iff_text :
    (Origin.pointer (some [104, 105, 0]) (-1)).Valid ∧
      ∀ fresh, Usable ((Origin.pointer (some [104, 105, 0]) (-1)).result fresh) [104, 105] := by
  have hvalid : (Origin.pointer (some [104, 105, 0]) (-1)).Valid := ⟨by decide, by decide⟩
  exact ⟨hvalid, (usable_origin_iff hvalid).mpr (.inl rfl)⟩

-- ByteArray('a', 3) has no bytes and no block, and an append within its capacity of 1024 writes
-- through the null pointer.
theorem not_usable_char :
    (Origin.char 97 3).Valid ∧ (ofChar 97 3).bytes = [] ∧ (ofChar 97 3).pData = none ∧
      (ofChar 97 3).capacity = 1024 ∧ ((ofChar 97 3).append [98]).overrun = true ∧
      ¬ ∀ fresh, Usable ((Origin.char 97 3).result fresh) [97, 97, 97] := by
  refine ⟨trivial, rfl, rfl, rfl, by decide, ?_⟩
  intro h
  exact absurd ((h fun _ => 0).allocated rfl) (Nat.succ_ne_zero 1023)

end Vcu.ByteArray
