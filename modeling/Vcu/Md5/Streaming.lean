import Mathlib.Order.Bounds.Basic
import Vcu.Lib.Blocks
import Vcu.Lib.LittleEndian
import Vcu.Md5.Lemmas

namespace Vcu

open Blocks

namespace Md5

-- The bytes of the words a, b, c and d.
def State.bytes (s : State) : List UInt8 :=
  [s.a, s.b, s.c, s.d].flatMap fun (w : UInt32) => LittleEndian.encode 4 w.toNat

def padded (message : List UInt8) (zeros : Nat) : List UInt8 :=
  message ++ 0x80 :: List.replicate zeros 0 ++ LittleEndian.encode 8 (8 * message.length)

-- What the digest of a message is to be, for the number of zeros behind it.
def iterated (message : List UInt8) (zeros : Nat) : List UInt8 :=
  ((blocks 64 (padded message zeros)).foldl md5Transform md5Init.state).bytes

-- What a context has taken in since the state `start`: whole blocks in its state, the rest in its buffer.
structure Absorbed (start : State) (data : List UInt8) (context : MD5_CTX) : Prop where
  state : context.state = (blocks 64 data).foldl md5Transform start
  length : context.buffer.length = 64
  buffer : context.buffer.take (rest 64 data).length = rest 64 data

section Update

variable {start : State} {context : MD5_CTX} {data : List UInt8}

theorem transformBlocks_eq (state : State) (input : List UInt8) :
    transformBlocks (input.length / 64) state input =
      ((blocks 64 input).foldl md5Transform state, rest 64 input) := by
  have hpos : 0 < 64 := by decide
  induction input using block_induction hpos generalizing state with
  | hshort input h =>
      rw [Nat.div_eq_of_lt h, blocks_of_lt h, rest_of_lt h]
      rfl
  | hblock input h ih =>
      rw [length_div hpos h, transformBlocks, ih, blocks_of_le hpos h, rest_of_le hpos h, List.foldl_cons]

theorem Absorbed.append (h : Absorbed start data context) (input : List UInt8) (next : MD5_CTX)
    (hstate : next.state = (blocks 64 (rest 64 data ++ input)).foldl md5Transform context.state)
    (hlength : next.buffer.length = 64)
    (hbuffer : next.buffer.take (rest 64 (rest 64 data ++ input)).length =
      rest 64 (rest 64 data ++ input)) :
    Absorbed start (data ++ input) next := by
  rw [h.state, ← foldl_blocks_append (by decide)] at hstate
  rw [← rest_append (by decide)] at hbuffer
  exact ⟨hstate, hlength, hbuffer⟩

-- The copy that fills the buffer.
theorem memcpy_fill {buffer tail input : List UInt8} (hlength : buffer.length = 64)
    (htail : buffer.take tail.length = tail) (hlt : tail.length < 64)
    (hfull : input.length ≥ 64 - tail.length) :
    memcpy buffer tail.length (input.take (64 - tail.length)) = some ((tail ++ input).take 64) := by
  have hlen : (input.take (64 - tail.length)).length = 64 - tail.length := List.length_take_of_le hfull
  have hfill : tail.length + (input.take (64 - tail.length)).length ≤ buffer.length := by omega
  have hend : tail.length + (input.take (64 - tail.length)).length = buffer.length := by omega
  have htake : (tail ++ input).take 64 = tail ++ input.take (64 - tail.length) := by
    rw [List.take_append, List.take_of_length_le (Nat.le_of_lt hlt)]
  rw [memcpy_of_le hfill, htail, hend, List.drop_length, List.append_nil, htake]

-- An update hashes the whole blocks of what was left over and the input, and leaves the rest.
theorem md5Update_spec (h : Absorbed start data context)
    (hindex : ((context.count0 >>> 3) &&& 0x3F).toNat = data.length % 64) (input : List UInt8) :
    ∃ next, md5Update context input = some next ∧ Absorbed start (data ++ input) next ∧
      next.count0 = context.count0 + UInt32.ofNat input.length <<< 3 ∧
      next.count1 =
        (if next.count0 < UInt32.ofNat input.length <<< 3 then context.count1 + 1 else context.count1) +
          UInt32.ofNat input.length >>> 29 := by
  have hlength := h.length
  have htail := h.buffer
  have hlt : (rest 64 data).length < 64 := by
    rw [length_rest]
    exact Nat.mod_lt _ (by decide)
  have happend := h.append input
  rw [← length_rest] at hindex
  rw [md5Update, hindex]
  generalize rest 64 data = tail at htail hlt happend ⊢
  by_cases hfull : input.length ≥ 64 - tail.length
  · have hle : 64 ≤ (tail ++ input).length := by
      rw [List.length_append]
      omega
    have hdrop : (tail ++ input).drop 64 = input.drop (64 - tail.length) := by
      rw [List.drop_append, List.drop_eq_nil_of_le (by omega), List.nil_append]
    have hblock := memcpy_fill hlength htail hlt hfull
    have hblockLen : ((tail ++ input).take 64).length = 64 := List.length_take_of_le hle
    have hleft : (rest 64 ((tail ++ input).drop 64)).length < 64 := by
      rw [length_rest]
      exact Nat.mod_lt _ (by decide)
    have hrest : 0 + (rest 64 ((tail ++ input).drop 64)).length ≤ ((tail ++ input).take 64).length := by
      omega
    rw [← hdrop]
    simp only [if_pos hfull, hblock, transformBlocks_eq, memcpy_of_le hrest, Option.bind_eq_bind,
      Option.bind_some]
    refine ⟨_, rfl, happend _ ?_ ?_ ?_, rfl, rfl⟩
    · rw [blocks_of_le (by decide) hle, List.foldl_cons]
    · rw [List.take_zero, List.nil_append, List.length_append, List.length_drop]
      omega
    · rw [rest_of_le (by decide) hle]
      simp
  · have hshort : (tail ++ input).length < 64 := by
      rw [List.length_append]
      omega
    have hfill : tail.length + input.length ≤ context.buffer.length := by omega
    simp only [if_neg hfull, memcpy_of_le hfill, Option.bind_eq_bind, Option.bind_some]
    refine ⟨_, rfl, happend _ ?_ ?_ ?_, rfl, rfl⟩
    · rw [blocks_of_lt hshort]
      rfl
    · rw [htail, List.length_append, List.length_append, List.length_drop]
      omega
    · rw [rest_of_lt hshort, htail]
      exact List.take_left

end Update

-- The context after an amount of data whose bit count fits in count[0].
structure Streamed (data : List UInt8) (context : MD5_CTX) : Prop extends
    Absorbed md5Init.state data context where
  count0 : context.count0.toNat = 8 * data.length
  count1 : context.count1 = 0

section Streamed

variable {data input : List UInt8} {context : MD5_CTX}

theorem streamed_init : Streamed [] md5Init := ⟨⟨rfl, rfl, rfl⟩, rfl, rfl⟩

theorem Streamed.index (h : Streamed data context) :
    ((context.count0 >>> 3) &&& 0x3F).toNat = data.length % 64 := by
  have hmask : (0x3F : UInt32).toNat = 2 ^ 6 - 1 := rfl
  have hshift : (3 : UInt32).toNat % 32 = 3 := rfl
  rw [UInt32.toNat_and, UInt32.toNat_shiftRight, hmask, hshift, Nat.and_two_pow_sub_one_eq_mod,
    Nat.shiftRight_eq_div_pow, h.count0]
  omega

theorem Streamed.update (h : Streamed data context) (hlt : (data ++ input).length < 2 ^ 29) :
    ∃ next, md5Update context input = some next ∧ Streamed (data ++ input) next := by
  obtain ⟨next, hnext, habsorbed, hcount0, hcount1⟩ := md5Update_spec h.toAbsorbed h.index input
  rw [List.length_append] at hlt
  have hshort : (UInt32.ofNat input.length).toNat = input.length := by
    rw [UInt32.toNat_ofNat', Nat.mod_eq_of_lt (by omega)]
  have hbits : (UInt32.ofNat input.length <<< 3).toNat = 8 * input.length := by
    have hshift : (3 : UInt32).toNat % 32 = 3 := rfl
    rw [UInt32.toNat_shiftLeft, hshort, hshift, Nat.shiftLeft_eq, Nat.mod_eq_of_lt (by omega), Nat.mul_comm]
  have hhigh : UInt32.ofNat input.length >>> 29 = 0 := by
    have hshift : (29 : UInt32).toNat % 32 = 29 := rfl
    apply UInt32.toNat_inj.mp
    rw [UInt32.toNat_shiftRight, hshort, hshift, Nat.shiftRight_eq_div_pow, Nat.div_eq_of_lt (by omega)]
    rfl
  have hsum : next.count0.toNat = 8 * (data ++ input).length := by
    rw [hcount0, UInt32.toNat_add, hbits, h.count0, Nat.mod_eq_of_lt (by omega), List.length_append]
    omega
  have hcarry : ¬ next.count0 < UInt32.ofNat input.length <<< 3 := by
    rw [UInt32.lt_iff_toNat_lt, hsum, hbits, List.length_append]
    omega
  refine ⟨next, hnext, habsorbed, hsum, ?_⟩
  rw [hcount1, if_neg hcarry, hhigh, h.count1]
  rfl

theorem Streamed.foldlM {pieces : List (List UInt8)} (h : Streamed data context)
    (hlt : (data ++ pieces.flatten).length < 2 ^ 29) :
    ∃ next, pieces.foldlM md5Update context = some next ∧ Streamed (data ++ pieces.flatten) next := by
  induction pieces generalizing data context with
  | nil => exact ⟨context, rfl, by simpa using h⟩
  | cons piece pieces ih =>
      rw [List.flatten_cons, ← List.append_assoc] at hlt ⊢
      have hpiece : (data ++ piece).length < 2 ^ 29 := by
        rw [List.length_append] at hlt
        omega
      obtain ⟨next, hnext, hstreamed⟩ := h.update hpiece
      rw [List.foldlM_cons, hnext]
      exact ih hstreamed hlt

end Streamed

theorem toUInt8_shiftRight (w s : UInt32) :
    (w >>> s).toUInt8 = UInt8.ofNat (w.toNat / 2 ^ (s.toNat % 32)) := by
  apply UInt8.toNat_inj.mp
  rw [UInt32.toNat_toUInt8, UInt32.toNat_shiftRight, Nat.shiftRight_eq_div_pow, UInt8.toNat_ofNat']

-- MD5Encode writes the low byte first.
theorem md5Encode_eq (words : List UInt32) :
    md5Encode words = words.flatMap fun (w : UInt32) => LittleEndian.encode 4 w.toNat := by
  rw [md5Encode]
  congr 1
  funext w
  have hlow : w.toUInt8 = UInt8.ofNat w.toNat := by
    apply UInt8.toNat_inj.mp
    rw [UInt32.toNat_toUInt8, UInt8.toNat_ofNat']
  have h8 : (w >>> 8).toUInt8 = UInt8.ofNat (w.toNat / 256) := toUInt8_shiftRight w 8
  have h16 : (w >>> 16).toUInt8 = UInt8.ofNat (w.toNat / 256 / 256) := by
    rw [Nat.div_div_eq_div_mul]
    exact toUInt8_shiftRight w 16
  have h24 : (w >>> 24).toUInt8 = UInt8.ofNat (w.toNat / 256 / 256 / 256) := by
    rw [Nat.div_div_eq_div_mul, Nat.div_div_eq_div_mul]
    exact toUInt8_shiftRight w 24
  rw [hlow, h8, h16, h24]
  rfl

section Final

variable {message : List UInt8} {context : MD5_CTX}

-- The zeros behind the byte 0x80.
def zeros (length : Nat) : Nat := if length % 64 < 56 then 55 - length % 64 else 119 - length % 64

theorem zeros_cases (length : Nat) :
    length % 64 < 56 ∧ zeros length = 55 - length % 64 ∨
      56 ≤ length % 64 ∧ zeros length = 119 - length % 64 := by
  by_cases h : length % 64 < 56
  · exact .inl ⟨h, if_pos h⟩
  · exact .inr ⟨Nat.le_of_not_lt h, if_neg h⟩

theorem isLeast_zeros (length : Nat) : IsLeast {z | (length + 1 + z) % 64 = 56} (zeros length) := by
  have hcases := zeros_cases length
  constructor
  · show (length + 1 + zeros length) % 64 = 56
    omega
  · intro z hz
    have hz : (length + 1 + z) % 64 = 56 := hz
    omega

theorem take_PADDING {z : Nat} (hz : z ≤ 63) : PADDING.take (z + 1) = 0x80 :: List.replicate z 0 := by
  rw [PADDING, List.take_succ_cons, List.take_replicate, Nat.min_eq_left hz]

theorem Streamed.bits (h : Streamed message context) :
    md5Encode [context.count0, context.count1] = LittleEndian.encode 8 (8 * message.length) := by
  have hlt := context.count0.toNat_lt
  have hhigh : 8 * message.length / 256 ^ 4 = 0 := by
    rw [← h.count0]
    exact Nat.div_eq_of_lt hlt
  rw [LittleEndian.encode_add 4 4, hhigh, ← h.count0, md5Encode_eq, h.count1, List.flatMap_cons,
    List.flatMap_singleton]
  rfl

theorem Streamed.final (h : Streamed message context) (hlt : message.length < 2 ^ 29 - 64) :
    md5Final context = some (iterated message (zeros message.length)) := by
  have hcases := zeros_cases message.length
  have hpadlen :
      (if message.length % 64 < 56 then 56 - message.length % 64 else 120 - message.length % 64) =
        zeros message.length + 1 := by
    split
    · omega
    · omega
  have hzeros : zeros message.length ≤ 63 := by omega
  have hpad : (message ++ 0x80 :: List.replicate (zeros message.length) 0).length < 2 ^ 29 := by
    rw [List.length_append, List.length_cons, List.length_replicate]
    omega
  obtain ⟨padding, hpadding, hstreamed⟩ := h.update hpad
  obtain ⟨closed, hclosed, habsorbed, -⟩ := md5Update_spec hstreamed.toAbsorbed hstreamed.index
    (LittleEndian.encode 8 (8 * message.length))
  rw [md5Final, h.index]
  simp only [hpadlen, take_PADDING hzeros, hpadding, h.bits, hclosed, Option.bind_eq_bind, Option.bind_some]
  rw [iterated, padded, ← habsorbed.state, State.bytes, md5Encode_eq]

-- However the message is cut into pieces.
theorem digest_of_pieces {pieces : List (List UInt8)} (hlt : pieces.flatten.length < 2 ^ 29 - 64) :
    (pieces.foldlM md5Update md5Init).bind md5Final =
      some (iterated pieces.flatten (zeros pieces.flatten.length)) := by
  have hshort : ([] ++ pieces.flatten).length < 2 ^ 29 := by
    rw [List.nil_append]
    omega
  obtain ⟨context, hcontext, hstreamed⟩ := streamed_init.foldlM hshort
  rw [hcontext, Option.bind_some]
  exact hstreamed.final hlt

theorem length_padded (message : List UInt8) : (padded message (zeros message.length)).length % 64 = 0 := by
  have hleast : (message.length + 1 + zeros message.length) % 64 = 56 := (isLeast_zeros message.length).1
  rw [padded, List.length_append, List.length_append, List.length_cons, List.length_replicate,
    LittleEndian.length_encode]
  omega

theorem getMd5_eq {str : List UInt8} (len : Nat) (hlt : (cString str).length < 2 ^ 29 - 64) :
    getMd5 str len = some (hex (iterated (cString str) (zeros (cString str).length))) := by
  have hshort : ([] ++ cString str).length < 2 ^ 29 := by
    rw [List.nil_append]
    omega
  obtain ⟨context, hcontext, hstreamed⟩ := streamed_init.update hshort
  rw [List.nil_append] at hstreamed
  rw [getMd5, hcontext, Option.bind_eq_bind, Option.bind_some, hstreamed.final hlt]
  rfl

end Final

-- MD5 hashes the blocks of the padded message one after the other, however the message is cut.
theorem md5_of_pieces (pieces : List (List UInt8)) (hlt : pieces.flatten.length < 2 ^ 29 - 64) :
    ∃ z, IsLeast {z | (pieces.flatten.length + 1 + z) % 64 = 56} z ∧
      (padded pieces.flatten z).length % 64 = 0 ∧
      (pieces.foldlM md5Update md5Init).bind md5Final = some (iterated pieces.flatten z) ∧
      (∀ others : List (List UInt8), others.flatten = pieces.flatten →
        (others.foldlM md5Update md5Init).bind md5Final = some (iterated pieces.flatten z)) ∧
      ∀ str len, cString str = pieces.flatten →
        getMd5 str len = some (hex (iterated pieces.flatten z)) := by
  refine ⟨zeros pieces.flatten.length, isLeast_zeros _, length_padded _, digest_of_pieces hlt, ?_, ?_⟩
  · intro others hothers
    rw [digest_of_pieces (hothers ▸ hlt), hothers]
  · intro str len hstr
    rw [getMd5_eq len (hstr ▸ hlt), hstr]

theorem md5_of_pieces_abc :
    ∃ z, ([[97, 98], [], [99]].foldlM md5Update md5Init).bind md5Final = some (iterated [97, 98, 99] z) ∧
      ([[97, 98, 99]].foldlM md5Update md5Init).bind md5Final = some (iterated [97, 98, 99] z) ∧
      getMd5 [97, 98, 99, 0] 3 = some (hex (iterated [97, 98, 99] z)) := by
  obtain ⟨z, -, -, hdigest, hothers, htext⟩ := md5_of_pieces [[97, 98], [], [99]] (by decide)
  exact ⟨z, hdigest, hothers [[97, 98, 99]] rfl, htext [97, 98, 99, 0] 3 (by decide)⟩

end Md5

end Vcu
