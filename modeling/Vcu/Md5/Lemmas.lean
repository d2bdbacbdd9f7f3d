import Mathlib.Data.List.Basic
import Vcu.Md5

namespace Vcu

theorem memcpy_of_le {dst src : List UInt8} {pos : Nat} (h : pos + src.length ≤ dst.length) :
    memcpy dst pos src = some (dst.take pos ++ src ++ dst.drop (pos + src.length)) :=
  if_pos h

theorem memcpy_total {dst src : List UInt8} {pos : Nat} (h : pos + src.length ≤ dst.length) :
    ∃ out, memcpy dst pos src = some out ∧ out.length = dst.length := by
  refine ⟨_, memcpy_of_le h, ?_⟩
  simp only [List.length_append, List.length_take, List.length_drop]
  omega

namespace Md5

theorem index_le (count0 : UInt32) : ((count0 >>> 3) &&& 0x3F).toNat ≤ 63 := by
  rw [UInt32.toNat_and]
  exact Nat.and_le_right

theorem length_left (n : Nat) (state : State) (input : List UInt8) :
    (transformBlocks n state input).2.length = input.length - 64 * n := by
  induction n generalizing state input with
  | zero => rfl
  | succ n ih =>
      rw [transformBlocks, ih, List.length_drop]
      omega

-- No write of an update leaves the block of sixty-four bytes.
theorem md5Update_total {context : MD5_CTX} (hbuffer : context.buffer.length = 64)
    (input : List UInt8) :
    ∃ next, md5Update context input = some next ∧ next.buffer.length = 64 := by
  have hindex := index_le context.count0
  rw [md5Update]
  generalize ((context.count0 >>> 3) &&& 0x3F).toNat = index at hindex ⊢
  by_cases hfull : input.length ≥ 64 - index
  · have hfill : index + (input.take (64 - index)).length ≤ context.buffer.length := by
      rw [List.length_take, hbuffer]
      omega
    obtain ⟨block, hblock, hlength⟩ := memcpy_total hfill
    have hleft := length_left ((input.drop (64 - index)).length / 64)
      (md5Transform context.state block) (input.drop (64 - index))
    have hrest : 0 + (transformBlocks ((input.drop (64 - index)).length / 64)
        (md5Transform context.state block) (input.drop (64 - index))).2.length ≤ block.length := by
      rw [hleft, hlength, hbuffer]
      omega
    obtain ⟨buffer, hbuf, hlen⟩ := memcpy_total hrest
    simp only [if_pos hfull, hblock, hbuf, Option.bind_eq_bind, Option.bind_some]
    exact ⟨_, rfl, hlen.trans (hlength.trans hbuffer)⟩
  · have hfill : index + input.length ≤ context.buffer.length := by omega
    obtain ⟨buffer, hbuf, hlen⟩ := memcpy_total hfill
    simp only [if_neg hfull, hbuf, Option.bind_eq_bind, Option.bind_some]
    exact ⟨_, rfl, hlen.trans hbuffer⟩

theorem md5Final_total {context : MD5_CTX} (hbuffer : context.buffer.length = 64) :
    ∃ digest, md5Final context = some digest ∧ digest.length = 16 := by
  rw [md5Final]
  generalize (if ((context.count0 >>> 3) &&& 0x3F).toNat < 56 then
    56 - ((context.count0 >>> 3) &&& 0x3F).toNat
    else 120 - ((context.count0 >>> 3) &&& 0x3F).toNat) = padlen
  obtain ⟨padded, hpadded, hlength⟩ := md5Update_total hbuffer (PADDING.take padlen)
  obtain ⟨closed, hclosed, -⟩ :=
    md5Update_total hlength (md5Encode [context.count0, context.count1])
  simp only [hpadded, hclosed, Option.bind_eq_bind, Option.bind_some]
  exact ⟨_, rfl, rfl⟩

theorem length_hex (digest : List UInt8) : (hex digest).length = 2 * digest.length := by
  induction digest with
  | nil => rfl
  | cons b rest ih =>
      rw [hex, List.flatMap_cons, List.length_append, List.length_cons]
      have hrest : (hex rest).length = 2 * rest.length := ih
      rw [hex] at hrest
      rw [hrest]
      simp only [List.length_cons, List.length_nil]
      omega

theorem hexDigit_ne_zero {n : UInt8} (hn : n.toNat < 16) : hexDigit n ≠ 0 := by
  intro h
  have hzero : (hexDigit n).toNat = 0 := by rw [h]; rfl
  rw [hexDigit] at hzero
  split at hzero
  · rw [UInt8.toNat_add] at hzero
    have h48 : (48 : UInt8).toNat = 48 := rfl
    omega
  · rw [UInt8.toNat_add] at hzero
    have h87 : (87 : UInt8).toNat = 87 := rfl
    omega

theorem zero_notMem_hex (digest : List UInt8) : (0 : UInt8) ∉ hex digest := by
  intro h
  obtain ⟨b, -, hb⟩ := List.mem_flatMap.mp h
  have h16 : (16 : UInt8).toNat = 16 := rfl
  have hbyte := b.toNat_lt
  simp only [List.mem_cons, List.not_mem_nil, or_false] at hb
  rcases hb with hb | hb
  · refine hexDigit_ne_zero ?_ hb.symm
    rw [UInt8.toNat_div, h16]
    omega
  · refine hexDigit_ne_zero ?_ hb.symm
    rw [UInt8.toNat_mod, h16]
    omega

end Md5

-- Thirty-two digits for every text.
theorem getMd5_spec (str : List UInt8) (len : Nat) :
    ∃ digits, getMd5 str len = some digits ∧ digits.length = 32 ∧ (0 : UInt8) ∉ digits := by
  have hinit : Md5.md5Init.buffer.length = 64 := List.length_replicate ..
  obtain ⟨context, hcontext, hbuffer⟩ := Md5.md5Update_total hinit (cString str)
  obtain ⟨digest, hdigest, hlength⟩ := Md5.md5Final_total hbuffer
  refine ⟨Md5.hex digest, ?_, ?_, Md5.zero_notMem_hex digest⟩
  · rw [getMd5, hcontext, Option.bind_eq_bind, Option.bind_some, hdigest]
    rfl
  · rw [Md5.length_hex, hlength]

end Vcu
