import Mathlib.Data.Nat.Bitwise

-- Fields of bits in machine words.
namespace BitField

variable {w k s : Nat}

-- A mask of `k` bits.
theorem getLsbD_mask (h : k < w) (i : Nat) : ((1#w <<< k) - 1#w).getLsbD i = decide (i < k) := by
  have hw : 1 < 2 ^ w := Nat.one_lt_two_pow (by omega)
  have hone : (1#w).toNat = 1 := by rw [BitVec.toNat_ofNat, Nat.mod_eq_of_lt hw]
  have hpow : (1#w <<< k).toNat = 2 ^ k := by
    rw [BitVec.toNat_shiftLeft, hone, Nat.shiftLeft_eq, Nat.one_mul,
      Nat.mod_eq_of_lt (Nat.pow_lt_pow_right Nat.one_lt_two h)]
  have hle : 1#w ≤ 1#w <<< k := by
    rw [BitVec.le_def, hone, hpow]
    exact Nat.one_le_two_pow
  rw [BitVec.getLsbD, BitVec.toNat_sub_of_le hle, hpow, hone, Nat.testBit_two_pow_sub_one]

-- A mask that keeps only bits from inside the word does not see the sign.
theorem sshiftRight_and_mask (x : BitVec w) (hk : k < w) (hs : s + k ≤ w) :
    x.sshiftRight s &&& ((1#w <<< k) - 1#w) = x >>> s &&& ((1#w <<< k) - 1#w) := by
  apply BitVec.eq_of_getLsbD_eq
  intro i hi
  rw [BitVec.getLsbD_and, BitVec.getLsbD_and, getLsbD_mask hk, BitVec.getLsbD_sshiftRight,
    BitVec.getLsbD_ushiftRight]
  by_cases hik : i < k
  · have hnot : ¬ w ≤ i := by omega
    have hin : s + i < w := by omega
    simp [hnot, hin]
  · simp [hik]

-- A sequence of words is a string of bits, the lowest bit of a word first.
def stringBit (words : Nat → BitVec w) (j : Nat) : Bool := (words (j / w)).getLsbD (j % w)

-- The number that the bits `i * k` to `(i + 1) * k - 1` of the string form.
def packed (words : Nat → BitVec w) (k i : Nat) : Nat :=
  Nat.ofBits fun j : Fin k => stringBit words (i * k + j)

variable {words : Nat → BitVec w}

theorem stringBit_mul_add (hs : s < w) (q : Nat) :
    stringBit words (w * q + s) = (words q).getLsbD s := by
  have hdiv : (w * q + s) / w = q := by
    rw [Nat.mul_add_div (Nat.zero_lt_of_lt hs), Nat.div_eq_of_lt hs, Nat.add_zero]
  rw [stringBit, hdiv, Nat.mul_add_mod, Nat.mod_eq_of_lt hs]

-- Bit `j` of a field that starts at bit `s` of word `q`, in this word or in the next.
theorem stringBit_within (q : Nat) {j : Nat} (h : s + j < w) :
    stringBit words (w * q + s + j) = (words q).getLsbD (s + j) := by
  rw [Nat.add_assoc, stringBit_mul_add h]

theorem stringBit_beyond (q : Nat) {j : Nat} (hs : s ≤ w) (h : w ≤ s + j) (hj : s + j < 2 * w) :
    stringBit words (w * q + s + j) = (words (q + 1)).getLsbD (j - (w - s)) := by
  have hpos : w * q + s + j = w * (q + 1) + (s + j - w) := by
    rw [Nat.mul_succ]
    omega
  have hbit : s + j - w < w := by omega
  rw [hpos, stringBit_mul_add hbit]
  congr 1
  omega

-- Cutting field `i` out of one word, or out of the two that it lies in.
def unpack (words : Nat → BitVec w) (k i : Nat) : BitVec w :=
  let word := i * k / w
  let shift := i * k % w
  if shift + k > w then
    (words word >>> shift &&& ((1#w <<< (w - shift)) - 1#w)) |||
      ((words (word + 1) &&& ((1#w <<< (shift + k - w)) - 1#w)) <<< (w - shift))
  else words word >>> shift &&& ((1#w <<< k) - 1#w)

theorem getLsbD_unpack (hk : k < w) (i j : Nat) :
    (unpack words k i).getLsbD j = (decide (j < k) && stringBit words (i * k + j)) := by
  have hw : 0 < w := Nat.zero_lt_of_lt hk
  have hstart : i * k = w * (i * k / w) + i * k % w := (Nat.div_add_mod _ _).symm
  have hs : i * k % w < w := Nat.mod_lt _ hw
  rw [unpack]
  generalize i * k / w = q at hstart ⊢
  generalize i * k % w = s at hstart hs ⊢
  rw [hstart]
  by_cases hsplit : s + k > w
  · have hlow : w - s < w := by omega
    have hhigh : s + k - w < w := by omega
    rw [if_pos hsplit, BitVec.getLsbD_or, BitVec.getLsbD_and, BitVec.getLsbD_shiftLeft, BitVec.getLsbD_and,
      getLsbD_mask hlow, getLsbD_mask hhigh, BitVec.getLsbD_ushiftRight]
    by_cases hj : s + j < w
    · rw [stringBit_within q hj]
      have h1 : j < w - s := by omega
      have h2 : j < k := by omega
      simp [h1, h2]
    · by_cases hjk : j < k
      · rw [stringBit_beyond q (by omega) (by omega) (by omega)]
        have h1 : ¬ j < w - s := by omega
        have h2 : j < w := by omega
        have h3 : j - (w - s) < s + k - w := by omega
        simp [h1, h2, h3, hjk]
      · have h1 : ¬ j < w - s := by omega
        have h3 : ¬ j - (w - s) < s + k - w := by omega
        simp [h1, h3, hjk]
  · rw [if_neg hsplit, BitVec.getLsbD_and, getLsbD_mask hk, BitVec.getLsbD_ushiftRight]
    by_cases hjk : j < k
    · rw [stringBit_within q (by omega), Bool.and_comm]
    · simp [hjk]

theorem toNat_unpack (hk : k < w) (i : Nat) : (unpack words k i).toNat = packed words k i := by
  apply Nat.eq_of_testBit_eq
  intro j
  rw [BitVec.testBit_toNat, getLsbD_unpack hk, packed, Nat.testBit_ofBits]
  by_cases hj : j < k
  · simp [hj]
  · simp [hj]

end BitField
