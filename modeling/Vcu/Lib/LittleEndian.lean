import Mathlib.Algebra.Group.Nat.Defs
import Mathlib.Data.List.Basic

-- Numbers as bytes, the lowest byte first.
namespace LittleEndian

def encode : Nat → Nat → List UInt8
  | 0, _ => []
  | width + 1, x => UInt8.ofNat x :: encode width (x / 256)

def decode : List UInt8 → Nat
  | [] => 0
  | b :: bytes => b.toNat + 256 * decode bytes

@[simp] theorem length_encode (width x : Nat) : (encode width x).length = width := by
  induction width generalizing x with
  | zero => rfl
  | succ width ih => rw [encode, List.length_cons, ih]

-- The low bytes of a number and the bytes of what is above them.
theorem encode_add (low high x : Nat) :
    encode (low + high) x = encode low x ++ encode high (x / 256 ^ low) := by
  induction low generalizing x with
  | zero => rw [Nat.zero_add, encode, List.nil_append, Nat.pow_zero, Nat.div_one]
  | succ low ih =>
      rw [Nat.succ_add, encode, encode, ih, List.cons_append, Nat.div_div_eq_div_mul, Nat.pow_succ,
        Nat.mul_comm]

-- How many numbers have an encoding of this width.
def capacity : Nat → Nat
  | 0 => 1
  | width + 1 => 256 * capacity width

theorem decode_encode {width x : Nat} (h : x < capacity width) : decode (encode width x) = x := by
  induction width generalizing x with
  | zero =>
      rw [capacity] at h
      rw [encode, decode]
      omega
  | succ width ih =>
      rw [capacity] at h
      have hlow : (UInt8.ofNat x).toNat = x % 256 := UInt8.toNat_ofNat'
      rw [encode, decode, hlow, ih (by omega)]
      omega

end LittleEndian
