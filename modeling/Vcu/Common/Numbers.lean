import Mathlib.Data.Bool.AllAny
import Mathlib.Data.List.Induction
import Mathlib.Data.List.TakeWhile
import Mathlib.Data.Nat.Digits.Defs
import Vcu.Common
import Vcu.Lib.Lines

namespace Vcu

open StdString

-- The value of a digit of any base that strtoul knows. What is no digit has a value that fits none.
def digitOf (c : Char) : Nat :=
  if '0' ≤ c ∧ c ≤ '9' then c.toNat - 48
  else if 'A' ≤ c ∧ c ≤ 'Z' then c.toNat - 55
  else if 'a' ≤ c ∧ c ≤ 'z' then c.toNat - 87
  else 36

-- What strtoul returns, with the text from endptr on and with errno.
structure Strtoul where
  value : UInt64
  endptr : List Char
  erange : Bool

def skipSign : List Char → Bool × List Char
  | [] => (false, [])
  | c :: s => if c = '-' then (true, s) else if c = '+' then (false, s) else (false, c :: s)

-- The prefix 0x counts as one only before a digit.
def skipPrefix (base : Nat) : List Char → List Char
  | zero :: x :: c :: s =>
      if base = 16 ∧ zero = '0' ∧ (x = 'x' ∨ x = 'X') ∧ digitOf c < 16 then c :: s
      else zero :: x :: c :: s
  | s => s

def horner (base : Nat) (digits : List Char) : Nat := digits.foldl (fun n c => n * base + digitOf c) 0

def strtoul (str : List Char) (base : Nat) : Strtoul :=
  match skipSign (str.dropWhile isspace) with
  | (negative, s) =>
      let s := skipPrefix base s
      let digits := s.takeWhile fun c => digitOf c < base
      if digits = [] then { value := 0, endptr := str, erange := false }
      else
        let n := horner base digits
        let rest := s.drop digits.length
        if 18446744073709551616 ≤ n then { value := 18446744073709551615, endptr := rest, erange := true }
        else
          { value := if negative then -(UInt64.ofNat n) else UInt64.ofNat n, endptr := rest, erange := false }

-- c_str, as far as strtoul reads it.
def cStr (str : List Char) : List Char := str.takeWhile fun c => c ≠ Char.ofNat 0

-- What the standard library throws.
inductive StdException where
  | invalidArgument
  | outOfRange
  deriving DecidableEq

def stoul (str : List Char) (base : Nat) : Except StdException UInt64 :=
  let result := strtoul (cStr str) base
  if result.endptr = cStr str then .error .invalidArgument
  else if result.erange then .error .outOfRange
  else .ok result.value

-- getline with a separator. A piece behind the last separator counts if it is not empty.
def getlines (flag : Char) (src : List Char) : List (List Char) :=
  match Lines.cut flag src with
  | (pieces, last) => if last = [] then pieces else pieces ++ [last]

-- The tests of one piece, for a decimal number, for an octal one and for a hexadecimal one.
def pieceAsUint32 (tmp : List Char) : Option UInt32 :=
  let decimal := strtoul (cStr tmp) 10
  if decimal.endptr = [] then some decimal.value.toUInt32
  else
    let octal := strtoul (cStr tmp) 8
    if octal.endptr = [] then some octal.value.toUInt32
    else
      let hex := strtoul (cStr tmp) 16
      if hex.endptr = [] then some hex.value.toUInt32 else none

def splitStringAsUint32 (src : List Char) (dst : List UInt32) (flag : Char) : List UInt32 :=
  dst ++ (getlines flag src).filterMap pieceAsUint32

def hexDigit (res : UInt32) (c : Char) : UInt32 :=
  if 'A' ≤ c ∧ c ≤ 'F' then res * 16 + UInt32.ofNat c.toNat - 65 + 10
  else if 'a' ≤ c ∧ c ≤ 'f' then res * 16 + UInt32.ofNat c.toNat - 97 + 10
  else if '0' ≤ c ∧ c ≤ '9' then res * 16 + UInt32.ofNat c.toNat - 48
  else res

-- substr throws when the string is shorter than two characters.
def hexToInt (str : List Char) : Except StdException UInt32 :=
  if str.length < 2 then .error .outOfRange else .ok ((substr str 2 (str.length - 2)).foldl hexDigit 0)

section Digits

variable {c : Char} {s ds : List Char} {base : Nat}

theorem digitOf_spec (h : digitOf c < 36) : c.toNat = digitOf c + 48 ∨ 10 ≤ digitOf c ∧ 48 ≤ c.toNat := by
  unfold digitOf at h ⊢
  split
  · rename_i hc
    have h0 : 48 ≤ c.toNat := hc.1
    omega
  rename_i hdigit
  rw [if_neg hdigit] at h
  split
  · rename_i hc
    have hA : 65 ≤ c.toNat := hc.1
    omega
  rename_i hupper
  rw [if_neg hupper] at h
  split
  · rename_i hc
    have ha : 97 ≤ c.toNat := hc.1
    omega
  · rename_i hlower
    rw [if_neg hlower] at h
    exact absurd h (Nat.lt_irrefl 36)

theorem toNat_of_digitOf (h : digitOf c < 36) : 48 ≤ c.toNat := by
  cases digitOf_spec h with
  | inl hdigit => omega
  | inr hletter => exact hletter.2

theorem digitOf_eq_zero (h : digitOf c = 0) : c = '0' := by
  have hzero : ('0' : Char).toNat = 48 := rfl
  cases digitOf_spec (c := c) (by omega) with
  | inl hdigit => exact Char.toNat_inj.mp (by omega)
  | inr hletter => omega

-- A text of digits and letters has nothing that the functions skip or cut at.
theorem isspace_eq_false (h : 48 ≤ c.toNat) : isspace c = false := by
  have hne : ∀ d : Char, d.toNat < 48 → c ≠ d := by
    rintro d hd rfl
    omega
  have h1 := hne ' ' (by decide)
  have h2 := hne '\t' (by decide)
  have h3 := hne '\n' (by decide)
  have h4 := hne '\r' (by decide)
  simp only [isspace, h1, h2, h3, h4, decide_false, Bool.false_or, Bool.or_eq_false_iff,
    decide_eq_false_iff_not]
  omega

theorem dropWhile_isspace (hs : ∀ c ∈ s, 48 ≤ c.toNat) : s.dropWhile isspace = s := by
  cases s with
  | nil => rfl
  | cons c s => rw [List.dropWhile_cons_of_neg (by rw [isspace_eq_false (hs c List.mem_cons_self)]; nofun)]

theorem skipSign_eq (hs : ∀ c ∈ s, 48 ≤ c.toNat) : skipSign s = (false, s) := by
  cases s with
  | nil => rfl
  | cons c s =>
      have hc := hs c List.mem_cons_self
      rw [skipSign, if_neg, if_neg]
      · rintro rfl
        exact absurd hc (by decide)
      · rintro rfl
        exact absurd hc (by decide)

theorem cStr_eq (hs : ∀ c ∈ s, 48 ≤ c.toNat) : cStr s = s := by
  rw [cStr, List.takeWhile_eq_self_iff]
  intro c hc
  rw [decide_eq_true_eq]
  rintro rfl
  exact absurd (hs _ hc) (by decide)

theorem horner_concat (base : Nat) (ds : List Char) (c : Char) :
    horner base (ds ++ [c]) = horner base ds * base + digitOf c := List.foldl_concat _ _ _ _

theorem horner_eq_ofDigits (base : Nat) (ds : List Char) :
    horner base ds = Nat.ofDigits base (ds.map digitOf).reverse := by
  induction ds using List.reverseRecOn with
  | nil => rfl
  | append_singleton ds c ih =>
      rw [List.map_append, List.reverse_append, horner_concat, ih]
      simp only [List.map_cons, List.map_nil, List.reverse_singleton, List.singleton_append,
        Nat.ofDigits_cons]
      rw [Nat.mul_comm, Nat.add_comm]

theorem horner_zeros (base : Nat) (hds : ∀ c ∈ ds, c = '0') : horner base ds = 0 := by
  induction ds using List.reverseRecOn with
  | nil => rfl
  | append_singleton ds c ih =>
      rw [horner_concat, ih fun x hx => hds x (List.mem_append_left [c] hx),
        hds c (List.mem_append_right ds List.mem_cons_self), Nat.zero_mul, Nat.zero_add]
      rfl

theorem zeros_of_horner (hbase : 0 < base) (h : horner base ds = 0) : ∀ c ∈ ds, c = '0' := by
  induction ds using List.reverseRecOn with
  | nil => nofun
  | append_singleton ds c ih =>
      rw [horner_concat, Nat.add_eq_zero_iff, Nat.mul_eq_zero] at h
      intro x hx
      rcases List.mem_append.mp hx with hx | hx
      · exact ih (h.1.resolve_right (Nat.ne_of_gt hbase)) x hx
      · rw [List.mem_singleton.mp hx]
        exact digitOf_eq_zero h.2

theorem horner_le (ds : List Char) : horner 10 ds ≤ horner 16 ds := by
  induction ds using List.reverseRecOn with
  | nil => exact Nat.le_refl 0
  | append_singleton ds c ih =>
      rw [horner_concat, horner_concat]
      omega

-- Before its last digit, such a number has only zeros.
theorem horner_eq_iff (ds : List Char) : horner 16 ds = horner 10 ds ↔ ∀ c ∈ ds.dropLast, c = '0' := by
  cases ds using List.reverseRecOn with
  | nil => exact ⟨fun _ => nofun, fun _ => rfl⟩
  | append_singleton ds c =>
      have hle := horner_le ds
      rw [List.dropLast_concat, horner_concat, horner_concat]
      constructor
      · intro h
        exact zeros_of_horner (by decide) (by omega : horner 16 ds = 0)
      · intro h
        rw [horner_zeros 16 h, horner_zeros 10 h, Nat.zero_mul]

-- A text that is digits to its end is read to its end.
theorem strtoul_digits (hs : ∀ c ∈ s, 48 ≤ c.toNat) (hskip : skipPrefix base s = ds)
    (hds : ∀ c ∈ ds, digitOf c < base) (hne : ds ≠ []) :
    strtoul s base =
      if 18446744073709551616 ≤ horner base ds then
        { value := 18446744073709551615, endptr := [], erange := true }
      else { value := UInt64.ofNat (horner base ds), endptr := [], erange := false } := by
  have hall : ds.takeWhile (fun c => decide (digitOf c < base)) = ds :=
    List.takeWhile_eq_self_iff.mpr fun c hc => decide_eq_true (hds c hc)
  unfold strtoul
  rw [dropWhile_isspace hs, skipSign_eq hs]
  dsimp only
  rw [hskip, hall, if_neg hne, List.drop_length]
  simp only [Bool.false_eq_true, if_false]

end Digits

-- A number as it is written: the digits of a decimal number, or 0x with hexadecimal digits.
structure Written where
  hex : Bool
  digits : List Char
  ne_nil : digits ≠ []
  valid : ∀ c ∈ digits, digitOf c < if hex then 16 else 10

namespace Written

def base (w : Written) : Nat := if w.hex then 16 else 10

def token (w : Written) : List Char := if w.hex then '0' :: 'x' :: w.digits else w.digits

-- The value by its places.
def value (w : Written) : Nat := Nat.ofDigits w.base (w.digits.map digitOf).reverse

-- All readers of addresses yield this value.
structure ReadByAll (w : Written) : Prop where
  offset : splitStringAsUint32 w.token [] ',' = [UInt32.ofNat w.value]
  address : stoul w.token 16 = .ok (UInt64.ofNat w.value)
  size : hexToInt w.token = .ok (UInt32.ofNat w.value)

-- What base 16 and base 10 read alike: zeros, and one more digit. The reader that drops two characters
-- may not drop that digit.
structure SmallDecimal (w : Written) : Prop where
  two : 2 ≤ w.digits.length
  zeros : ∀ c ∈ w.digits.dropLast, c = '0'
  last : w.digits.length = 2 → w.value = 0

section Readers

variable {w : Written}

theorem value_eq_horner (w : Written) : w.value = horner w.base w.digits := (horner_eq_ofDigits _ _).symm

theorem digitOf_lt (w : Written) : ∀ c ∈ w.digits, digitOf c < 16 := by
  intro c hc
  have hlt := w.valid c hc
  split at hlt
  · exact hlt
  · omega

theorem token_plain (w : Written) : ∀ c ∈ w.token, 48 ≤ c.toNat := by
  have hdigits : ∀ c ∈ w.digits, 48 ≤ c.toNat := fun c hc =>
    toNat_of_digitOf ((w.digitOf_lt c hc).trans (by decide))
  unfold token
  split
  · intro c hc
    rcases List.mem_cons.mp hc with rfl | hc
    · decide
    · rcases List.mem_cons.mp hc with rfl | hc
      · decide
      · exact hdigits c hc
  · exact hdigits

theorem comma_notMem_token (w : Written) :
    ',' ∉ w.token := fun h => absurd (w.token_plain ',' h) (by decide)

theorem token_ne_nil (w : Written) : w.token ≠ [] := by
  unfold token
  split
  · nofun
  · exact w.ne_nil

theorem skipPrefix_of_ne {base : Nat} (h : base ≠ 16) (s : List Char) : skipPrefix base s = s := by
  unfold skipPrefix
  split
  · rw [if_neg fun hc => h hc.1]
  · rfl

-- Base 16 reads the digits, with the prefix or without it.
theorem skipPrefix_token (w : Written) : skipPrefix 16 w.token = w.digits := by
  obtain ⟨c, ds, hds⟩ := List.exists_cons_of_ne_nil w.ne_nil
  unfold token
  cases hhex : w.hex with
  | true =>
      have hc := w.digitOf_lt c (by rw [hds]; exact List.mem_cons_self)
      rw [if_pos rfl, hds, skipPrefix, if_pos ⟨rfl, rfl, Or.inl rfl, hc⟩]
  | false =>
      rw [if_neg Bool.false_ne_true]
      have hdigit : ∀ x ∈ w.digits, digitOf x < 10 := fun x hx => by
        have hlt := w.valid x hx
        rw [hhex, if_neg Bool.false_ne_true] at hlt
        exact hlt
      unfold skipPrefix
      split
      · rename_i zero x c' s heq
        have hx := hdigit x (by rw [heq]; simp)
        rw [if_neg, heq]
        rintro ⟨-, -, rfl | rfl, -⟩
        · exact absurd hx (by decide)
        · exact absurd hx (by decide)
      · rfl

theorem strtoul_16 (w : Written) :
    strtoul w.token 16 =
      if 18446744073709551616 ≤ horner 16 w.digits then
        { value := 18446744073709551615, endptr := [], erange := true }
      else { value := UInt64.ofNat (horner 16 w.digits), endptr := [], erange := false } :=
  strtoul_digits w.token_plain w.skipPrefix_token w.digitOf_lt w.ne_nil

-- In a base without letters the number of a prefix ends before the x.
theorem strtoul_prefixed {base : Nat} (hhex : w.hex = true) (h0 : 0 < base) (hbase : base ≤ 10) :
    (strtoul w.token base).endptr ≠ [] := by
  have hx : ¬ digitOf 'x' < base := by
    have hvalue : digitOf 'x' = 33 := by decide
    omega
  have hzero : digitOf '0' < base := h0
  have htoken : w.token = '0' :: 'x' :: w.digits := by rw [token, hhex, if_pos rfl]
  unfold strtoul
  rw [dropWhile_isspace w.token_plain, skipSign_eq w.token_plain]
  dsimp only
  rw [skipPrefix_of_ne (by omega), htoken, List.takeWhile_cons_of_pos (by exact decide_eq_true hzero),
    List.takeWhile_cons_of_neg (by exact fun h => hx (of_decide_eq_true h)), if_neg (List.cons_ne_nil _ _)]
  split
  · nofun
  · nofun

theorem toUInt32_ofNat (n : Nat) : (UInt64.ofNat n).toUInt32 = UInt32.ofNat n := by
  apply UInt32.toNat_inj.mp
  rw [UInt64.toNat_toUInt32, UInt64.toNat_ofNat', UInt32.toNat_ofNat']
  omega

theorem ofNat_inj32 {a b : Nat} (ha : a < 4294967296) (hb : b < 4294967296)
    (h : UInt32.ofNat a = UInt32.ofNat b) : a = b := by
  have hnat := congrArg UInt32.toNat h
  rw [UInt32.toNat_ofNat', UInt32.toNat_ofNat'] at hnat
  omega

theorem ofNat_inj64 {a b : Nat} (ha : a < 18446744073709551616) (hb : b < 18446744073709551616)
    (h : UInt64.ofNat a = UInt64.ofNat b) : a = b := by
  have hnat := congrArg UInt64.toNat h
  rw [UInt64.toNat_ofNat', UInt64.toNat_ofNat'] at hnat
  omega

theorem pieceAsUint32_token (w : Written) (hfit : w.value < 4294967296) :
    pieceAsUint32 w.token = some (UInt32.ofNat w.value) := by
  unfold pieceAsUint32
  rw [cStr_eq w.token_plain]
  have hvalue := w.value_eq_horner
  have hlong : ¬ 18446744073709551616 ≤ w.value := by omega
  unfold base at hvalue
  cases hhex : w.hex with
  | true =>
      rw [hhex, if_pos rfl] at hvalue
      rw [if_neg (strtoul_prefixed hhex (by decide) (by decide)),
        if_neg (strtoul_prefixed hhex (by decide) (by decide)), strtoul_16, ← hvalue, if_neg hlong]
      rw [if_pos rfl, toUInt32_ofNat]
  | false =>
      rw [hhex, if_neg Bool.false_ne_true] at hvalue
      have htoken : w.token = w.digits := by rw [token, hhex, if_neg Bool.false_ne_true]
      have hdigit : ∀ x ∈ w.digits, digitOf x < 10 := fun x hx => by
        have hlt := w.valid x hx
        rw [hhex, if_neg Bool.false_ne_true] at hlt
        exact hlt
      have hskip : skipPrefix 10 w.token = w.digits := (skipPrefix_of_ne (by decide) w.token).trans htoken
      have hread := strtoul_digits w.token_plain hskip hdigit w.ne_nil
      rw [hread, ← hvalue, if_neg hlong]
      rw [if_pos rfl, toUInt32_ofNat]

theorem ofNat_mul_add_sub (n : Nat) {x k : Nat} (hk : k ≤ x) :
    UInt32.ofNat n * 16 + UInt32.ofNat x - UInt32.ofNat k = UInt32.ofNat (n * 16 + (x - k)) := by
  have hcomm : n * 16 + (x - k) = n * 16 + x - k := by omega
  rw [hcomm, UInt32.ofNat_sub (by omega), UInt32.ofNat_add, UInt32.ofNat_mul]
  rfl

theorem hexDigit_eq {c : Char} (hc : digitOf c < 16) (n : Nat) :
    hexDigit (UInt32.ofNat n) c = UInt32.ofNat (n * 16 + digitOf c) := by
  unfold digitOf at hc ⊢
  unfold hexDigit
  split at hc
  · rename_i hd
    have h9 : c.toNat ≤ 57 := hd.2
    have hupper : ¬ ('A' ≤ c ∧ c ≤ 'F') := fun h => absurd (show 65 ≤ c.toNat from h.1) (by omega)
    have hlower : ¬ ('a' ≤ c ∧ c ≤ 'f') := fun h => absurd (show 97 ≤ c.toNat from h.1) (by omega)
    rw [if_neg hupper, if_neg hlower, if_pos hd, if_pos hd]
    exact ofNat_mul_add_sub n hd.1
  · split at hc
    · rename_i hd hu
      have hA : 65 ≤ c.toNat := hu.1
      have hF : c.toNat ≤ 70 := by omega
      rw [if_pos ⟨hu.1, hF⟩, if_neg hd, if_pos hu]
      have hten := UInt32.ofNat_add (n * 16 + (c.toNat - 65)) 10
      have hcomm : n * 16 + (c.toNat - 65) + 10 = n * 16 + (c.toNat - 55) := by omega
      rw [hcomm] at hten
      rw [hten, ← ofNat_mul_add_sub n hA]
      rfl
    · split at hc
      · rename_i hd hu hl
        have ha : 97 ≤ c.toNat := hl.1
        have hf : c.toNat ≤ 102 := by omega
        have hupper : ¬ ('A' ≤ c ∧ c ≤ 'F') := fun h => absurd (show c.toNat ≤ 70 from h.2) (by omega)
        rw [if_neg hupper, if_pos ⟨hl.1, hf⟩, if_neg hd, if_neg hu, if_pos hl]
        have hten := UInt32.ofNat_add (n * 16 + (c.toNat - 97)) 10
        have hcomm : n * 16 + (c.toNat - 97) + 10 = n * 16 + (c.toNat - 87) := by omega
        rw [hcomm] at hten
        rw [hten, ← ofNat_mul_add_sub n ha]
        rfl
      · omega

theorem foldl_hexDigit {ds : List Char} (hds : ∀ c ∈ ds, digitOf c < 16) :
    ds.foldl hexDigit 0 = UInt32.ofNat (horner 16 ds) := by
  induction ds using List.reverseRecOn with
  | nil => rfl
  | append_singleton ds c ih =>
      rw [List.foldl_concat, ih fun x hx => hds x (List.mem_append_left [c] hx),
        hexDigit_eq (hds c (List.mem_append_right ds List.mem_cons_self)), horner_concat]

theorem stoul_token (w : Written) :
    stoul w.token 16 = if 18446744073709551616 ≤ horner 16 w.digits then .error .outOfRange
      else .ok (UInt64.ofNat (horner 16 w.digits)) := by
  unfold stoul
  rw [cStr_eq w.token_plain, strtoul_16]
  by_cases hlong : 18446744073709551616 ≤ horner 16 w.digits
  · rw [if_pos hlong, if_pos hlong]
    exact if_neg (Ne.symm w.token_ne_nil)
  · rw [if_neg hlong, if_neg hlong]
    exact if_neg (Ne.symm w.token_ne_nil)

theorem hexToInt_token (w : Written) :
    hexToInt w.token =
      if w.token.length < 2 then .error .outOfRange
      else .ok (UInt32.ofNat (horner 16 (w.token.drop 2))) := by
  have hdrop : ∀ c ∈ w.token.drop 2, digitOf c < 16 := by
    intro c hc
    unfold token at hc
    split at hc
    · exact w.digitOf_lt c hc
    · exact w.digitOf_lt c (List.mem_of_mem_drop hc)
  rw [hexToInt, substr, List.take_of_length_le (by rw [List.length_drop]), foldl_hexDigit hdrop]

theorem offset_token (w : Written) (hfit : w.value < 4294967296) :
    splitStringAsUint32 w.token [] ',' = [UInt32.ofNat w.value] := by
  rw [splitStringAsUint32, getlines, Lines.cut_of_notMem w.comma_notMem_token]
  simp only [if_neg w.token_ne_nil, List.nil_append, List.filterMap_cons_some (w.pieceAsUint32_token hfit),
    List.filterMap_nil]

-- Every reader takes the prefix.
theorem readByAll_of_hex (hhex : w.hex = true) (hfit : w.value < 4294967296) : ReadByAll w := by
  have hvalue := w.value_eq_horner
  rw [base, hhex, if_pos rfl] at hvalue
  have htoken : w.token = '0' :: 'x' :: w.digits := by rw [token, hhex, if_pos rfl]
  refine ⟨w.offset_token hfit, ?_, ?_⟩
  · rw [stoul_token, ← hvalue, if_neg (by omega)]
  · rw [hexToInt_token, htoken, if_neg (by simp), hvalue]
    rfl

theorem readByAll_iff_of_decimal (hhex : w.hex = false) (hfit : w.value < 4294967296) :
    ReadByAll w ↔ SmallDecimal w := by
  have hvalue := w.value_eq_horner
  rw [base, hhex, if_neg Bool.false_ne_true] at hvalue
  have htoken : w.token = w.digits := by rw [token, hhex, if_neg Bool.false_ne_true]
  have haddress := w.stoul_token
  have hsize := w.hexToInt_token
  rw [htoken] at hsize
  constructor
  · intro h
    have hsame : horner 16 w.digits = w.value := by
      have hread := haddress.symm.trans h.address
      by_cases hlong : 18446744073709551616 ≤ horner 16 w.digits
      · rw [if_pos hlong] at hread
        cases hread
      · rw [if_neg hlong] at hread
        exact ofNat_inj64 (by omega) (by omega) (Except.ok.inj hread)
    have hread := hsize.symm.trans (htoken ▸ h.size)
    by_cases hshort : w.digits.length < 2
    · rw [if_pos hshort] at hread
      cases hread
    rw [if_neg hshort] at hread
    refine ⟨Nat.le_of_not_lt hshort, (horner_eq_iff w.digits).mp (hsame.trans hvalue), ?_⟩
    intro htwo
    rw [List.drop_eq_nil_of_le (Nat.le_of_eq htwo)] at hread
    exact (ofNat_inj32 (by decide) hfit (Except.ok.inj hread)).symm
  · intro h
    have hsame : horner 16 w.digits = w.value := ((horner_eq_iff w.digits).mpr h.zeros).trans hvalue.symm
    refine ⟨w.offset_token hfit, ?_, ?_⟩
    · rw [haddress, hsame, if_neg (by omega)]
    · rw [htoken, hsize, if_neg (Nat.not_lt.mpr h.two), ← hsame]
      refine congrArg (fun n => Except.ok (UInt32.ofNat n)) ?_
      -- what is dropped are two zeros, or the whole number
      by_cases htwo : w.digits.length = 2
      · rw [List.drop_eq_nil_of_le (Nat.le_of_eq htwo), hsame, h.last htwo]
        rfl
      · have hlast := List.dropLast_concat_getLast w.ne_nil
        have hlen : 2 ≤ w.digits.dropLast.length := by
          have htwo' := h.two
          rw [List.length_dropLast]
          omega
        rw [← hlast, List.drop_append_of_le_length hlen, horner_concat, horner_concat,
          horner_zeros 16 h.zeros, horner_zeros 16 fun c hc => h.zeros c (List.mem_of_mem_drop hc)]

theorem readByAll_iff (hfit : w.value < 4294967296) : ReadByAll w ↔ w.hex = true ∨ SmallDecimal w := by
  cases hhex : w.hex with
  | true => exact ⟨fun _ => Or.inl rfl, fun _ => readByAll_of_hex hhex hfit⟩
  | false =>
      rw [readByAll_iff_of_decimal hhex hfit]
      exact ⟨Or.inr, fun h => h.resolve_left Bool.false_ne_true⟩

end Readers

end Written

-- A list of offsets is read, whatever its notation.
theorem splitStringAsUint32_list (ws : List Written) (hne : ws ≠ [])
    (hfit : ∀ w ∈ ws, w.value < 4294967296) :
    splitStringAsUint32 ([','].intercalate (ws.map Written.token)) [] ',' =
      ws.map fun w => UInt32.ofNat w.value := by
  have hlast := List.dropLast_concat_getLast hne
  have hcut : Lines.cut ',' ([','].intercalate (ws.map Written.token)) =
      (ws.dropLast.map Written.token, (ws.getLast hne).token) := by
    have hfree : ∀ t ∈ ws.dropLast.map Written.token, ',' ∉ t := by
      intro t ht
      obtain ⟨w, -, rfl⟩ := List.mem_map.mp ht
      exact w.comma_notMem_token
    have hmap : ws.map Written.token = ws.dropLast.map Written.token ++ [(ws.getLast hne).token] := by
      rw [← List.map_singleton, ← List.map_append, hlast]
    rw [hmap]
    exact Lines.cut_intercalate hfree (ws.getLast hne).comma_notMem_token
  rw [splitStringAsUint32, getlines, hcut]
  simp only [if_neg (ws.getLast hne).token_ne_nil, List.nil_append]
  rw [← List.map_singleton, ← List.map_append, hlast]
  clear hlast hcut hne
  induction ws with
  | nil => rfl
  | cons w ws ih =>
      rw [List.map_cons, List.filterMap_cons_some (w.pieceAsUint32_token (hfit w List.mem_cons_self)),
        List.map_cons, ih fun v hv => hfit v (List.mem_cons_of_mem w hv)]

-- The readers agree on a list exactly under this condition.
theorem readers_agree_iff (ws : List Written) (hne : ws ≠ []) (hfit : ∀ w ∈ ws, w.value < 4294967296) :
    (splitStringAsUint32 ([','].intercalate (ws.map Written.token)) [] ',' =
        ws.map (fun w => UInt32.ofNat w.value) ∧ ∀ w ∈ ws, w.ReadByAll) ↔
      ∀ w ∈ ws, w.hex = true ∨ w.SmallDecimal := by
  rw [and_iff_right (splitStringAsUint32_list ws hne hfit)]
  exact forall₂_congr fun w hw => Written.readByAll_iff (hfit w hw)

-- The offset and the size of the configuration that the project comes with.
def inputOffest : Written where
  hex := true
  digits := "2000000".toList
  ne_nil := by decide
  valid := List.all_iff_forall_prop.mp (by decide)

def outputSize : Written where
  hex := true
  digits := "767400".toList
  ne_nil := by decide
  valid := List.all_iff_forall_prop.mp (by decide)

theorem readers_agree_iff_hex :
    splitStringAsUint32 "0x2000000,0x767400".toList [] ',' = [33554432, 7762944] ∧
      ∀ w ∈ [inputOffest, outputSize], w.ReadByAll :=
  (readers_agree_iff [inputOffest, outputSize] (by decide) (by decide +kernel)).mpr
    (by simp [inputOffest, outputSize])

-- The address of the same configuration is decimal.
def paramFilesAddrs : Written where
  hex := false
  digits := "65536".toList
  ne_nil := by decide
  valid := List.all_iff_forall_prop.mp (by decide)

theorem address_read_as_hex : paramFilesAddrs.value = 65536 ∧
    stoul paramFilesAddrs.token 16 = .ok 415030 ∧ hexToInt paramFilesAddrs.token = .ok 1334 ∧
    splitStringAsUint32 paramFilesAddrs.token [] ',' = [65536] ∧ ¬ paramFilesAddrs.ReadByAll := by
  have haddress : stoul paramFilesAddrs.token 16 = .ok 415030 := by decide +kernel
  refine ⟨by decide +kernel, haddress, by decide +kernel, by decide +kernel, ?_⟩
  intro h
  have hread := Except.ok.inj (haddress.symm.trans h.address)
  exact absurd hread (by decide +kernel)

end Vcu
