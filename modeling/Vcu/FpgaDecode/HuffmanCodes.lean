import Mathlib.Data.List.GetD
import Vcu.FpgaDecode.Lemmas
import Vcu.Lib.CanonicalCode

namespace Vcu

open CanonicalCode

namespace FpgaDecode

-- The number of codes of length i + 1, and how far the loop counts for them.
def codeCount (counts : List UInt8) (i : Nat) : Nat := (counts.getD i 0).toNat

def countedUp (counts : List UInt8) (i : Nat) : Nat := (counts.getD i 0).toInt8.toInt.toNat

-- The loop on the counts that it reads.
def huffTable : List UInt8 → UInt16 → List UInt16
  | [], _ => []
  | count :: counts, value => (huffEntry value count).1 :: huffTable counts (huffEntry value count).2

-- The value before the count of length i + 1.
def valueAt (counts : List UInt8) (i : Nat) : UInt16 :=
  (counts.take i).foldl (fun value count => (huffEntry value count).2) 0

section Values

variable {data counts : List UInt8} {count : UInt8} {value : UInt16} {i : Nat}

theorem toInt8_toNat (count : UInt8) :
    count.toInt8.toInt.toNat = if count.toNat < 128 then count.toNat else 0 := by
  have hcount := count.toNat_lt
  have hint : count.toInt8.toInt = count.toBitVec.toInt := rfl
  have hnat : count.toBitVec.toNat = count.toNat := rfl
  rw [hint, BitVec.toInt_eq_toNat_cond, hnat]
  split
  · rw [if_pos (by omega)]
    rfl
  · rw [if_neg (by omega)]
    omega

theorem codeCount_eq_zero (counts : List UInt8) (i : Nat) :
    codeCount counts i = 0 ↔ counts.getD i 0 = 0 :=
  UInt8.toNat_inj (b := 0)

theorem countedUp_le (counts : List UInt8) (i : Nat) : countedUp counts i ≤ codeCount counts i := by
  rw [countedUp, codeCount, toInt8_toNat]
  split
  · exact Nat.le_refl _
  · exact Nat.zero_le _

theorem toNat_countUp (n : Nat) (value : UInt16) :
    (countUp n value).toNat = (value.toNat + n) % 65536 := by
  induction n generalizing value with
  | zero =>
      rw [countUp, Nat.add_zero, Nat.mod_eq_of_lt value.toNat_lt]
  | succ n ih =>
      have hone : (1 : UInt16).toNat = 1 := rfl
      rw [countUp, ih, UInt16.toNat_add, hone]
      omega

theorem toNat_huffEntry (value : UInt16) (count : UInt8) :
    (huffEntry value count).2.toNat = 2 * (value.toNat + count.toInt8.toInt.toNat) % 65536 := by
  have hshift : ∀ v : UInt16, (v <<< 1).toNat = 2 * v.toNat % 65536 := by
    intro v
    have hone : (1 : UInt16).toNat % 16 = 1 := rfl
    rw [UInt16.toNat_shiftLeft, hone, Nat.shiftLeft_eq, Nat.mul_comm]
  unfold huffEntry
  split
  · rw [hshift, toNat_countUp]
    omega
  · rename_i hzero
    rw [hshift, not_not.mp hzero]
    rfl

-- The value is the first code as far as the counts are counted.
theorem toNat_valueAt (hi : i ≤ counts.length) :
    (valueAt counts i).toNat = firstCode (countedUp counts) i % 65536 := by
  induction i with
  | zero => rfl
  | succ i ih =>
      have hlast : counts.take (i + 1) = counts.take i ++ [counts.getD i 0] := by
        rw [List.take_succ_eq_append_getElem hi, List.getD_eq_getElem counts 0 hi]
      rw [valueAt, hlast, List.foldl_concat, ← valueAt, toNat_huffEntry, ih (by omega), firstCode_succ,
        countedUp]
      omega

theorem huffTable_getElem? (counts : List UInt8) (value : UInt16) (i : Nat) :
    (huffTable counts value)[i]? = counts[i]?.map fun count =>
      (huffEntry ((counts.take i).foldl (fun value count => (huffEntry value count).2) value) count).1 := by
  induction counts generalizing value i with
  | nil => rfl
  | cons c counts ih =>
      cases i with
      | zero => rfl
      | succ i => exact ih _ i

theorem huffLoop_eq {n pos : Nat} (hn : counts.length = n) (hat : ∀ i < n, data[pos + i]? = counts[i]?)
    (value : UInt16) : huffLoop data n pos value = .ok (huffTable counts value) := by
  induction counts generalizing n pos value with
  | nil =>
      rw [← hn]
      rfl
  | cons c counts ih =>
      rw [← hn, List.length_cons, huffLoop]
      have hc := hat 0 (by rw [← hn]; exact Nat.zero_lt_succ _)
      have hnext : ∀ i < counts.length, data[pos + 1 + i]? = counts[i]? := by
        intro i hi
        have hshift := hat (i + 1) (by rw [← hn, List.length_cons]; omega)
        rw [Nat.add_assoc, Nat.add_comm 1]
        exact hshift
      have hrest := ih rfl hnext (huffEntry value c).2
      rw [← Nat.add_zero pos, fileByte_eq_ok.mpr hc, Nat.add_zero]
      dsimp only [bind, Except.bind]
      rw [hrest]
      rfl

theorem toNat_ntohs (value : UInt16) :
    (ntohs value).toNat = value.toNat % 256 * 256 + value.toNat / 256 := by
  have hvalue := value.toNat_lt
  have h8 : (8 : UInt16).toNat % 16 = 8 := rfl
  have hhigh : value.toNat * 2 ^ 8 % 65536 = 2 ^ 8 * (value.toNat % 256) := by omega
  rw [ntohs, UInt16.toNat_or, UInt16.toNat_shiftLeft, UInt16.toNat_shiftRight, h8, Nat.shiftLeft_eq,
    Nat.shiftRight_eq_div_pow, hhigh, ← Nat.two_pow_add_eq_or_of_lt (by omega)]
  omega

theorem entries_getElem? (pdata : List UInt16) (i : Nat) :
    (pdata.flatMap fun entry => LittleEndian.encode 2 entry.toNat)[2 * i]? =
        pdata[i]?.map (fun entry => UInt8.ofNat entry.toNat) ∧
      (pdata.flatMap fun entry => LittleEndian.encode 2 entry.toNat)[2 * i + 1]? =
        pdata[i]?.map fun entry => UInt8.ofNat (entry.toNat / 256) := by
  induction pdata generalizing i with
  | nil => exact ⟨rfl, rfl⟩
  | cons entry pdata ih =>
      cases i with
      | zero => exact ⟨rfl, rfl⟩
      | succ i => exact ih i

end Values

-- The 16-bit value that is stored at a place with its bytes swapped.
def codeAt (pHuff : List UInt8) (pos : Nat) : Option Nat := do
  let high ← pHuff[pos]?
  let low ← pHuff[pos + 1]?
  return high.toNat * 256 + low.toNat

section Codes

variable {data counts : List UInt8} {s u : DecodeState} {d : Decoded} {i : Nat}

theorem getElem?_middle {before table after : List UInt8} {k : Nat} {b : UInt8} (h : table[k]? = some b) :
    (before ++ table ++ after)[before.length + k]? = some b := by
  have hlt : k < table.length := (List.getElem?_eq_some_iff.mp h).1
  rw [List.append_assoc, List.getElem?_append_right (Nat.le_add_right _ _), Nat.add_sub_cancel_left,
    List.getElem?_append_left hlt, h]

-- The code that the case for a table stores for one length.
theorem codeAt_entries (counts before after : List UInt8) (hi : i < counts.length)
    (hne : counts.getD i 0 ≠ 0) :
    codeAt
        (before ++ ((huffTable counts 0).flatMap fun entry => LittleEndian.encode 2 entry.toNat) ++ after)
        (before.length + 2 * i) =
      some (valueAt counts i).toNat := by
  have hentry : (huffTable counts 0)[i]? = some (ntohs (valueAt counts i)) := by
    rw [huffTable_getElem?, List.getElem?_eq_getElem hi, Option.map_some, ← valueAt,
      ← List.getD_eq_getElem counts 0 hi, huffEntry, if_pos hne]
  obtain ⟨hhigh, hlow⟩ := entries_getElem? (huffTable counts 0) i
  rw [hentry, Option.map_some] at hhigh hlow
  have hvalue := (valueAt counts i).toNat_lt
  rw [codeAt, Nat.add_assoc, getElem?_middle hhigh, getElem?_middle hlow]
  refine congrArg some ?_
  rw [UInt8.toNat_ofNat', UInt8.toNat_ofNat', toNat_ntohs]
  generalize (valueAt counts i).toNat = value at hvalue ⊢
  have hfirst : (value % 256 * 256 + value / 256) % 2 ^ 8 = value / 256 := by omega
  have hsecond : (value % 256 * 256 + value / 256) / 256 % 2 ^ 8 = value % 256 := by omega
  rw [hfirst, hsecond]
  omega

-- Exactly these tables get all their first codes.
theorem firstCodes_iff (hlen : counts.length = 16) (hkraft : Kraft (codeCount counts) 16) :
    (∀ i < 16, counts.getD i 0 ≠ 0 → (valueAt counts i).toNat = firstCode (codeCount counts) i) ↔
      ∀ i < 16, ∀ j < i, 127 < codeCount counts j → codeCount counts i = 0 := by
  have hfits : ∀ i < 16, counts.getD i 0 ≠ 0 → firstCode (codeCount counts) i < 65536 := by
    intro i hi hne
    have hfit := hkraft.fits hi
    have hpos : 0 < codeCount counts i := Nat.pos_of_ne_zero (mt (codeCount_eq_zero counts i).mp hne)
    have hpow : 2 ^ (i + 1) ≤ 2 ^ 16 := Nat.pow_le_pow_right (by decide) hi
    omega
  constructor
  · intro h i hi j hj hbig
    by_contra hne
    have hne' : counts.getD i 0 ≠ 0 := mt (codeCount_eq_zero counts i).mpr hne
    have hvalue := h i hi hne'
    have hless : countedUp counts j < codeCount counts j := by
      rw [codeCount] at hbig ⊢
      rw [countedUp, toInt8_toNat, if_neg (by omega)]
      omega
    have hlt := firstCode_lt (countedUp_le counts) hj hless
    rw [toNat_valueAt (by omega), Nat.mod_eq_of_lt (hlt.trans (hfits i hi hne'))] at hvalue
    omega
  · intro h i hi hne
    have hsame : ∀ j < i, countedUp counts j = codeCount counts j := by
      intro j hj
      by_cases hbig : 127 < codeCount counts j
      · have hzero := h i hi j hj hbig
        exact absurd ((codeCount_eq_zero counts i).mp hzero) hne
      · rw [codeCount] at hbig ⊢
        rw [countedUp, toInt8_toNat, if_pos (by omega)]
    rw [toNat_valueAt (by omega), firstCode_congr hsame, Nat.mod_eq_of_lt (hfits i hi hne)]

end Codes

-- The first codes that a call stores for a table are the canonical ones exactly if no count above 127
-- stands before another code length.
theorem huffman_codes_iff (data counts : List UInt8) (s : DecodeState) (len n : Nat) (d : Decoded)
    (hmarker : data[s.posTot]? = some START) (htable : data[s.posTot + 1]? = some TABLE)
    (hlen : getDataLength data (s.posTot + 2) = .ok len)
    (hcounts : counts.length = 16) (hat : ∀ i < 16, data[s.posTot + 5 + i]? = counts[i]?)
    (hkraft : Kraft (codeCount counts) 16) (hrun : scan data (n + 1) s = .ok d) :
    (∀ i < 16, counts.getD i 0 ≠ 0 →
        codeAt d.pHuff (s.pHuff.length + len + 2 * i) = some (firstCode (codeCount counts) i)) ↔
      ∀ i < 16, ∀ j < i, 127 < codeCount counts j → codeCount counts i = 0 := by
  rw [scan_marker hmarker htable] at hrun
  obtain ⟨u, hu, hrest⟩ := of_bind_ok hrun
  obtain ⟨len', table, pdata, hlen', htab, hpdata, hgrows⟩ := tableCase_pHuff hu
  cases hlen.symm.trans hlen'
  cases hpdata.symm.trans (huffLoop_eq hcounts hat 0)
  -- the entries stay where the case has put them
  obtain ⟨after, hafter⟩ := scan_pHuff hrest
  have hlength : table.length = len := fileRange_length htab
  have hstored : ∀ i < 16, counts.getD i 0 ≠ 0 →
      codeAt d.pHuff (s.pHuff.length + len + 2 * i) = some (valueAt counts i).toNat := by
    intro i hi hne
    rw [← hafter, hgrows, ← hlength, ← List.length_append]
    exact codeAt_entries counts (s.pHuff ++ table) after (by omega) hne
  rw [← firstCodes_iff hcounts hkraft]
  constructor
  · intro h i hi hne
    exact Option.some.inj ((hstored i hi hne).symm.trans (h i hi hne))
  · intro h i hi hne
    rw [hstored i hi hne, h i hi hne]

-- A picture with one table, all symbols of which are zero.
def symbolCount (counts : List UInt8) : Nat := (counts.map UInt8.toNat).sum

def tableFile (counts : List UInt8) : List UInt8 :=
  [0xFF, 0xD8, 0xFF, 0xE0, 0, 2, 0xFF, 0xC4, 0, UInt8.ofNat (19 + symbolCount counts), 0] ++ counts ++
    List.replicate (symbolCount counts) 0 ++ [0xFF, 0xDA, 0, 3, 0, 1, 0xFF, 0xD9]

-- Twelve codes of the lengths 2 to 9, after the four rounds for the header.
def twelveCodes : List UInt8 := [0, 1, 5, 1, 1, 1, 1, 1, 1, 0, 0, 0, 0, 0, 0, 0]

theorem huffman_codes_iff_twelve :
    ∃ d, scan (tableFile twelveCodes) 43 { startState with posTot := 6 } = .ok d ∧
      ((∀ i < 16, twelveCodes.getD i 0 ≠ 0 →
          codeAt d.pHuff (0 + 31 + 2 * i) = some (firstCode (codeCount twelveCodes) i)) ↔
        ∀ i < 16, ∀ j < i, 127 < codeCount twelveCodes j → codeCount twelveCodes i = 0) := by
  have hok : (scan (tableFile twelveCodes) 43 { startState with posTot := 6 }).isOk = true := by
    decide +kernel
  have hkraft : Kraft (codeCount twelveCodes) 16 := by
    unfold Kraft
    decide +kernel
  cases hrun : scan (tableFile twelveCodes) 43 { startState with posTot := 6 } with
  | error e =>
      rw [hrun] at hok
      cases hok
  | ok d =>
      exact ⟨d, rfl, huffman_codes_iff (tableFile twelveCodes) twelveCodes
        { startState with posTot := 6 } 31 42 d (by decide) (by decide) (by decide) (by decide) (by decide) hkraft hrun⟩

-- 128 codes of length 8 are not counted, and the 34 of length 9 begin at 0 instead of 256.
def manyCodes : List UInt8 := [0, 0, 0, 0, 0, 0, 0, 128, 34, 0, 0, 0, 0, 0, 0, 0]

theorem codes_not_counted :
    symbolCount manyCodes = 162 ∧ Kraft (codeCount manyCodes) 16 ∧
      (getDecodeTable (tableFile manyCodes)).toOption.bind (fun d => codeAt d.pHuff (181 + 2 * 8)) =
        some 0 ∧
      firstCode (codeCount manyCodes) 8 = 256 := by
  unfold Kraft
  decide +kernel

end FpgaDecode

end Vcu
