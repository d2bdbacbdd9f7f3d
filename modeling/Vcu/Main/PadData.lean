import Vcu.Lib.Scatter
import Vcu.YoloDetect.Letterbox

namespace Vcu

open Scatter

-- An unsigned expression of thirty-two bits that is stored in an int.
def uintToInt (n : Nat) : Int :=
  if n % 4294967296 < 2147483648 then (n % 4294967296 : Nat) else (n % 4294967296 : Nat) - 4294967296

-- The loops of pad_data over a picture whose bytes are `pRgb`. None stands for a copy outside the
-- buffers and for signed overflow.
def padDataLoop (detectH detectW : UInt32) (pRgb : List UInt8) (scaleH scaleW : UInt16) :
    Option (List UInt8) :=
  let beginH := padBegin detectH.toNat scaleH
  let beginW := padBegin detectW.toNat scaleW
  let endH := scaleH.toNat + beginH
  let endW := scaleW.toNat + beginW
  if endH > 2147483647 ∨ endW > 2147483647 then none
  else
    let pRes := List.replicate (detectW.toNat * detectH.toNat * 4 % 4294967296) 0
    (List.range' beginH (endH - beginH)).foldlM (fun pRes i =>
      (List.range' beginW (endW - beginW)).foldlM (fun pRes j =>
        let pos := uintToInt ((i * detectW.toNat + j) * 4)
        let pos2 := uintToInt ((i - beginH) * detectW.toNat * 3 + (j - beginW) * 3)
        Scatter.memcpy 3 pRgb pRes pos pos2) pRes) pRes

-- The pixel of a packed picture at that place of the padded one, and zeros around it.
def paddedByte (beginH beginW : Nat) (scaleH scaleW : Nat) (pRgb : List UInt8) (row col k : Nat) :
    Option UInt8 :=
  if beginH ≤ row ∧ row < beginH + scaleH ∧ beginW ≤ col ∧ col < beginW + scaleW ∧ k < 3 then
    pRgb[((row - beginH) * scaleW + (col - beginW)) * 3 + k]?
  else some 0

-- Every pixel is in its place.
def Padded (detectH detectW : UInt32) (pRgb : List UInt8) (scaleH scaleW : UInt16) : Prop :=
  ∃ pRes, padDataLoop detectH detectW pRgb scaleH scaleW = some pRes ∧
    pRes.length = detectH.toNat * detectW.toNat * 4 ∧
    ∀ row col k : Nat, row < detectH.toNat → col < detectW.toNat → k < 4 →
      pRes[(row * detectW.toNat + col) * 4 + k]? =
        paddedByte (padBegin detectH.toNat scaleH) (padBegin detectW.toNat scaleW) scaleH.toNat
          scaleW.toNat pRgb row col k

-- The pixels that the loops visit, and where a pixel is written and read.
def pixels (beginH beginW scaleH scaleW : Nat) : List (Nat × Nat) :=
  List.range' beginH scaleH ×ˢ List.range' beginW scaleW

def dstPos (detectW : Nat) (x : Nat × Nat) : Int := uintToInt ((x.1 * detectW + x.2) * 4)

def srcPos (detectW beginH beginW : Nat) (x : Nat × Nat) : Int :=
  uintToInt ((x.1 - beginH) * detectW * 3 + (x.2 - beginW) * 3)

section Positions

variable {n H W i j i' j' beginH beginW scaleH scaleW : Nat} {x : Nat × Nat}

theorem uintToInt_of_lt (h : n < 2147483648) : uintToInt n = n := by
  rw [uintToInt]
  split <;> omega

theorem lt_of_uintToInt_nonneg (hn : n < 4294967296) (h : 0 ≤ uintToInt n) : n < 2147483648 := by
  rw [uintToInt] at h
  split at h <;> omega

theorem uintToInt_of_nonneg (hn : n < 4294967296) (h : 0 ≤ uintToInt n) : uintToInt n = n :=
  uintToInt_of_lt (lt_of_uintToInt_nonneg hn h)

theorem mem_pixels : x ∈ pixels beginH beginW scaleH scaleW ↔
    (beginH ≤ x.1 ∧ x.1 < beginH + scaleH) ∧ beginW ≤ x.2 ∧ x.2 < beginW + scaleW := by
  rw [pixels, ← Prod.mk.eta (p := x), List.mem_product, List.mem_range'_1, List.mem_range'_1]

theorem index_lt (hi : i < H) (hj : j < W) : i * W + j < H * W := by
  have hrow : i * W + W ≤ H * W := by
    rw [← Nat.succ_mul]
    exact Nat.mul_le_mul_right W hi
  omega

theorem index_inj (hj : j < W) (hj' : j' < W) (h : i * W + j = i' * W + j') : i = i' ∧ j = j' := by
  have hrow := congrArg (· / W) h
  simp only [Nat.mul_comm _ W, Nat.mul_add_div (Nat.zero_lt_of_lt hj), Nat.div_eq_of_lt hj,
    Nat.div_eq_of_lt hj', Nat.add_zero] at hrow
  subst hrow
  exact ⟨rfl, by omega⟩

theorem padBegin_of_le {detect : Nat} {scale : UInt16} (h : scale.toNat ≤ detect)
    (hdetect : detect < 4294967296) : padBegin detect scale = (detect - scale.toNat) / 2 := by
  rw [padBegin]
  omega

end Positions

section Run

variable {H W beginH beginW scaleH scaleW : Nat} {pRgb pRes : List UInt8}

-- The last pixel decides whether all copies stay in their buffers.
theorem pixels_inside_iff (hsize : H * W * 4 < 4294967296) (hh : beginH + scaleH ≤ H)
    (hw : beginW + scaleW ≤ W) :
    (∀ x ∈ pixels beginH beginW scaleH scaleW,
      0 ≤ dstPos W x ∧ dstPos W x + 3 ≤ H * W * 4 ∧ 0 ≤ srcPos W beginH beginW x ∧
        srcPos W beginH beginW x + 3 ≤ scaleH * scaleW * 3) ↔
      scaleH = 0 ∨ scaleW = 0 ∨
        ((beginH + scaleH - 1) * W + (beginW + scaleW - 1)) * 4 < 2147483648 ∧
          (scaleH = 1 ∨ scaleW = W) := by
  constructor
  · intro h
    by_cases hrow : scaleH = 0
    · exact .inl hrow
    by_cases hcol : scaleW = 0
    · exact .inr (.inl hcol)
    have hlast := h (beginH + scaleH - 1, beginW + scaleW - 1)
      (mem_pixels.mpr ⟨by simp only; omega, by simp only; omega⟩)
    have hdst := index_lt (i := beginH + scaleH - 1) (j := beginW + scaleW - 1) (H := H) (W := W)
      (by omega) (by omega)
    have hsrc := index_lt (i := scaleH - 1) (j := scaleW - 1) (H := H) (W := W) (by omega) (by omega)
    have hrowDiff : beginH + scaleH - 1 - beginH = scaleH - 1 := by omega
    have hcolDiff : beginW + scaleW - 1 - beginW = scaleW - 1 := by omega
    obtain ⟨hpos, -, hpos2, hread⟩ := hlast
    simp only [dstPos] at hpos
    simp only [srcPos, hrowDiff, hcolDiff] at hpos2 hread
    rw [uintToInt_of_lt (lt_of_uintToInt_nonneg (by omega) hpos2)] at hread
    refine .inr (.inr ⟨lt_of_uintToInt_nonneg (by omega) hpos, ?_⟩)
    have hsplit : scaleH * scaleW = (scaleH - 1) * scaleW + scaleW := by
      rw [← Nat.succ_mul, Nat.succ_eq_add_one, Nat.sub_add_cancel (Nat.pos_of_ne_zero hrow)]
    have hstride : (scaleH - 1) * W ≤ (scaleH - 1) * scaleW := by omega
    by_cases hone : scaleH = 1
    · exact .inl hone
    · have hle := Nat.le_of_mul_le_mul_left hstride (by omega)
      exact .inr (by omega)
  · rintro h ⟨i, j⟩ hx
    obtain ⟨⟨hi, hi'⟩, hj, hj'⟩ := mem_pixels.mp hx
    simp only at hi hi' hj hj'
    obtain ⟨hlast, hstride⟩ := (h.resolve_left (by omega)).resolve_left (by omega)
    have hdst := index_lt (i := i) (j := j) (H := H) (W := W) (by omega) (by omega)
    have hmono : i * W ≤ (beginH + scaleH - 1) * W := Nat.mul_le_mul_right W (by omega)
    have hback : (i - beginH) * W ≤ i * W := Nat.mul_le_mul_right W (Nat.sub_le i beginH)
    have hsrc : (i - beginH) * W + (j - beginW) < scaleH * scaleW := by
      rcases hstride with hone | hfull
      · rw [show i - beginH = 0 by omega, hone]
        omega
      · rw [← hfull]
        exact index_lt (by omega) (by omega)
    simp only [dstPos, srcPos]
    rw [uintToInt_of_lt (by omega), uintToInt_of_lt (by omega)]
    omega

-- A run writes every pixel of the picture to its place, and nothing else.
theorem copies_pixels
    (h : copies 3 pRgb (dstPos W) (srcPos W beginH beginW) (pixels beginH beginW scaleH scaleW)
      (List.replicate (H * W * 4) 0) = some pRes)
    (hsize : H * W * 4 < 4294967296) (hh : beginH + scaleH ≤ H) (hw : beginW + scaleW ≤ W)
    {row col k : Nat} (hrow : row < H) (hcol : col < W) (hk : k < 4) :
    pRes[(row * W + col) * 4 + k]? =
      if beginH ≤ row ∧ row < beginH + scaleH ∧ beginW ≤ col ∧ col < beginW + scaleW ∧ k < 3 then
        pRgb[(row - beginH) * W * 3 + (col - beginW) * 3 + k]?
      else some 0 := by
  have hrange := copies_isSome_iff.mp (Option.isSome_of_eq_some h)
  have hdst : ∀ i j, (i, j) ∈ pixels beginH beginW scaleH scaleW →
      j < W ∧ dstPos W (i, j) = ((i * W + j) * 4 : Nat) := by
    intro i j hx
    obtain ⟨hi, hj⟩ := mem_pixels.mp hx
    simp only at hi hj
    have hindex := index_lt (i := i) (j := j) (H := H) (W := W) (by omega) (by omega)
    exact ⟨by omega, uintToInt_of_nonneg (n := (i * W + j) * 4) (by omega) (hrange (i, j) hx).1⟩
  have hcovers : ∀ x ∈ pixels beginH beginW scaleH scaleW,
      Covers 3 (dstPos W x) ((row * W + col) * 4 + k) ↔ x = (row, col) ∧ k < 3 := by
    rintro ⟨i, j⟩ hx
    obtain ⟨hj, hpos⟩ := hdst i j hx
    rw [Covers, hpos]
    constructor
    · intro hcov
      obtain ⟨rfl, rfl⟩ := index_inj hj hcol (show i * W + j = row * W + col by omega)
      exact ⟨rfl, by omega⟩
    · rintro ⟨hx, hk'⟩
      obtain ⟨rfl, rfl⟩ := Prod.mk.inj hx
      omega
  split
  · rename_i hin
    obtain ⟨hi, hi', hj, hj', hk'⟩ := hin
    have hmem : (row, col) ∈ pixels beginH beginW scaleH scaleW := mem_pixels.mpr ⟨⟨hi, hi'⟩, hj, hj'⟩
    have hsrc : srcPos W beginH beginW (row, col) =
        ((row - beginH) * W * 3 + (col - beginW) * 3 : Nat) := by
      have hback := index_lt (i := row - beginH) (j := col - beginW) (H := H) (W := W) (by omega) (by omega)
      exact uintToInt_of_nonneg (n := (row - beginH) * W * 3 + (col - beginW) * 3) (by omega)
        (hrange _ hmem).2.2.1
    have hbyte : (row * W + col) * 4 + k - (row * W + col) * 4 +
        ((row - beginH) * W * 3 + (col - beginW) * 3) =
          (row - beginH) * W * 3 + (col - beginW) * 3 + k := by omega
    rw [copies_inside h hmem ((hcovers _ hmem).mpr ⟨rfl, hk'⟩) fun y hy hcov => ((hcovers y hy).mp hcov).1,
      (hdst _ _ hmem).2, hsrc, Int.toNat_natCast, Int.toNat_natCast, hbyte]
  · rename_i hout
    have hindex := index_lt hrow hcol
    rw [copies_outside h, List.getElem?_replicate_of_lt (by omega)]
    intro x hx hcov
    obtain ⟨rfl, hk'⟩ := (hcovers x hx).mp hcov
    obtain ⟨⟨hi, hi'⟩, hj, hj'⟩ := mem_pixels.mp hx
    exact hout ⟨hi, hi', hj, hj', hk'⟩

end Run

section Loop

variable {detectH detectW : UInt32} {pRgb pRes : List UInt8} {scaleH scaleW : UInt16}

theorem padDataLoop_eq_some_iff : padDataLoop detectH detectW pRgb scaleH scaleW = some pRes ↔
    (padBegin detectH.toNat scaleH + scaleH.toNat < 2147483648 ∧
      padBegin detectW.toNat scaleW + scaleW.toNat < 2147483648) ∧
    copies 3 pRgb (dstPos detectW.toNat)
      (srcPos detectW.toNat (padBegin detectH.toNat scaleH) (padBegin detectW.toNat scaleW))
      (pixels (padBegin detectH.toNat scaleH) (padBegin detectW.toNat scaleW) scaleH.toNat scaleW.toNat)
      (List.replicate (detectW.toNat * detectH.toNat * 4 % 4294967296) 0) = some pRes := by
  simp only [padDataLoop]
  split
  · refine iff_of_false (by simp) ?_
    omega
  · rw [Nat.add_sub_cancel, Nat.add_sub_cancel, foldlM_foldlM]
    exact (and_iff_right (by omega)).symm

theorem sizes_comm (detectH detectW : UInt32) :
    detectW.toNat * detectH.toNat * 4 = detectH.toNat * detectW.toNat * 4 := by
  rw [Nat.mul_comm detectW.toNat]

theorem begin_add_le (hh : scaleH.toNat ≤ detectH.toNat) :
    padBegin detectH.toNat scaleH + scaleH.toNat ≤ detectH.toNat := by
  have hlt := detectH.toNat_lt
  rw [padBegin_of_le hh (by omega)]
  omega

-- The copy is right exactly if the sizes fit their types and the rows of the source are as long as
-- those of the network, for that is the stride that the code takes for both. One row has no stride.
theorem padded_iff (hh : scaleH.toNat ≤ detectH.toNat) (hw : scaleW.toNat ≤ detectW.toNat)
    (hdata : pRgb.length = scaleH.toNat * scaleW.toNat * 3) :
    Padded detectH detectW pRgb scaleH scaleW ↔
      detectH.toNat * detectW.toNat * 4 < 4294967296 ∧
      padBegin detectH.toNat scaleH + scaleH.toNat < 2147483648 ∧
      padBegin detectW.toNat scaleW + scaleW.toNat < 2147483648 ∧
      (scaleH.toNat = 0 ∨ scaleW.toNat = 0 ∨
        ((padBegin detectH.toNat scaleH + scaleH.toNat - 1) * detectW.toNat +
          (padBegin detectW.toNat scaleW + scaleW.toNat - 1)) * 4 < 2147483648 ∧
        (scaleH.toNat = 1 ∨ scaleW.toNat = detectW.toNat)) := by
  constructor
  · rintro ⟨pRes, hrun, hlength, -⟩
    obtain ⟨⟨hendH, hendW⟩, hcopies⟩ := padDataLoop_eq_some_iff.mp hrun
    have hsize : detectH.toNat * detectW.toNat * 4 < 4294967296 := by
      have hallocated := copies_length hcopies
      rw [hlength, List.length_replicate] at hallocated
      omega
    have hrange := copies_isSome_iff.mp (Option.isSome_of_eq_some hcopies)
    rw [sizes_comm, Nat.mod_eq_of_lt hsize, List.length_replicate, hdata] at hrange
    exact ⟨hsize, hendH, hendW,
      (pixels_inside_iff hsize (begin_add_le hh) (begin_add_le hw)).mp (by exact_mod_cast hrange)⟩
  · rintro ⟨hsize, hendH, hendW, hlast⟩
    have hrange := (pixels_inside_iff hsize (begin_add_le hh) (begin_add_le hw)).mpr hlast
    have hdefined : (copies 3 pRgb (dstPos detectW.toNat)
        (srcPos detectW.toNat (padBegin detectH.toNat scaleH) (padBegin detectW.toNat scaleW))
        (pixels (padBegin detectH.toNat scaleH) (padBegin detectW.toNat scaleW) scaleH.toNat scaleW.toNat)
        (List.replicate (detectH.toNat * detectW.toNat * 4) 0)).isSome := by
      rw [copies_isSome_iff, List.length_replicate, hdata]
      exact_mod_cast hrange
    obtain ⟨pRes, hcopies⟩ := Option.isSome_iff_exists.mp hdefined
    refine ⟨pRes, padDataLoop_eq_some_iff.mpr ⟨⟨hendH, hendW⟩, ?_⟩, ?_, ?_⟩
    · rw [sizes_comm, Nat.mod_eq_of_lt hsize]
      exact hcopies
    · rw [copies_length hcopies, List.length_replicate]
    · intro row col k hrow hcol hk
      rw [copies_pixels hcopies hsize (begin_add_le hh) (begin_add_le hw) hrow hcol hk, paddedByte]
      split
      · rename_i hin
        have hstride : (row - padBegin detectH.toNat scaleH) * detectW.toNat =
            (row - padBegin detectH.toNat scaleH) * scaleW.toNat := by
          rcases ((hlast.resolve_left (by omega)).resolve_left (by omega)).2 with hone | hfull
          · rw [show row - padBegin detectH.toNat scaleH = 0 by omega, Nat.zero_mul, Nat.zero_mul]
          · rw [hfull]
        rw [hstride]
        congr 1
        omega
      · rfl

end Loop

-- One row of two pixels, between two rows of zeros.
example : padDataLoop 3 2 [1, 2, 3, 4, 5, 6] 1 2 = some
    [0, 0, 0, 0, 0, 0, 0, 0, 1, 2, 3, 0, 4, 5, 6, 0, 0, 0, 0, 0, 0, 0, 0, 0] := by decide

theorem padded_iff_row : Padded 3 2 [1, 2, 3, 4, 5, 6] 1 2 ↔
    (3 : UInt32).toNat * (2 : UInt32).toNat * 4 < 4294967296 ∧
    padBegin (3 : UInt32).toNat 1 + (1 : UInt16).toNat < 2147483648 ∧
    padBegin (2 : UInt32).toNat 2 + (2 : UInt16).toNat < 2147483648 ∧
    ((1 : UInt16).toNat = 0 ∨ (2 : UInt16).toNat = 0 ∨
      ((padBegin (3 : UInt32).toNat 1 + (1 : UInt16).toNat - 1) * (2 : UInt32).toNat +
        (padBegin (2 : UInt32).toNat 2 + (2 : UInt16).toNat - 1)) * 4 < 2147483648 ∧
      ((1 : UInt16).toNat = 1 ∨ (2 : UInt16).toNat = (2 : UInt32).toNat)) :=
  padded_iff (by decide) (by decide) (by decide)

-- A picture narrower than the network: the second row is read behind the end of the data.
theorem narrow_not_padded :
    (2 : UInt16).toNat ≤ (2 : UInt32).toNat ∧ (1 : UInt16).toNat ≤ (2 : UInt32).toNat ∧
      [1, 2, 3, 4, 5, 6].length = (2 : UInt16).toNat * (1 : UInt16).toNat * 3 ∧
      ¬ Padded 2 2 [1, 2, 3, 4, 5, 6] 2 1 := by
  refine ⟨by decide, by decide, by decide, ?_⟩
  rintro ⟨pRes, hrun, -⟩
  have hnone : padDataLoop 2 2 [1, 2, 3, 4, 5, 6] 2 1 = none := by decide
  rw [hnone] at hrun
  cases hrun

end Vcu
