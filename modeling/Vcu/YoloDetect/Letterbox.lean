import Mathlib.Data.Rat.Floor
import Mathlib.Tactic.FieldSimp
import Mathlib.Tactic.Linarith
import Mathlib.Tactic.Positivity
import Vcu.YoloDetect

namespace Vcu

-- The floats are read as exact rationals. A cast to int drops the fraction.
def toInt (q : ℚ) : Int := if q < 0 then ⌈q⌉ else ⌊q⌋

-- Signed overflow has no defined result.
def intMul (a b : Int) : Option Int :=
  if -2147483648 ≤ a * b ∧ a * b ≤ 2147483647 then some (a * b) else none

structure RgbData2 where
  pData : Int → UInt8
  scaleH : UInt16
  scaleW : UInt16

def scaleRatio (detectH detectW : Nat) (srcHeight srcWidth : UInt16) : ℚ :=
  let ratio1 : ℚ := detectH / srcHeight.toNat
  let ratio2 : ℚ := detectW / srcWidth.toNat
  if ratio1 < ratio2 then ratio1 else ratio2

def realSide (ratio : ℚ) (side : UInt16) : Int := toInt (ratio * side.toNat + 1 / 2)

-- The sizes that yuv_to_rgb_scale leaves in rgbRes. Its static locals are set by the
-- first frame, so this is the source size of that frame.
def yuvToRgbScale (detectH detectW : Nat) (scaled : Int → UInt8) (srcHeight srcWidth : UInt16) :
    RgbData2 :=
  let ratio := scaleRatio detectH detectW srcHeight srcWidth
  { pData := scaled
    scaleH := UInt16.ofInt (realSide ratio srcHeight)
    scaleW := UInt16.ofInt (realSide ratio srcWidth) }

-- The difference is taken in thirty-two unsigned bits.
def padBegin (detect : Nat) (scale : UInt16) : Nat :=
  (detect + 4294967296 - scale.toNat) % 4294967296 / 2

def RgbData2.beginH (rgb : RgbData2) (detectH : Nat) : Nat := padBegin detectH rgb.scaleH

def RgbData2.beginW (rgb : RgbData2) (detectW : Nat) : Nat := padBegin detectW rgb.scaleW

section Correction

variable {F : Type} [One F] [Sub F] [Mul F] [Div F] [OfNat F 2] [IntCast F] [LT F] [DecidableLT F]

-- The size of the scaled picture, as correctYoloBoxes takes it. The quotient is an integer before
-- round sees it.
def scaledSize (F : Type) [Div F] [IntCast F] [LT F] [DecidableLT F] (fpgaNetw fpgaNeth srcW srcH : Int) :
    Option (Int × Int) :=
  if (fpgaNetw : F) / srcW < (fpgaNeth : F) / srcH then do
    let p ← intMul srcH fpgaNetw
    some (fpgaNetw, p.tdiv srcW)
  else do
    let p ← intMul srcW fpgaNeth
    some (p.tdiv srcH, fpgaNeth)

-- The body of the loop over the detections.
def unpadBox (fpgaNetw fpgaNeth newW newH : Int) (b : Box F) : Box F :=
  let deltaw : F := (fpgaNetw - newW : Int)
  let deltah : F := (fpgaNeth - newH : Int)
  let ratiow : F := newW / fpgaNetw
  let ratioh : F := newH / fpgaNeth
  { x := (b.x - deltaw / 2 / fpgaNetw) / ratiow
    y := (b.y - deltah / 2 / fpgaNeth) / ratioh
    w := b.w * (1 / ratiow)
    h := b.h * (1 / ratioh) }

def correctYoloBoxes (fpgaNetw fpgaNeth : Int) (dets : List (Detection F)) (srcW srcH : Int) :
    Option (List (Detection F)) :=
  (scaledSize F fpgaNetw fpgaNeth srcW srcH).map fun new =>
    dets.map fun d => { d with bbox := unpadBox fpgaNetw fpgaNeth new.1 new.2 d.bbox }

end Correction

-- One network size, and what the two sides make of a source of that size. A box around
-- column c and row r of the scaled picture is found at (c + begin_w, r + begin_h).
structure SameLetterbox (n : Nat) (rgb : RgbData2) (srcW srcH : Int) : Prop where
  sizes : scaledSize ℚ n n srcW srcH = some ((rgb.scaleW.toNat : Int), (rgb.scaleH.toNat : Int))
  mapped : ∀ (c r : ℚ) (d : Detection ℚ),
    d.bbox.x = (c + rgb.beginW n) / n → d.bbox.y = (r + rgb.beginH n) / n →
    ∃ e, correctYoloBoxes n n [d] srcW srcH = some [e] ∧
      |e.bbox.x - c / rgb.scaleW.toNat| ≤ 1 / rgb.scaleW.toNat ∧
      |e.bbox.y - r / rgb.scaleH.toNat| ≤ 1 / rgb.scaleH.toNat

theorem toInt_div_add_half (a l : Nat) (hl : 0 < l) :
    toInt ((a : ℚ) / l + 1 / 2) = ((2 * a + l) / (2 * l) : Nat) := by
  have hnonneg : ¬ (a : ℚ) / l + 1 / 2 < 0 := not_lt.mpr (by positivity)
  have hl' : (l : ℚ) ≠ 0 := by positivity
  have hsum : (a : ℚ) / l + 1 / 2 = ((2 * a + l : Nat) : ℚ) / ((2 * l : Nat) : ℚ) := by
    push_cast
    field_simp
  rw [toInt, if_neg hnonneg, hsum, Rat.floor_natCast_div_natCast]
  rfl

-- Rounding to nearest and dropping the fraction agree exactly below one half.
theorem rounded_eq_quotient_iff (a l : Nat) (hl : 0 < l) :
    (2 * a + l) / (2 * l) = a / l ↔ 2 * (a % l) < l := by
  have ha := Nat.div_add_mod a l
  have hmod := Nat.mod_lt a hl
  generalize a / l = q at ha ⊢
  generalize a % l = r at ha hmod ⊢
  have hsum : 2 * a + l = 2 * r + l + 2 * l * q := by
    rw [← ha]
    ring
  rw [hsum, Nat.add_mul_div_left _ _ (by omega), Nat.add_eq_right, Nat.div_eq_zero_iff]
  omega

-- The longer side fills the network input.
theorem quotient_of_side (n l : Nat) (hl : 0 < l) :
    (2 * (n * l) + l) / (2 * l) = n ∧ n * l / l = n := by
  refine ⟨?_, Nat.mul_div_cancel n hl⟩
  have hsum : 2 * (n * l) + l = l + 2 * l * n := by ring
  rw [hsum, Nat.add_mul_div_left _ _ (by omega), Nat.div_eq_of_lt (by omega), Nat.zero_add]

section SourceSize

variable {n : Nat} {srcW srcH : UInt16}

theorem ratio_eq (hw : 0 < srcW.toNat) (hh : 0 < srcH.toNat) :
    (if (n : ℚ) / srcH.toNat < (n : ℚ) / srcW.toNat then (n : ℚ) / srcH.toNat
      else (n : ℚ) / srcW.toNat) = (n : ℚ) / (max srcW.toNat srcH.toNat : Nat) := by
  have hw' : (0 : ℚ) < srcW.toNat := by exact_mod_cast hw
  have hh' : (0 : ℚ) < srcH.toNat := by exact_mod_cast hh
  have hn : (0 : ℚ) ≤ n := by positivity
  rw [← min_def_lt]
  rcases le_total srcW.toNat srcH.toNat with h | h
  · rw [max_eq_right h, min_eq_left]
    exact div_le_div_of_nonneg_left hn hw' (by exact_mod_cast h)
  · rw [max_eq_left h, min_eq_right]
    exact div_le_div_of_nonneg_left hn hh' (by exact_mod_cast h)

theorem ofInt_natCast (a : Nat) : UInt16.ofInt a = UInt16.ofNat a := by
  apply UInt16.toNat.inj
  simp only [UInt16.ofInt, UInt16.toNat_ofNat']
  omega

theorem real_size (a : Nat) (hl : 0 < max srcW.toNat srcH.toNat) :
    UInt16.ofInt (toInt ((n : ℚ) / (max srcW.toNat srcH.toNat : Nat) * a + 1 / 2)) =
      UInt16.ofNat ((2 * (n * a) + max srcW.toNat srcH.toNat) / (2 * max srcW.toNat srcH.toNat)) := by
  have hprod : (n : ℚ) / (max srcW.toNat srcH.toNat : Nat) * a =
      ((n * a : Nat) : ℚ) / (max srcW.toNat srcH.toNat : Nat) := by
    push_cast
    ring
  rw [hprod, toInt_div_add_half _ _ hl]
  exact ofInt_natCast _

theorem yuvToRgbScale_spec (scaled : Int → UInt8) (hw : 0 < srcW.toNat) (hh : 0 < srcH.toNat) :
    yuvToRgbScale n n scaled srcH srcW =
      { pData := scaled
        scaleH := UInt16.ofNat ((2 * (n * srcH.toNat) + max srcW.toNat srcH.toNat) /
          (2 * max srcW.toNat srcH.toNat))
        scaleW := UInt16.ofNat ((2 * (n * srcW.toNat) + max srcW.toNat srcH.toNat) /
          (2 * max srcW.toNat srcH.toNat)) } := by
  have hl : 0 < max srcW.toNat srcH.toNat := lt_max_of_lt_left hw
  simp only [yuvToRgbScale, scaleRatio, realSide, ratio_eq hw hh, real_size _ hl]

theorem intMul_natCast (a b : Nat) :
    intMul a b = if a * b ≤ 2147483647 then some ((a * b : Nat) : Int) else none := by
  have hcast : (a : Int) * b = ((a * b : Nat) : Int) := by push_cast; rfl
  rw [intMul, hcast]
  split <;> split <;> first | rfl | omega

theorem scaledSize_spec (hn : 0 < n) (hw : 0 < srcW.toNat) (hh : 0 < srcH.toNat) :
    scaledSize ℚ n n srcW.toNat srcH.toNat =
      if min srcW.toNat srcH.toNat * n ≤ 2147483647 then
        some (((n * srcW.toNat / max srcW.toNat srcH.toNat : Nat) : Int),
          ((n * srcH.toNat / max srcW.toNat srcH.toNat : Nat) : Int))
      else none := by
  have hw' : (0 : ℚ) < srcW.toNat := by exact_mod_cast hw
  have hh' : (0 : ℚ) < srcH.toNat := by exact_mod_cast hh
  have hn' : (0 : ℚ) < n := by exact_mod_cast hn
  rw [scaledSize]
  simp only [Int.cast_natCast, div_lt_div_iff_of_pos_left hn' hw' hh', Nat.cast_lt, intMul_natCast]
  by_cases h : srcH.toNat < srcW.toNat
  · rw [if_pos h, min_eq_right (le_of_lt h), max_eq_left (le_of_lt h),
      (quotient_of_side n srcW.toNat hw).2, Nat.mul_comm n]
    split <;> rfl
  · have hle : srcW.toNat ≤ srcH.toNat := not_lt.mp h
    rw [if_neg h, min_eq_left hle, max_eq_right hle, (quotient_of_side n srcH.toNat hh).2,
      Nat.mul_comm n]
    split <;> rfl

theorem padBegin_bounds {detect : Nat} {scale : UInt16} (hle : scale.toNat ≤ detect)
    (hlt : detect < 4294967296) :
    2 * padBegin detect scale ≤ detect - scale.toNat ∧
      detect - scale.toNat ≤ 2 * padBegin detect scale + 1 := by
  rw [padBegin]
  omega

-- Half a scaled pixel at most is lost where the padding is odd.
theorem mapped_back {detect : Nat} {scale : UInt16} (hpos : 0 < scale.toNat)
    (hle : scale.toNat ≤ detect) (hlt : detect < 4294967296) (c : ℚ) :
    |((c + padBegin detect scale) / detect - (detect - scale.toNat) / 2 / detect) /
        (scale.toNat / detect) - c / scale.toNat| ≤ 1 / scale.toNat := by
  have hbounds := padBegin_bounds hle hlt
  have hlow : 2 * (padBegin detect scale : ℚ) ≤ detect - scale.toNat := by
    rw [← Nat.cast_sub hle]
    exact_mod_cast hbounds.1
  have hhigh : (detect : ℚ) - scale.toNat ≤ 2 * padBegin detect scale + 1 := by
    rw [← Nat.cast_sub hle]
    exact_mod_cast hbounds.2
  have hscale : (0 : ℚ) < scale.toNat := by exact_mod_cast hpos
  have hdetect : (0 : ℚ) < detect := by exact_mod_cast Nat.lt_of_lt_of_le hpos hle
  have hdiff : ((c + padBegin detect scale) / detect - ((detect : ℚ) - scale.toNat) / 2 / detect) /
      (scale.toNat / detect) - c / scale.toNat =
      (padBegin detect scale - ((detect : ℚ) - scale.toNat) / 2) / scale.toNat := by
    field_simp
    ring
  rw [hdiff, abs_div, abs_of_pos hscale]
  apply div_le_div_of_nonneg_right _ (le_of_lt hscale)
  rw [abs_le]
  constructor <;> linarith

theorem mapped_of_sizes {rgb : RgbData2} (hsw : 0 < rgb.scaleW.toNat) (hsh : 0 < rgb.scaleH.toNat)
    (hw : rgb.scaleW.toNat ≤ n) (hh : rgb.scaleH.toNat ≤ n) (hn : n < 4294967296)
    (hsizes : scaledSize ℚ n n srcW.toNat srcH.toNat =
      some ((rgb.scaleW.toNat : Int), (rgb.scaleH.toNat : Int))) :
    SameLetterbox n rgb srcW.toNat srcH.toNat := by
  refine ⟨hsizes, ?_⟩
  intro c r d hx hy
  refine ⟨{ d with bbox := unpadBox n n rgb.scaleW.toNat rgb.scaleH.toNat d.bbox }, ?_, ?_, ?_⟩
  · rw [correctYoloBoxes, hsizes, Option.map_some, List.map_singleton]
  · simp only [unpadBox, hx, Int.cast_sub, Int.cast_natCast]
    exact mapped_back hsw hw hn c
  · simp only [unpadBox, hy, Int.cast_sub, Int.cast_natCast]
    exact mapped_back hsh hh hn r

theorem rounded_le_of_side_le {a l : Nat} (hl : 0 < l) (hle : a ≤ l) :
    (2 * (n * a) + l) / (2 * l) ≤ n := by
  have hmul : n * a ≤ n * l := Nat.mul_le_mul_left n hle
  calc (2 * (n * a) + l) / (2 * l) ≤ (2 * (n * l) + l) / (2 * l) := Nat.div_le_div_right (by omega)
    _ = n := (quotient_of_side n l hl).1

-- `s` is the shorter side and `l` the longer one.
theorem sides_iff {s l : Nat} (hl : 0 < l) (hle : s ≤ l) :
    n * l / l = (2 * (n * l) + l) / (2 * l) % 65536 ∧
        n * s / l = (2 * (n * s) + l) / (2 * l) % 65536 ↔
      n ≤ 65535 ∧ 2 * (s * n % l) < l := by
  have hrounded := rounded_le_of_side_le (n := n) hl hle
  rw [(quotient_of_side n l hl).1, (quotient_of_side n l hl).2, Nat.mul_comm s n,
    ← rounded_eq_quotient_iff (n * s) l hl]
  generalize (2 * (n * s) + l) / (2 * l) = rounded at hrounded ⊢
  generalize n * s / l = quotient
  omega

theorem sizes_iff (hn : 0 < n) (hw : 0 < srcW.toNat) (hh : 0 < srcH.toNat) (rgb : RgbData2)
    (hsw : rgb.scaleW = UInt16.ofNat ((2 * (n * srcW.toNat) + max srcW.toNat srcH.toNat) /
      (2 * max srcW.toNat srcH.toNat)))
    (hsh : rgb.scaleH = UInt16.ofNat ((2 * (n * srcH.toNat) + max srcW.toNat srcH.toNat) /
      (2 * max srcW.toNat srcH.toNat))) :
    scaledSize ℚ n n srcW.toNat srcH.toNat =
        some ((rgb.scaleW.toNat : Int), (rgb.scaleH.toNat : Int)) ↔
      n ≤ 65535 ∧ min srcW.toNat srcH.toNat * n ≤ 2147483647 ∧
        2 * (min srcW.toNat srcH.toNat * n % max srcW.toNat srcH.toNat) <
          max srcW.toNat srcH.toNat := by
  rw [scaledSize_spec hn hw hh, hsw, hsh, UInt16.toNat_ofNat', UInt16.toNat_ofNat']
  by_cases hfits : min srcW.toNat srcH.toNat * n ≤ 2147483647
  · rw [if_pos hfits, Option.some_inj, Prod.mk.injEq, Int.ofNat_inj, Int.ofNat_inj]
    rcases le_total srcW.toNat srcH.toNat with h | h
    · rw [max_eq_right h, min_eq_left h] at *
      have hsides := sides_iff (n := n) hh h
      omega
    · rw [max_eq_left h, min_eq_right h] at *
      have hsides := sides_iff (n := n) hw h
      omega
  · rw [if_neg hfits]
    constructor
    · intro h
      exact absurd h (Option.some_ne_none _).symm
    · intro h
      exact absurd h.2.1 hfits

-- Both sides use the same letterbox exactly where the scaled length of the shorter side has
-- a fraction below one half, its product fits in an int and the sizes fit in sixteen bits.
theorem sameLetterbox_iff {scaled : Int → UInt8} (hw : 0 < srcW.toNat) (hh : 0 < srcH.toNat)
    (hsw : 0 < (yuvToRgbScale n n scaled srcH srcW).scaleW.toNat)
    (hsh : 0 < (yuvToRgbScale n n scaled srcH srcW).scaleH.toNat) :
    SameLetterbox n (yuvToRgbScale n n scaled srcH srcW) srcW.toNat srcH.toNat ↔
      n ≤ 65535 ∧ min srcW.toNat srcH.toNat * n ≤ 2147483647 ∧
        2 * (min srcW.toNat srcH.toNat * n % max srcW.toNat srcH.toNat) <
          max srcW.toNat srcH.toNat := by
  rw [yuvToRgbScale_spec scaled hw hh] at *
  have hn : 0 < n := by
    apply Nat.pos_of_ne_zero
    rintro rfl
    have hl : 0 < max srcW.toNat srcH.toNat := lt_max_of_lt_left hw
    simp only [Nat.zero_mul, Nat.mul_zero, Nat.zero_add, UInt16.toNat_ofNat',
      Nat.div_eq_of_lt (show max srcW.toNat srcH.toNat < 2 * max srcW.toNat srcH.toNat by omega)] at hsw
    omega
  constructor
  · intro h
    exact (sizes_iff hn hw hh _ rfl rfl).mp h.sizes
  · intro h
    have hle (a : Nat) (ha : a ≤ max srcW.toNat srcH.toNat) :=
      rounded_le_of_side_le (n := n) (lt_max_of_lt_left hw) ha
    refine mapped_of_sizes hsw hsh ?_ ?_ (by omega) ((sizes_iff hn hw hh _ rfl rfl).mpr h)
    · rw [UInt16.toNat_ofNat']
      exact (Nat.mod_le ..).trans (hle _ (le_max_left ..))
    · rw [UInt16.toNat_ofNat']
      exact (Nat.mod_le ..).trans (hle _ (le_max_right ..))

end SourceSize

-- 720p on a network of 416: 1280 to 416 and 720 to 234.
theorem sameLetterbox_iff_720p :
    SameLetterbox 416 (yuvToRgbScale 416 416 (fun _ => 0) 720 1280) 1280 720 :=
  (sameLetterbox_iff (n := 416) (by decide) (by decide) (by decide +kernel) (by decide +kernel)).mpr
    (by decide)

-- A frame of 1920 by 1088 is scaled to 416 by 236 and read back as 416 by 235.
theorem not_sameLetterbox_1088 :
    (yuvToRgbScale 416 416 (fun _ => 0) 1088 1920).scaleH = 236 ∧
      scaledSize ℚ 416 416 1920 1088 = some (416, 235) ∧
      ¬ SameLetterbox 416 (yuvToRgbScale 416 416 (fun _ => 0) 1088 1920) 1920 1088 := by
  have hsizes : (yuvToRgbScale 416 416 (fun _ => 0) 1088 1920).scaleH = 236 ∧
      scaledSize ℚ 416 416 1920 1088 = some (416, 235) := by decide +kernel
  refine ⟨hsizes.1, hsizes.2, ?_⟩
  intro h
  have hsame := h.sizes
  rw [hsizes.1] at hsame
  have hread := hsizes.2.symm.trans hsame
  simp at hread

end Vcu
