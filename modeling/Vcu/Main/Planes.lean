import Vcu.Lib.Strided
import Vcu.YoloDetect.Letterbox

namespace Vcu

open Strided

-- The static locals of yuv_to_rgb_scale, which the first call sets.
structure ScaleStatics where
  realHeight : Int
  realWidth : Int
  ySrcPos : Int
  uSrcPos : Int
  yDstPos : Int
  uDstPos : Int
  deriving DecidableEq

-- The offsets of the planes in both pictures.
def ScaleStatics.ofSides (realHeight realWidth : Int) (srcHeight srcWidth : UInt16) : Option ScaleStatics := do
  let ySrcPos ← intMul srcHeight.toNat srcWidth.toNat
  let uSrc ← intMul srcWidth.toNat srcHeight.toNat
  let uSrcPos ← intMul uSrc 5
  let yDstPos ← intMul realHeight realWidth
  let uDstPos ← intMul yDstPos 5
  some {
    realHeight := realHeight
    realWidth := realWidth
    ySrcPos := ySrcPos
    uSrcPos := uSrcPos >>> (2 : Nat)
    yDstPos := yDstPos
    uDstPos := uDstPos >>> (2 : Nat) }

-- A side that does not fit an int has a product that does not fit either.
def scaleStatics (detectH detectW : Nat) (srcHeight srcWidth : UInt16) : Option ScaleStatics :=
  let ratio := scaleRatio detectH detectW srcHeight srcWidth
  ScaleStatics.ofSides (realSide ratio srcHeight) (realSide ratio srcWidth) srcHeight srcWidth

namespace ScaleStatics

-- What I420Scale writes into pDst. It halves the sides of the chroma planes upwards.
def yDst (s : ScaleStatics) : Plane :=
  { pos := 0, stride := s.realWidth, rows := s.realHeight, cols := s.realWidth }

def uDst (s : ScaleStatics) : Plane where
  pos := s.yDstPos
  stride := s.realWidth >>> (1 : Nat)
  rows := (s.realHeight + 1) / 2
  cols := (s.realWidth + 1) / 2

def vDst (s : ScaleStatics) : Plane where
  pos := s.uDstPos
  stride := s.realWidth >>> (1 : Nat)
  rows := (s.realHeight + 1) / 2
  cols := (s.realWidth + 1) / 2

-- The planes do not overlap and lie in a buffer of `len` bytes.
structure PlanesFit (s : ScaleStatics) (len : Int) : Prop where
  yu : ∀ i ∈ s.yDst.bytes, i ∉ s.uDst.bytes
  yv : ∀ i ∈ s.yDst.bytes, i ∉ s.vDst.bytes
  uv : ∀ i ∈ s.uDst.bytes, i ∉ s.vDst.bytes
  y : ∀ i ∈ s.yDst.bytes, 0 ≤ i ∧ i < len
  u : ∀ i ∈ s.uDst.bytes, 0 ≤ i ∧ i < len
  v : ∀ i ∈ s.vDst.bytes, 0 ≤ i ∧ i < len

end ScaleStatics

section Sizes

variable {h w P len : Int}

-- The bytes of a chroma plane whose sides are those of the picture, halved.
def chromaLen (h w : Int) : Int := (h + 1) / 2 * (w / 2) + w % 2

theorem chromaLen_pos (hh : 0 < h) (hw : 0 < w) : 0 < chromaLen h w := by
  rw [chromaLen]
  have hrows : 0 < (h + 1) / 2 := by omega
  by_cases hone : w = 1
  · rw [hone]
    omega
  · have hprod := Int.mul_pos hrows (show 0 < w / 2 by omega)
    omega

theorem four_mul_chromaLen (h w : Int) : 4 * chromaLen h w =
    h * w - h * (w % 2) + h % 2 * w - h % 2 * (w % 2) + 4 * (w % 2) := by
  have hh : h = 2 * ((h + 1) / 2) - h % 2 := by omega
  have hw : w = 2 * (w / 2) + w % 2 := by omega
  rw [chromaLen]
  generalize (h + 1) / 2 = rows at hh ⊢
  generalize w / 2 = stride at hw ⊢
  generalize h % 2 = hodd at hh ⊢
  generalize w % 2 = wodd at hw ⊢
  subst hh hw
  ring

-- Whether the two chroma planes have room one behind the other.
theorem chromaLen_le_iff (hh : 0 < h) (hw : 0 < w) : 4 * chromaLen h w ≤ h * w ↔
    h % 2 = 0 ∧ w % 2 = 0 ∨ h % 2 = 0 ∧ w % 2 = 1 ∧ 4 ≤ h ∨ h % 2 = 1 ∧ w % 2 = 1 ∧ w + 3 ≤ h := by
  rw [four_mul_chromaLen]
  rcases Int.emod_two_eq_zero_or_one h with hh2 | hh2 <;>
    rcases Int.emod_two_eq_zero_or_one w with hw2 | hw2 <;>
    rw [hh2, hw2] <;> omega

end Sizes

section Fit

variable {s : ScaleStatics} {len i : Int}

theorem mem_yDst_bytes (hh : 0 < s.realHeight) (hw : 0 < s.realWidth) :
    i ∈ s.yDst.bytes ↔ 0 ≤ i ∧ i < s.realHeight * s.realWidth := by
  have hend : (0 : Int) + ((s.realHeight - 1) * s.realWidth + s.realWidth) =
      s.realHeight * s.realWidth := by ring
  rw [ScaleStatics.yDst, Plane.mem_bytes_iff hh hw.le (Int.le_refl _), hend]

theorem mem_chroma_bytes (hh : 0 < s.realHeight) (hw : 0 < s.realWidth) (pos : Int) :
    i ∈ ({ pos := pos, stride := s.realWidth >>> (1 : Nat), rows := (s.realHeight + 1) / 2
           cols := (s.realWidth + 1) / 2 } : Plane).bytes ↔
      pos ≤ i ∧ i < pos + chromaLen s.realHeight s.realWidth := by
  have hstride : s.realWidth >>> (1 : Nat) = s.realWidth / 2 := Int.shiftRight_eq_div_pow ..
  have hlen : ((s.realHeight + 1) / 2 - 1) * (s.realWidth / 2) + (s.realWidth + 1) / 2 =
      chromaLen s.realHeight s.realWidth := by
    rw [chromaLen, Int.sub_mul]
    omega
  rw [Plane.mem_bytes_iff (by simp only; omega) (by simp only; omega) (by simp only; omega), hstride, hlen]

theorem planesFit_iff (hh : 0 < s.realHeight) (hw : 0 < s.realWidth)
    (hy : s.yDstPos = s.realHeight * s.realWidth)
    (hu : s.uDstPos = (s.realHeight * s.realWidth * 5) / 4) :
    s.PlanesFit len ↔ 4 * chromaLen s.realHeight s.realWidth ≤ s.realHeight * s.realWidth ∧
      s.uDstPos + chromaLen s.realHeight s.realWidth ≤ len := by
  have hY : ∀ i, i ∈ s.yDst.bytes ↔ _ := fun i => mem_yDst_bytes hh hw
  have hU : ∀ i, i ∈ s.uDst.bytes ↔ _ := fun i => mem_chroma_bytes hh hw s.yDstPos
  have hV : ∀ i, i ∈ s.vDst.bytes ↔ _ := fun i => mem_chroma_bytes hh hw s.uDstPos
  have hc := chromaLen_pos hh hw
  have hP := Int.mul_pos hh hw
  constructor
  · intro h
    -- The first byte of V is not in U, and its last one lies in the buffer.
    have huv : s.uDstPos ∉ s.uDst.bytes := fun hmem => h.uv s.uDstPos hmem ((hV _).mpr (by omega))
    have hv := h.v (s.uDstPos + chromaLen s.realHeight s.realWidth - 1) ((hV _).mpr (by omega))
    rw [hU] at huv
    omega
  · rintro ⟨hroom, hend⟩
    refine ⟨?_, ?_, ?_, ?_, ?_, ?_⟩
    · intro i
      rw [hY, hU]
      omega
    · intro i
      rw [hY, hV]
      omega
    · intro i
      rw [hU, hV]
      omega
    · intro i
      rw [hY]
      omega
    · intro i
      rw [hU]
      omega
    · intro i
      rw [hV]
      omega

end Fit

section Call

variable {detectH detectW : Nat} {srcHeight srcWidth : UInt16} {s : ScaleStatics}

theorem intMul_eq_some_iff {a b p : Int} :
    intMul a b = some p ↔ (-2147483648 ≤ a * b ∧ a * b ≤ 2147483647) ∧ a * b = p := by
  rw [intMul, Option.ite_none_right_eq_some, Option.some.injEq]

-- The offsets are defined if five times the products of the sides fit an int.
theorem ScaleStatics.ofSides_eq_some_iff {h w : Int} :
    ScaleStatics.ofSides h w srcHeight srcWidth = some s ↔
      ((srcWidth.toNat * srcHeight.toNat * 5 : Int) ≤ 2147483647 ∧
          -2147483648 ≤ h * w * 5 ∧ h * w * 5 ≤ 2147483647) ∧
        s = {
          realHeight := h
          realWidth := w
          ySrcPos := srcHeight.toNat * srcWidth.toNat
          uSrcPos := (srcWidth.toNat * srcHeight.toNat * 5 : Int) >>> (2 : Nat)
          yDstPos := h * w
          uDstPos := (h * w * 5) >>> (2 : Nat) } := by
  have hsrc : (0 : Int) ≤ srcWidth.toNat * srcHeight.toNat := Int.mul_nonneg (by omega) (by omega)
  have hcomm : (srcHeight.toNat * srcWidth.toNat : Int) = srcWidth.toNat * srcHeight.toNat :=
    Int.mul_comm ..
  simp only [ofSides, Option.bind_eq_bind, Option.bind_eq_some_iff, Option.some.injEq, intMul_eq_some_iff]
  constructor
  · rintro ⟨_, ⟨-, rfl⟩, _, ⟨-, rfl⟩, _, ⟨hsrc5, rfl⟩, _, ⟨-, rfl⟩, _, ⟨hdst5, rfl⟩, rfl⟩
    exact ⟨⟨hsrc5.2, hdst5⟩, rfl⟩
  · rintro ⟨⟨hsrc5, hdst5⟩, rfl⟩
    exact ⟨_, ⟨by omega, rfl⟩, _, ⟨by omega, rfl⟩, _, ⟨by omega, rfl⟩, _, ⟨by omega, rfl⟩, _,
      ⟨by omega, rfl⟩, rfl⟩

theorem scaleStatics_eq_some_iff {h w : Int}
    (hh : realSide (scaleRatio detectH detectW srcHeight srcWidth) srcHeight = h)
    (hw : realSide (scaleRatio detectH detectW srcHeight srcWidth) srcWidth = w) (hpos : 0 ≤ h ∧ 0 ≤ w) :
    scaleStatics detectH detectW srcHeight srcWidth = some s ↔
      ((srcWidth.toNat * srcHeight.toNat * 5 : Int) ≤ 2147483647 ∧ h * w * 5 ≤ 2147483647) ∧
        s = {
          realHeight := h
          realWidth := w
          ySrcPos := srcHeight.toNat * srcWidth.toNat
          uSrcPos := (srcWidth.toNat * srcHeight.toNat * 5 : Int) >>> (2 : Nat)
          yDstPos := h * w
          uDstPos := (h * w * 5) >>> (2 : Nat) } := by
  have hprod := Int.mul_nonneg hpos.1 hpos.2
  have hlow : -2147483648 ≤ h * w * 5 := by omega
  simp only [scaleStatics, hh, hw, ScaleStatics.ofSides_eq_some_iff, hlow, true_and]

theorem scaleRatio_nonneg (detectH detectW : Nat) (srcHeight srcWidth : UInt16) :
    0 ≤ scaleRatio detectH detectW srcHeight srcWidth := by
  simp only [scaleRatio]
  split <;> positivity

-- The ratio moves both sides the same way.
theorem realSide_le_or_le (detectH detectW : Nat) (srcHeight srcWidth : UInt16) :
    (∀ side : UInt16, realSide (scaleRatio detectH detectW srcHeight srcWidth) side ≤ side.toNat) ∨
      ∀ side : UInt16, side.toNat ≤ realSide (scaleRatio detectH detectW srcHeight srcWidth) side := by
  have hratio := scaleRatio_nonneg detectH detectW srcHeight srcWidth
  generalize scaleRatio detectH detectW srcHeight srcWidth = ratio at hratio ⊢
  have hfloor : ∀ side : UInt16, realSide ratio side = ⌊ratio * side.toNat + 1 / 2⌋ :=
    fun side => if_neg (not_lt.mpr (by positivity))
  rcases le_total ratio 1 with hle | hle
  · left
    intro side
    have hside : ratio * side.toNat ≤ 1 * side.toNat := mul_le_mul_of_nonneg_right hle (by positivity)
    rw [hfloor, ← Int.lt_add_one_iff, Int.floor_lt]
    push_cast
    linarith
  · right
    intro side
    have hside : 1 * (side.toNat : ℚ) ≤ ratio * side.toNat :=
      mul_le_mul_of_nonneg_right hle (by positivity)
    rw [hfloor, Int.le_floor]
    push_cast
    linarith

-- Whatever is scaled up leaves a buffer of the size of the source.
theorem area_le_of_inside {H W h w : Int} (hsrc : 0 ≤ H ∧ 0 ≤ W) (hodd : W % 2 = 0) (hH : H ≤ h) (hW : W ≤ w)
    (hpos : 0 < h ∧ 0 < w) (hroom : 4 * chromaLen h w ≤ h * w)
    (hend : h * w * 5 / 4 + chromaLen h w ≤ W * H * 3 / 2) : h * w ≤ W * H := by
  have hfour := four_mul_chromaLen h w
  have hgrow : H * W ≤ h * W := Int.mul_le_mul_of_nonneg_right hH hsrc.2
  rw [Int.mul_comm] at hgrow
  rcases (chromaLen_le_iff hpos.1 hpos.2).mp hroom with ⟨hh2, hw2⟩ | ⟨hh2, hw2, -⟩ | ⟨hh2, hw2, -⟩
  · rw [hh2, hw2] at hfour
    omega
  · have hwide : h * (W + 1) ≤ h * w := Int.mul_le_mul_of_nonneg_left (by omega) hpos.1.le
    rw [hh2, hw2] at hfour
    rw [Int.mul_add] at hwide
    omega
  · have hwide : h * (W + 1) ≤ h * w := Int.mul_le_mul_of_nonneg_left (by omega) hpos.1.le
    rw [hh2, hw2] at hfour
    rw [Int.mul_add] at hwide
    omega

-- The planes fit exactly if the sides of the scaled picture are even or the halves that are rounded up
-- have room in the truncated offsets, the picture is not larger than the source, and the offsets of
-- the source fit an int.
theorem scaled_planes_fit_iff {h w : Int} (hH : srcHeight.toNat % 2 = 0) (hW : srcWidth.toNat % 2 = 0)
    (hh : realSide (scaleRatio detectH detectW srcHeight srcWidth) srcHeight = h)
    (hw : realSide (scaleRatio detectH detectW srcHeight srcWidth) srcWidth = w) (hpos : 0 < h ∧ 0 < w) :
    (∃ s, scaleStatics detectH detectW srcHeight srcWidth = some s ∧
        s.PlanesFit (srcWidth.toNat * srcHeight.toNat * 3 / 2)) ↔
      (h % 2 = 0 ∧ w % 2 = 0 ∨ h % 2 = 0 ∧ w % 2 = 1 ∧ 4 ≤ h ∨ h % 2 = 1 ∧ w % 2 = 1 ∧ w + 3 ≤ h) ∧
        h * w ≤ srcWidth.toNat * srcHeight.toNat ∧
        (srcWidth.toNat * srcHeight.toNat * 5 : Int) ≤ 2147483647 := by
  have heven : (srcWidth.toNat * srcHeight.toNat : Int) % 2 = 0 := by
    rw [Int.mul_emod]
    have hwidth : (srcWidth.toNat : Int) % 2 = 0 := by omega
    rw [hwidth, Int.zero_mul]
    rfl
  have hshift : (h * w * 5) >>> (2 : Nat) = h * w * 5 / 4 := Int.shiftRight_eq_div_pow ..
  rw [← chromaLen_le_iff hpos.1 hpos.2]
  constructor
  · rintro ⟨s, hs, hfit⟩
    obtain ⟨⟨hsrc5, -⟩, rfl⟩ := (scaleStatics_eq_some_iff hh hw ⟨hpos.1.le, hpos.2.le⟩).mp hs
    obtain ⟨hroom, hend⟩ := (planesFit_iff hpos.1 hpos.2 rfl hshift).mp hfit
    refine ⟨hroom, ?_, hsrc5⟩
    simp only [hshift] at hroom hend
    rcases realSide_le_or_le detectH detectW srcHeight srcWidth with hle | hle
    · have hhle := hle srcHeight
      have hwle := hle srcWidth
      rw [hh] at hhle
      rw [hw] at hwle
      rw [Int.mul_comm]
      exact Int.mul_le_mul hwle hhle hpos.1.le (by omega)
    · have hhle := hle srcHeight
      have hwle := hle srcWidth
      rw [hh] at hhle
      rw [hw] at hwle
      exact area_le_of_inside ⟨by omega, by omega⟩ (by omega) hhle hwle hpos hroom hend
  · rintro ⟨hroom, harea, hsrc5⟩
    refine ⟨_, (scaleStatics_eq_some_iff hh hw ⟨hpos.1.le, hpos.2.le⟩).mpr ⟨⟨hsrc5, by omega⟩, rfl⟩, ?_⟩
    refine (planesFit_iff hpos.1 hpos.2 rfl hshift).mpr ⟨hroom, ?_⟩
    simp only [hshift]
    omega

end Call

-- 720p on a network of 416.
theorem scaled_planes_fit_iff_720p :
    (∃ s, scaleStatics 416 416 720 1280 = some s ∧
        s.PlanesFit ((1280 : UInt16).toNat * (720 : UInt16).toNat * 3 / 2)) ↔
      ((234 : Int) % 2 = 0 ∧ (416 : Int) % 2 = 0 ∨ (234 : Int) % 2 = 0 ∧ (416 : Int) % 2 = 1 ∧ (4 : Int) ≤ 234 ∨
        (234 : Int) % 2 = 1 ∧ (416 : Int) % 2 = 1 ∧ (416 : Int) + 3 ≤ 234) ∧
        (234 : Int) * 416 ≤ (1280 : UInt16).toNat * (720 : UInt16).toNat ∧
        ((1280 : UInt16).toNat * (720 : UInt16).toNat * 5 : Int) ≤ 2147483647 :=
  scaled_planes_fit_iff (by decide) (by decide) (by decide +kernel)
    (by decide +kernel) (by decide)

-- A frame of 720 by 576 is scaled to 416 by 333. The rows of U are 167, and V begins within the last.
theorem planes_overlap_576 : ∃ s, scaleStatics 416 416 576 720 = some s ∧
    s.realHeight = 333 ∧ s.realWidth = 416 ∧ 173160 ∈ s.uDst.bytes ∧ 173160 ∈ s.vDst.bytes ∧
      ¬ s.PlanesFit (720 * 576 * 3 / 2) := by
  have hrun : scaleStatics 416 416 576 720 = some {
      realHeight := 333
      realWidth := 416
      ySrcPos := 414720
      uSrcPos := 518400
      yDstPos := 138528
      uDstPos := 173160 } := by decide +kernel
  have hu : 173160 ∈ (ScaleStatics.uDst ⟨333, 416, 414720, 518400, 138528, 173160⟩).bytes :=
    ⟨166, 104, by decide, by decide, by decide⟩
  have hv : 173160 ∈ (ScaleStatics.vDst ⟨333, 416, 414720, 518400, 138528, 173160⟩).bytes :=
    ⟨0, 0, by decide, by decide, by decide⟩
  refine ⟨_, hrun, rfl, rfl, hu, hv, ?_⟩
  intro hfit
  exact hfit.uv _ hu hv

end Vcu
