import Vcu.Lib.Once
import Vcu.Main.Planes

namespace Vcu

open Machine

-- A frame that the decoder hands to vcu_callback.
structure VcuFrame where
  canSendBox : Bool
  height : UInt16
  width : UInt16
  deriving DecidableEq

-- vcu_callback, as far as yuv_to_rgb_scale is concerned. `own` computes its static locals.
def scaleFrame (own : UInt16 → UInt16 → Option ScaleStatics) (s : Once.State VcuFrame ScaleStatics)
    (f : VcuFrame) : Option (Once.State VcuFrame ScaleStatics) :=
  if f.canSendBox then Once.step (fun f => own f.height f.width) s f else some s

-- Every frame is scaled with its own offsets and sizes.
def ScaledByOwnSize (own : UInt16 → UInt16 → Option ScaleStatics) (frames : List VcuFrame) : Prop :=
  ∃ s, run (scaleFrame own) {} frames = some s ∧ ∀ c ∈ s.calls, own c.1.height c.1.width = some c.2

def sentFrames (frames : List VcuFrame) : List VcuFrame := frames.filter VcuFrame.canSendBox

theorem scaledByOwnSize_iff_faithful (own : UInt16 → UInt16 → Option ScaleStatics)
    (frames : List VcuFrame) :
    ScaledByOwnSize own frames ↔ Once.Faithful (fun f => own f.height f.width) (sentFrames frames) := by
  unfold ScaledByOwnSize Once.Faithful sentFrames
  rw [← run_ite]
  rfl

section Arithmetic

variable {F : Type} [Mul F] [Div F] [LT F] [DecidableLT F]

-- The arithmetic of the scales. `ofUInt32` converts the sides, and `rounded` adds one half and
-- converts to int, if the result fits.
variable (ofUInt32 : UInt32 → F) (rounded : F → Option Int) (detectH detectW : UInt32)

def frameRatio (srcHeight srcWidth : UInt16) : F :=
  let ratio1 := ofUInt32 detectH / ofUInt32 srcHeight.toUInt32
  let ratio2 := ofUInt32 detectW / ofUInt32 srcWidth.toUInt32
  if ratio1 < ratio2 then ratio1 else ratio2

def frameStatics (srcHeight srcWidth : UInt16) : Option ScaleStatics := do
  let ratio := frameRatio ofUInt32 detectH detectW srcHeight srcWidth
  let realHeight ← rounded (ratio * ofUInt32 srcHeight.toUInt32)
  let realWidth ← rounded (ratio * ofUInt32 srcWidth.toUInt32)
  ScaleStatics.ofSides realHeight realWidth srcHeight srcWidth

namespace VcuFrame

def pixels (f : VcuFrame) : Nat := f.height.toNat * f.width.toNat

-- A side of the scaled picture, in the ratio of a picture that just fits the network.
def scaledHeight (f : VcuFrame) : Option Int :=
  rounded (frameRatio ofUInt32 detectH detectW f.height f.width * ofUInt32 f.height.toUInt32)

def scaledWidth (f : VcuFrame) : Option Int :=
  rounded (frameRatio ofUInt32 detectH detectW f.height f.width * ofUInt32 f.width.toUInt32)

-- The sides and the offsets of both pictures fit an int.
structure OffsetsFit (f : VcuFrame) : Prop where
  source : f.pixels * 5 ≤ 2147483647
  scaled : ∃ h w, f.scaledHeight ofUInt32 rounded detectH detectW = some h ∧
    f.scaledWidth ofUInt32 rounded detectH detectW = some w ∧
    -2147483648 ≤ h * w * 5 ∧ h * w * 5 ≤ 2147483647

-- Two sizes that yuv_to_rgb_scale does not tell apart.
structure SameScale (f g : VcuFrame) : Prop where
  pixels : f.pixels = g.pixels
  height : f.scaledHeight ofUInt32 rounded detectH detectW = g.scaledHeight ofUInt32 rounded detectH detectW
  width : f.scaledWidth ofUInt32 rounded detectH detectW = g.scaledWidth ofUInt32 rounded detectH detectW

end VcuFrame

variable {ofUInt32 rounded detectH detectW} {f g : VcuFrame}

theorem frameStatics_eq_some_iff {s : ScaleStatics} :
    frameStatics ofUInt32 rounded detectH detectW f.height f.width = some s ↔
      f.pixels * 5 ≤ 2147483647 ∧ ∃ h w, f.scaledHeight ofUInt32 rounded detectH detectW = some h ∧
        f.scaledWidth ofUInt32 rounded detectH detectW = some w ∧
        (-2147483648 ≤ h * w * 5 ∧ h * w * 5 ≤ 2147483647) ∧ s = {
          realHeight := h
          realWidth := w
          ySrcPos := f.pixels
          uSrcPos := ((f.pixels * 5 : Nat) : Int) >>> (2 : Nat)
          yDstPos := h * w
          uDstPos := (h * w * 5) >>> (2 : Nat) } := by
  have hcomm : (f.width.toNat * f.height.toNat : Int) = (f.pixels : Nat) := by
    rw [VcuFrame.pixels, Int.natCast_mul, Int.mul_comm]
  have hpixels : (f.height.toNat * f.width.toNat : Int) = (f.pixels : Nat) := (Int.natCast_mul ..).symm
  have hfive : ((f.pixels : Nat) * 5 : Int) = ((f.pixels * 5 : Nat) : Int) := (Int.natCast_mul ..).symm
  simp only [frameStatics, Option.bind_eq_bind, Option.bind_eq_some_iff, ScaleStatics.ofSides_eq_some_iff,
    hcomm, hpixels, hfive]
  constructor
  · rintro ⟨h, hh, w, hw, ⟨hsrc, hdst⟩, rfl⟩
    exact ⟨by omega, h, w, hh, hw, hdst, rfl⟩
  · rintro ⟨hsrc, h, w, hh, hw, hdst, rfl⟩
    exact ⟨h, hh, w, hw, ⟨by omega, hdst⟩, rfl⟩

theorem isSome_frameStatics_iff :
    (frameStatics ofUInt32 rounded detectH detectW f.height f.width).isSome ↔
      f.OffsetsFit ofUInt32 rounded detectH detectW := by
  rw [Option.isSome_iff_exists]
  constructor
  · rintro ⟨s, hs⟩
    obtain ⟨hsrc, h, w, hh, hw, hdst, -⟩ := frameStatics_eq_some_iff.mp hs
    exact ⟨hsrc, h, w, hh, hw, hdst⟩
  · rintro ⟨hsrc, h, w, hh, hw, hdst⟩
    exact ⟨_, frameStatics_eq_some_iff.mpr ⟨hsrc, h, w, hh, hw, hdst, rfl⟩⟩

theorem frameStatics_eq_iff (hfit : f.OffsetsFit ofUInt32 rounded detectH detectW) :
    frameStatics ofUInt32 rounded detectH detectW g.height g.width =
        frameStatics ofUInt32 rounded detectH detectW f.height f.width ↔
      f.SameScale ofUInt32 rounded detectH detectW g := by
  obtain ⟨hsrc, h, w, hh, hw, hdst⟩ := hfit
  rw [frameStatics_eq_some_iff.mpr ⟨hsrc, h, w, hh, hw, hdst, rfl⟩, frameStatics_eq_some_iff]
  constructor
  · rintro ⟨-, h', w', hh', hw', -, hsame⟩
    obtain ⟨rfl, rfl, hpixels, -⟩ := ScaleStatics.mk.inj hsame
    exact ⟨Int.ofNat_inj.mp hpixels, hh.trans hh'.symm, hw.trans hw'.symm⟩
  · rintro ⟨hpixels, hheight, hwidth⟩
    rw [← hpixels]
    exact ⟨hsrc, h, w, hheight.symm.trans hh, hwidth.symm.trans hw, hdst, rfl⟩

theorem sameScale_of_size (hheight : g.height = f.height) (hwidth : g.width = f.width) :
    f.SameScale ofUInt32 rounded detectH detectW g := by
  constructor
  · rw [VcuFrame.pixels, VcuFrame.pixels, hheight, hwidth]
  · rw [VcuFrame.scaledHeight, VcuFrame.scaledHeight, hheight, hwidth]
  · rw [VcuFrame.scaledWidth, VcuFrame.scaledWidth, hheight, hwidth]

-- Whatever the arithmetic is, the frames have to agree in their pixels and in both sides of the scaled
-- picture, as frames of one size do.
theorem scaledByOwnSize_iff (ofUInt32 : UInt32 → F) (rounded : F → Option Int) (detectH detectW : UInt32)
    (frames : List VcuFrame) :
    (ScaledByOwnSize (frameStatics ofUInt32 rounded detectH detectW) frames ↔
      ∀ f ∈ sentFrames frames, f.OffsetsFit ofUInt32 rounded detectH detectW ∧
        ∀ g ∈ sentFrames frames, f.SameScale ofUInt32 rounded detectH detectW g) ∧
    ((∀ f ∈ sentFrames frames, f.OffsetsFit ofUInt32 rounded detectH detectW ∧
        ∀ g ∈ sentFrames frames, g.height = f.height ∧ g.width = f.width) →
      ScaledByOwnSize (frameStatics ofUInt32 rounded detectH detectW) frames) := by
  have hiff : ScaledByOwnSize (frameStatics ofUInt32 rounded detectH detectW) frames ↔
      ∀ f ∈ sentFrames frames, f.OffsetsFit ofUInt32 rounded detectH detectW ∧
        ∀ g ∈ sentFrames frames, f.SameScale ofUInt32 rounded detectH detectW g := by
    rw [scaledByOwnSize_iff_faithful, Once.faithful_iff]
    refine forall₂_congr fun f _ => ?_
    rw [isSome_frameStatics_iff]
    refine and_congr_right fun hfit => ?_
    exact forall₂_congr fun g _ => frameStatics_eq_iff hfit
  refine ⟨hiff, fun hsizes => hiff.mpr ?_⟩
  intro f hf
  obtain ⟨hfit, hsame⟩ := hsizes f hf
  exact ⟨hfit, fun g hg => sameScale_of_size (hsame g hg).1 (hsame g hg).2⟩

end Arithmetic

-- Over the rationals these are the locals of Planes.
theorem frameStatics_rat (detectH detectW : UInt32) (srcHeight srcWidth : UInt16) :
    frameStatics (fun n => (n.toNat : ℚ)) (fun q => some (toInt (q + 1 / 2))) detectH detectW srcHeight
      srcWidth = scaleStatics detectH.toNat detectW.toNat srcHeight srcWidth := by
  simp only [frameStatics, frameRatio, UInt16.toNat_toUInt32]
  rfl

section Floats

open Float.Model

-- The conversion to int. Nothing is defined for what does not fit.
def floatToInt : UnpackedFloat → Option Int
  | .notANumber => none
  | .infinity _ => none
  | x => if -2147483648 ≤ x.toInt 0 0 ∧ x.toInt 0 0 ≤ 2147483647 then some (x.toInt 0 0) else none

-- The constant 0.5 is a double, so the sum is one as well.
def addHalfToInt (x : Float32) : Option Int :=
  floatToInt (UnpackedFloat.add Format.binary64 x.toModel.unpack (.finite .positive 1 (-1) Nat.one_pos))

-- The static locals as yuv_to_rgb_scale computes them.
def floatStatics : UInt32 → UInt32 → UInt16 → UInt16 → Option ScaleStatics :=
  frameStatics UInt32.toFloat32 addHalfToInt

-- Two sizes with the same pixels. Exact quotients give both the same sides, and floats do not.
example : (floatStatics 608 608 5175 14400).map ScaleStatics.realHeight = some 218 ∧
    (floatStatics 608 608 5184 14375).map ScaleStatics.realHeight = some 219 := by decide +kernel

def frame720 : VcuFrame := { canSendBox := true, height := 720, width := 1280 }

def frame576 : VcuFrame := { canSendBox := true, height := 576, width := 720 }

-- The decoder goes on with frames of the same size.
theorem scaledByOwnSize_720 : ScaledByOwnSize (floatStatics 416 416) [frame720, frame720] := by
  refine (scaledByOwnSize_iff UInt32.toFloat32 addHalfToInt 416 416 [frame720, frame720]).2 ?_
  have hfit : frame720.OffsetsFit UInt32.toFloat32 addHalfToInt 416 416 :=
    ⟨by decide, 234, 416, by decide +kernel, by decide +kernel, by decide, by decide⟩
  have hone : ∀ g ∈ sentFrames [frame720, frame720], g = frame720 := by decide
  intro f hf
  rw [hone f hf]
  refine ⟨hfit, ?_⟩
  intro g hg
  rw [hone g hg]
  exact ⟨rfl, rfl⟩

-- After a change of the resolution the frames of 576 rows are read and scaled as if they had 720.
theorem resolution_change : ¬ ScaledByOwnSize (floatStatics 416 416) [frame720, frame576] ∧
    ∃ s, run (scaleFrame (floatStatics 416 416)) {} [frame720, frame576] = some s ∧
      s.calls.map (fun c => (c.1.height, c.2.realHeight, c.2.ySrcPos)) =
        [(720, 234, 921600), (576, 234, 921600)] := by
  have hown : floatStatics 416 416 576 720 = some ⟨333, 416, 414720, 518400, 138528, 173160⟩ := by
    decide +kernel
  have hrun : run (scaleFrame (floatStatics 416 416)) {} [frame720, frame576] = some {
      cache := some ⟨234, 416, 921600, 1152000, 97344, 121680⟩
      calls := [(frame720, ⟨234, 416, 921600, 1152000, 97344, 121680⟩),
        (frame576, ⟨234, 416, 921600, 1152000, 97344, 121680⟩)] } := by decide +kernel
  refine ⟨?_, _, hrun, rfl⟩
  rintro ⟨s, hs, hcalls⟩
  obtain rfl := Option.some.inj (hrun.symm.trans hs)
  have hframe := hcalls (frame576, ⟨234, 416, 921600, 1152000, 97344, 121680⟩) (by simp)
  exact absurd (hown.symm.trans hframe) (by decide)

end Floats

end Vcu
