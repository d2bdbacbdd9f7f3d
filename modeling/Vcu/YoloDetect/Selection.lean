import Vcu.YoloDetect.Diou
import Vcu.YoloDetect.Letterbox

namespace Vcu

structure NetDetect.BoxInfo2 (F : Type) where
  left : Int
  top : Int
  right : Int
  bottom : Int
  classNo : Int
  score : F

structure DetectionWithClass (F : Type) where
  det : Detection F
  bestClass : Int

section Selection

variable {F : Type} [LT F] [DecidableLT F]

-- The loop over the classes of a detection. No class is -1.
def bestClass (thresh : F) (d : Detection F) : Int × F :=
  Counting.loop d.classes (fun j best => if d.prob j > best.2 then ((j : Int), d.prob j) else best) (-1, thresh)

def withBestClass (thresh : F) (d : Detection F) : Option (DetectionWithClass F) :=
  let best := (bestClass thresh d).1
  if best ≥ 0 then some { det := d, bestClass := best } else none

-- `dets_num` is the length of the array.
def getActualDetections (dets : List (Detection F)) (thresh : F) : List (DetectionWithClass F) :=
  dets.filterMap (withBestClass thresh)

end Selection

section Pipeline

variable {F : Type} [Zero F] [One F] [Add F] [Sub F] [Mul F] [Div F] [OfNat F 2] [IntCast F] [LT F]
  [DecidableLT F] [BEq F]

variable (qsort : Qsort (Detection F)) (pow : F → F → F) (toInt : F → Int) (net : NetDetect F)
  (inputData : Int → F)

-- The passes over the layers and the correction of the detections that they count.
def fillNetworkBoxes (srcW srcH : Int) (thresh : F) (dets : List (Detection F)) :
    Option (List (Detection F)) :=
  let filled := fillLayers net inputData thresh net.vecLayer 0 { dets := dets }
  (correctYoloBoxes net.fpgaNetw net.fpgaNeth (filled.dets.take filled.count) srcW srcH).map
    (· ++ filled.dets.drop filled.count)

def suppress (num : Int) (dets : List (Detection F)) : Option (List (Detection F)) :=
  if net.nmsType = .default then doNmsSort qsort net.classNum dets num net.iou
  else diounmsSort qsort pow net.classNum dets num net.iou net.nmsType net.betaNms

-- The body of the last loop. The casts to int drop the fraction.
def boxInfo (srcW srcH : Int) (selected : DetectionWithClass F) : NetDetect.BoxInfo2 F :=
  let b := selected.det.bbox
  let left := toInt ((b.x - b.w / 2) * srcW)
  let right := toInt ((b.x + b.w / 2) * srcW)
  let top := toInt ((b.y - b.h / 2) * srcH)
  let bot := toInt ((b.y + b.h / 2) * srcH)
  { classNo := selected.bestClass
    score := selected.det.prob selected.bestClass.toNat
    left := if left < 0 then 0 else left
    right := if right > srcW - 1 then srcW - 1 else right
    top := if top < 0 then 0 else top
    bottom := if bot > srcH - 1 then srcH - 1 else bot }

-- Entry `i` of the result is written to boxArr[i], whether or not the array has that entry. `heap` is
-- what the new detections hold at first.
def getDetectBoxInfo (heap : Nat → Detection F) (srcW srcH : Int) : Option (List (NetDetect.BoxInfo2 F)) := do
  let dets ← makeNetworkBoxes net inputData net.thresh heap
  let num : Int := dets.length
  let dets ← fillNetworkBoxes net inputData srcW srcH net.thresh dets
  let dets ← suppress qsort pow net num dets
  some ((getActualDetections dets net.thresh).map (boxInfo toInt srcW srcH))

end Pipeline

end Vcu
