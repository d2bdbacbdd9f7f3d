import Vcu.Lib.Counting
import Vcu.YoloDetect

namespace Vcu

open Counting

inductive NmsKind where
  | default
  | greedy
  | diou
  | corners
  deriving DecidableEq

structure YoloLayer where
  netH : Int
  netW : Int
  netC : Int
  outputSize : Int
  gridBoxNum : Int
  mask : Nat → Int

-- `anchorArr` and `boxArr` are allocated by the constructor, `boxArr` for `boxLen` elements.
structure NetDetect (F : Type) where
  maxBoxNum : Int
  thresh : F
  iou : F
  classNum : Int
  fpgaNetw : Int
  fpgaNeth : Int
  boxLen : Nat
  anchorArr : Int → Int
  nmsType : NmsKind
  betaNms : F
  vecLayer : List YoloLayer

-- Signed overflow has no defined result, so the ints of the index expressions are unbounded here.
def getIndex2 (n loc fullChannel oneChannel index : Int) : Int :=
  loc * fullChannel + n * oneChannel + index

section Passes

variable {F : Type} [One F] [Add F] [Sub F] [Mul F] [Div F] [IntCast F] [Zero F] [LT F] [DecidableLT F]

-- The FPGA output as an array of floats. `pData` is an offset in it.
variable (net : NetDetect F) (inputData : Int → F) (thresh : F)

def getYoloBox2 (x : Int → F) (n index col row lw lh : Int) : Box F :=
  let wtemp := x (index + 2)
  let htemp := x (index + 3)
  { x := (col + x index) / lw
    y := (row + x (index + 1)) / lh
    w := wtemp / (1 - wtemp) * net.anchorArr (2 * n) / net.fpgaNetw
    h := htemp / (1 - htemp) * net.anchorArr (2 * n + 1) / net.fpgaNeth }

def countLayer (layer : YoloLayer) (pData : Int) (boxNum : Nat) : Nat :=
  loop layer.gridBoxNum (fun n => loop (layer.netW * layer.netH) fun i boxNum =>
    if inputData (pData + getIndex2 n i layer.netC 85 4) > thresh then boxNum + 1 else boxNum) boxNum

def countLayers : List YoloLayer → Int → Nat → Nat
  | [], _, boxNum => boxNum
  | layer :: vecLayer, pData, boxNum =>
      countLayers vecLayer (pData + layer.outputSize >>> (2 : Nat)) (countLayer inputData thresh layer pData boxNum)

-- The number that makeNetworkBoxes returns in num.
def boxNum : Int :=
  let boxNum := countLayers inputData thresh net.vecLayer 0 0
  if boxNum > net.maxBoxNum then net.maxBoxNum else boxNum

-- The new detections and their scores hold what was in memory. A negative size throws.
def makeNetworkBoxes (heap : Nat → Detection F) : Option (List (Detection F)) :=
  let num := boxNum net inputData thresh
  if num < 0 ∨ 0 < num ∧ net.classNum < 0 then none else some ((List.range num.toNat).map heap)

-- What fillNetworkBoxes makes of dets[count] at location `j` and anchor `n` of a layer.
def writeBox (layer : YoloLayer) (pData : Int) (j n : Nat) (det : Detection F) : Detection F :=
  let row := Int.tdiv j layer.netW
  let col := Int.tmod j layer.netH
  let objectness := inputData (pData + getIndex2 n j layer.netC 85 4)
  { det with
    bbox := getYoloBox2 net (fun index => inputData (pData + index)) (layer.mask n)
      (getIndex2 n j layer.netC 85 0) col row layer.netW layer.netH
    objectness := objectness
    classes := net.classNum
    prob := fun k =>
      if k < net.classNum then
        let prob := objectness * inputData (pData + getIndex2 n j layer.netC 85 (4 + 1 + k))
        if prob > thresh then prob else 0
      else det.prob k }

-- The indices written to are a history.
structure Filling (F : Type) where
  dets : List (Detection F)
  count : Nat := 0
  writes : List Nat := []

def fillLayer (layer : YoloLayer) (pData : Int) (s : Filling F) : Filling F :=
  loop (layer.netH * layer.netW) (fun j => loop layer.gridBoxNum fun n s =>
    if inputData (pData + getIndex2 n j layer.netC 85 4) > thresh ∧ s.count < net.maxBoxNum then
      { dets := s.dets.modify s.count (writeBox net inputData thresh layer pData j n)
        count := s.count + 1
        writes := s.writes ++ [s.count] }
    else s) s

def fillLayers : List YoloLayer → Int → Filling F → Filling F
  | [], _, s => s
  | layer :: vecLayer, pData, s =>
      fillLayers vecLayer (pData + layer.outputSize >>> (2 : Nat)) (fillLayer net inputData thresh layer pData s)

end Passes

end Vcu
