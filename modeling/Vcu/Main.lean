import Vcu.Fpga.Control
import Vcu.Rtp.Parser

namespace Vcu

-- The decoder behind VCUControl, seen from its input. `pushed` are the pushes since the program
-- started or since the last restart, `sessions` those between the restarts before.
structure VcuControl where
  sessions : List (List (List UInt8)) := []
  pushed : List (List UInt8) := []
  deriving DecidableEq

def VcuControl.restart (v : VcuControl) : VcuControl :=
  { sessions := v.sessions ++ [v.pushed], pushed := [] }

def VcuControl.pushData (v : VcuControl) (data : List UInt8) : VcuControl :=
  { v with pushed := v.pushed ++ [data] }

-- The globals of main.cpp that its callbacks share. `allocated` counts the frames made so far, and
-- the two histories hold the allocations given back.
structure Globals where
  codecType : CodecType
  detectW : UInt32 := 0
  detectH : UInt32 := 0
  vcu : VcuControl := {}
  picQueue : List FPGAInput := []
  picCount : UInt32 := 0
  queTimestamp : List UInt32 := []
  isfirst : Bool := true
  allocated : Nat := 0
  freedData : List Nat := []
  freedObjects : List Nat := []
  deriving DecidableEq

namespace Globals

def pushData (g : Globals) (data : List UInt8) : Globals := { g with vcu := g.vcu.pushData data }

-- The second half of rtp_callback.
def pushTimestamp (g : Globals) (mark : Bool) (time : UInt32) : Globals :=
  if mark then
    if !g.isfirst || g.codecType == .H265 then { g with queTimestamp := g.queTimestamp ++ [time] }
    else { g with isfirst := false }
  else g

-- The timestamp is set whenever the mark is.
def rtpCallback (g : Globals) (c : Callback) : Globals :=
  (g.pushData c.pdata).pushTimestamp c.mark (c.timestamp.getD 0)

-- The first locked section of vcu_callback, with its assertion.
def popTimestamp (g : Globals) : Except Fault (UInt32 × Globals) :=
  match g.queTimestamp with
  | [] => .error (.checkFailed "false")
  | time :: rest => .ok (time, { g with queTimestamp := rest })

def free (g : Globals) (frames : List FPGAInput) : Globals :=
  { g with
    freedData := g.freedData ++ frames.map FPGAInput.inData
    freedObjects := g.freedObjects ++ frames.map FPGAInput.object }

def newFrame (g : Globals) (time height width : UInt32) : FPGAInput where
  object := g.allocated
  inData := g.allocated
  inDataLen := g.detectW * g.detectH * 4
  srcH := height
  srcW := width
  picId := time

-- The second locked section of vcu_callback. A full queue loses its oldest frame.
def enqueue (g : Globals) (time height width : UInt32) : Globals :=
  let input := g.newFrame time height width
  let g := { g with allocated := g.allocated + 1 }
  let g := if g.picQueue.length > 1 then
      { g.free (g.picQueue.take 1) with picQueue := g.picQueue.drop 1 }
    else g
  { g with picQueue := g.picQueue ++ [input] }

-- The locked section of input_thread_fromvcu.
def takePic (g : Globals) : Option (FPGAInput × Globals) :=
  match g.picQueue with
  | [] => none
  | input :: rest => some (input, { g with picQueue := rest })

-- The locked section of clear().
def clearPics (g : Globals) : Globals := { g.free g.picQueue with picQueue := [] }

def clearTimestamps (g : Globals) : Globals :=
  { g with picCount := 0, isfirst := true, queTimestamp := [] }

-- clear() restarts the decoder first.
def restartVcu (g : Globals) : Globals := { g with vcu := g.vcu.restart }

def clear (g : Globals) : Globals := g.restartVcu.clearPics.clearTimestamps

end Globals

end Vcu
