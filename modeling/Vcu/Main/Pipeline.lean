import Vcu.Fpga.Flow
import Vcu.Main

namespace Vcu

-- Where clear() stands.
inductive ClearPc where
  | idle
  | pics
  | timestamps
  deriving DecidableEq

-- The threads that hand frames on, with what they share. `picture` holds the timestamp and the
-- size that vcu_callback keeps between its locked sections, and `decoded` all frames it has made.
structure Pipeline where
  globals : Globals
  fpga : Fpga
  canSendBox : Bool := false
  picture : Option (UInt32 × UInt32 × UInt32) := none
  clearPc : ClearPc := .idle
  decoded : List FPGAInput := []

-- fpga_callback ends with delete[] in_data, and output_thread deletes the object after it.
def Globals.deleteData (g : Globals) (input : FPGAInput) : Globals :=
  { g with freedData := g.freedData ++ [input.inData] }

def Globals.deleteObject (g : Globals) (input : FPGAInput) : Globals :=
  { g with freedObjects := g.freedObjects ++ [input.object] }

-- What the step of output_thread from this position frees.
def Globals.afterOutput (g : Globals) : OutputPc → Globals
  | .calling _ input => g.deleteData input
  | .delete input => g.deleteObject input
  | _ => g

-- `register` lets the device count whatever it likes.
inductive PipelineEvent where
  | sendBox (can : Bool)
  | pushData (data : List UInt8)
  | pushTimestamp (mark : Bool) (time : UInt32)
  | picture (height width : UInt32)
  | enqueue
  | clear
  | take
  | inputStep
  | outputStep
  | register (counted : Nat)
  | stop

namespace Pipeline

-- vcu_callback from its start to the end of its first locked section. A failed assertion ends the
-- process.
def startPicture (s : Pipeline) (height width : UInt32) : Option Pipeline :=
  if s.picture.isSome then none
  else if !s.canSendBox then some s
  else
    match s.globals.popTimestamp with
    | .ok (time, globals) => some { s with globals := globals, picture := some (time, height, width) }
    | .error _ => none

def enqueue (s : Pipeline) : Option Pipeline :=
  match s.picture with
  | none => none
  | some (time, height, width) =>
      some { s with
        globals := s.globals.enqueue time height width
        picture := none
        decoded := s.decoded ++ [s.globals.newFrame time height width] }

-- clear() section by section.
def clearStep (s : Pipeline) : Pipeline :=
  match s.clearPc with
  | .idle => { s with globals := s.globals.restartVcu, clearPc := .pics }
  | .pics => { s with globals := s.globals.clearPics, clearPc := .timestamps }
  | .timestamps => { s with globals := s.globals.clearTimestamps, clearPc := .idle }

-- input_thread_fromvcu takes a frame and calls FPGAControl::input with it.
def take (s : Pipeline) : Option Pipeline := do
  let (input, globals) ← s.globals.takePic
  let fpga ← s.fpga.step (.input input)
  return { s with globals := globals, fpga := fpga }

def outputStep (s : Pipeline) : Option Pipeline := do
  let fpga ← s.fpga.outputStep
  return { s with globals := s.globals.afterOutput s.fpga.outputPc, fpga := fpga }

def step (s : Pipeline) : PipelineEvent → Option Pipeline
  | .sendBox can => some { s with canSendBox := can }
  | .pushData data => some { s with globals := s.globals.pushData data }
  | .pushTimestamp mark time => some { s with globals := s.globals.pushTimestamp mark time }
  | .picture height width => s.startPicture height width
  | .enqueue => s.enqueue
  | .clear => some s.clearStep
  | .take => s.take
  | .inputStep => s.fpga.inputStep.map fun fpga => { s with fpga := fpga }
  | .outputStep => s.outputStep
  | .register counted => some { s with fpga := { s.fpga with counted := counted } }
  | .stop => some { s with fpga := { s.fpga with isStop := true } }

def init (type : CodecType) (detectW detectH : UInt32) (para : FpgaPara) (regStart : UInt32) :
    Pipeline where
  globals := { codecType := type, detectW := detectW, detectH := detectH }
  fpga := Fpga.initIndex para regStart

end Pipeline

-- Frames in the hand of a thread. The pixels of a frame are gone before its object.
def InputPc.hand : InputPc → List FPGAInput
  | .acquire input => [input]
  | .push input => [input]
  | _ => []

def OutputPc.dataHand : OutputPc → List FPGAInput
  | .release _ input => [input]
  | .call _ input => [input]
  | .calling _ input => [input]
  | _ => []

def OutputPc.emptied : OutputPc → List FPGAInput
  | .delete input => [input]
  | _ => []

def OutputPc.hand (pc : OutputPc) : List FPGAInput := pc.dataHand ++ pc.emptied

inductive Place where
  | picQueue
  | inputThread
  | fpgaQueue
  | outputThread
  | freed
  deriving DecidableEq

def Place.all : List Place := [.picQueue, .inputThread, .fpgaQueue, .outputThread, .freed]

namespace Pipeline

-- The frames at each place, where nothing is left of a frame that is freed.
def frames (s : Pipeline) : Place → List FPGAInput
  | .picQueue => s.globals.picQueue
  | .inputThread => s.fpga.inputPc.hand
  | .fpgaQueue => s.fpga.queInput
  | .outputThread => s.fpga.outputPc.hand
  | .freed => []

def objects (s : Pipeline) : Place → List Nat
  | .freed => s.globals.freedObjects
  | place => (s.frames place).map FPGAInput.object

def data (s : Pipeline) : Place → List Nat
  | .freed => s.globals.freedData
  | .outputThread => s.fpga.outputPc.dataHand.map FPGAInput.inData
  | place => (s.frames place).map FPGAInput.inData

end Pipeline

theorem Place.mem_all (place : Place) : place ∈ Place.all := by
  cases place <;> decide

-- Inside FPGAControl::input the frame in hand goes into the queue at most.
theorem inputStep_moves {a b : Fpga} (hu : a.inputStep = some b) :
    b.outputPc = a.outputPc ∧ b.submitted ++ b.inputPc.hand = a.submitted ++ a.inputPc.hand ∧
      (b.queInput ++ b.inputPc.hand) = (a.queInput ++ a.inputPc.hand) := by
  cases inputStep_rule hu with
  | acquire input before permit =>
      rw [before]
      exact ⟨rfl, rfl, rfl⟩
  | push input before =>
      rw [before]
      exact ⟨rfl, List.append_nil _, List.append_nil _⟩
  | write input before =>
      rw [before]
      exact ⟨rfl, rfl, rfl⟩
  | release before =>
      rw [before]
      exact ⟨rfl, rfl, rfl⟩
  | increment before =>
      rw [before]
      exact ⟨rfl, rfl, rfl⟩

-- What output_thread does with the frames in one step. It takes one from the queue, frees the
-- pixels or frees the object.
inductive OutputMove (a b : Fpga) : Prop where
  | keep (queue : b.queInput = a.queInput) (data : b.outputPc.dataHand = a.outputPc.dataHand)
      (emptied : b.outputPc.emptied = a.outputPc.emptied)
      (free : ∀ g : Globals, g.afterOutput a.outputPc = g)
  | pop (input : FPGAInput) (queue : a.queInput = input :: b.queInput)
      (before : a.outputPc = .pop) (after : b.outputPc = .release a.outputAddress input)
  | deleteData (outData : UInt64) (input : FPGAInput) (queue : b.queInput = a.queInput)
      (before : a.outputPc = .calling outData input) (after : b.outputPc = .delete input)
  | deleteObject (input : FPGAInput) (queue : b.queInput = a.queInput)
      (before : a.outputPc = .delete input) (after : b.outputPc = .increment)

theorem outputStep_moves {a b : Fpga} (hf : Flow a) (hq : Fifo a) (hu : a.outputStep = some b) :
    b.inputPc = a.inputPc ∧ b.submitted = a.submitted ∧ OutputMove a b := by
  cases outputStep_rule hu with
  | loop pc before after =>
      rcases after with rfl | rfl
      · exact ⟨rfl, rfl, .keep rfl (by rw [before]; rfl) (by rw [before]; rfl)
          (by rw [before]; exact fun _ => rfl)⟩
      · exact ⟨rfl, rfl, .keep rfl (by rw [before]; rfl) (by rw [before]; rfl)
          (by rw [before]; exact fun _ => rfl)⟩
  | acquire before post =>
      exact ⟨rfl, rfl, .keep rfl (by rw [before]; rfl) (by rw [before]; rfl)
        (by rw [before]; exact fun _ => rfl)⟩
  | wait n pc before after =>
      have hnone : pc.dataHand = [] ∧ pc.emptied = [] := by
        rcases after with rfl | rfl | rfl
        · exact ⟨rfl, rfl⟩
        · exact ⟨rfl, rfl⟩
        · exact ⟨rfl, rfl⟩
      exact ⟨rfl, rfl, .keep rfl (by rw [before]; exact hnone.1) (by rw [before]; exact hnone.2)
        (by rw [before]; exact fun _ => rfl)⟩
  | ready n before counted =>
      exact ⟨rfl, rfl, .keep rfl (by rw [before]; rfl) (by rw [before]; rfl)
        (by rw [before]; exact fun _ => rfl)⟩
  | underflow before empty =>
      obtain ⟨input, rest, hqueue, -⟩ := hq.pop_nonempty hf before
      rw [empty] at hqueue
      cases hqueue
  | pop input rest before queue => exact ⟨rfl, rfl, .pop input queue before rfl⟩
  | release outData input before =>
      exact ⟨rfl, rfl, .keep rfl (by rw [before]; rfl) (by rw [before]; rfl)
        (by rw [before]; exact fun _ => rfl)⟩
  | call outData input before =>
      exact ⟨rfl, rfl, .keep rfl (by rw [before]; rfl) (by rw [before]; rfl)
        (by rw [before]; exact fun _ => rfl)⟩
  | calling outData input before => exact ⟨rfl, rfl, .deleteData outData input rfl before rfl⟩
  | delete input before => exact ⟨rfl, rfl, .deleteObject input rfl before rfl⟩
  | increment before =>
      exact ⟨rfl, rfl, .keep rfl (by rw [before]; rfl) (by rw [before]; rfl)
        (by rw [before]; exact fun _ => rfl)⟩

theorem picQueue_afterOutput (g : Globals) (pc : OutputPc) :
    (g.afterOutput pc).picQueue = g.picQueue ∧ (g.afterOutput pc).allocated = g.allocated := by
  cases pc <;> exact ⟨rfl, rfl⟩

end Vcu
