import Mathlib.Logic.Function.Basic

namespace Vcu

def FPGA_CFG_IO_DATA_MAX_NUM : UInt32 := 8

def FPGA_CFG_INPUT_DATA_SIZE : UInt32 := 0x169000

-- A frame. `object` and `inData` name the allocations of the object and of its pixels.
structure FPGAInput where
  object : Nat
  inData : Nat
  inDataLen : UInt32
  srcH : UInt32
  srcW : UInt32
  picId : UInt32
  deriving DecidableEq

-- The configuration of the single batch, with the address the device memory is mapped to.
structure FpgaPara where
  inputOffset : UInt32
  outputOffset : UInt32
  outputSize : UInt32
  mappedMemAddr : UInt64
  deriving DecidableEq

-- Where the thread that calls FPGAControl::input stands.
inductive InputPc where
  | idle
  | acquire (input : FPGAInput)
  | push (input : FPGAInput)
  | write (input : FPGAInput)
  | release
  | increment
  deriving DecidableEq

-- Where output_thread stands. `undefined` follows a pop from an empty queue.
inductive OutputPc where
  | loop
  | acquire
  | poll (readCount : Nat)
  | pop
  | release (outData : UInt64) (input : FPGAInput)
  | call (outData : UInt64) (input : FPGAInput)
  | calling (outData : UInt64) (input : FPGAInput)
  | delete (input : FPGAInput)
  | increment
  | returned
  | exited
  | undefined
  deriving DecidableEq

-- FPGAControl with its two threads, and the device. The device has taken the frames in `writes`,
-- stored `stored` results and counted `counted` of them. `slots` says which result lies in which
-- slot. `submitted` and `calls` are histories of the queue and of the callback.
structure Fpga where
  para : FpgaPara
  startIndex : UInt32
  semInput : Nat := 0
  sem_input : Nat := 0
  queInput : List FPGAInput := []
  inputIndex : UInt32 := 0
  outputIndex : UInt32 := 0
  isStop : Bool := false
  inputPc : InputPc := .idle
  outputPc : OutputPc := .loop
  regStart : UInt32
  writes : List (UInt64 × FPGAInput) := []
  stored : Nat := 0
  counted : Nat := 0
  slots : Nat → Option Nat := fun _ => none
  submitted : List FPGAInput := []
  calls : List (FPGAInput × UInt64) := []

namespace Fpga

-- The counter register of the device.
def reg (s : Fpga) : UInt32 := s.regStart + UInt32.ofNat s.counted

-- initIndex reads the register once, while the device is idle.
def initIndex (para : FpgaPara) (regStart : UInt32) : Fpga :=
  { para := para, regStart := regStart, startIndex := regStart, semInput := 2 }

-- The offset that input() writes the next frame to.
def inputAddress (s : Fpga) : UInt64 :=
  s.para.inputOffset.toUInt64 +
    (FPGA_CFG_INPUT_DATA_SIZE *
      ((s.inputIndex + s.startIndex) % FPGA_CFG_IO_DATA_MAX_NUM)).toUInt64

-- The address that output_thread hands to the callback.
def outputAddress (s : Fpga) : UInt64 :=
  s.para.mappedMemAddr + (s.para.outputOffset.toUInt64 +
    (s.para.outputSize * ((s.outputIndex + s.startIndex) % FPGA_CFG_IO_DATA_MAX_NUM)).toUInt64)

def inputStep (s : Fpga) : Option Fpga :=
  match s.inputPc with
  | .idle => none
  | .acquire input =>
      if s.semInput = 0 then none
      else some { s with semInput := s.semInput - 1, inputPc := .push input }
  | .push input =>
      some { s with
        queInput := s.queInput ++ [input]
        submitted := s.submitted ++ [input]
        inputPc := .write input }
  | .write input =>
      some { s with writes := s.writes ++ [(s.inputAddress, input)], inputPc := .release }
  | .release => some { s with sem_input := s.sem_input + 1, inputPc := .increment }
  | .increment => some { s with inputIndex := s.inputIndex + 1, inputPc := .idle }

def outputStep (s : Fpga) : Option Fpga :=
  match s.outputPc with
  | .loop => some { s with outputPc := if s.isStop then .returned else .acquire }
  | .acquire =>
      if s.sem_input = 0 then none
      else some { s with sem_input := s.sem_input - 1, outputPc := .poll 0 }
  | .poll readCount =>
      if s.isStop then some { s with outputPc := .returned }
      else if readCount + 1 = 100 then some { s with outputPc := .exited }
      else if s.reg - s.startIndex - s.outputIndex > 0 then some { s with outputPc := .pop }
      else some { s with outputPc := .poll (readCount + 1) }
  | .pop =>
      match s.queInput with
      | [] => some { s with outputPc := .undefined }
      | input :: queInput =>
          some { s with queInput := queInput, outputPc := .release s.outputAddress input }
  | .release outData input =>
      some { s with semInput := s.semInput + 1, outputPc := .call outData input }
  | .call outData input =>
      some { s with calls := s.calls ++ [(input, outData)], outputPc := .calling outData input }
  | .calling _ input => some { s with outputPc := .delete input }
  | .delete _ => some { s with outputPc := .increment }
  | .increment => some { s with outputIndex := s.outputIndex + 1, outputPc := .loop }
  | .returned => none
  | .exited => none
  | .undefined => none

-- The slot of result number `k`.
def resultSlot (s : Fpga) (k : Nat) : Nat := (s.regStart.toNat + k) % 8

-- The device works through the frames in order. It stores a result, later it counts it.
def store (s : Fpga) : Option Fpga :=
  if s.stored < s.writes.length then
    some { s with
      slots := Function.update s.slots (s.resultSlot s.stored) (some s.stored)
      stored := s.stored + 1 }
  else none

def count (s : Fpga) : Option Fpga :=
  if s.counted < s.stored then some { s with counted := s.counted + 1 } else none

end Fpga

inductive FpgaEvent where
  | input (input : FPGAInput)
  | inputStep
  | outputStep
  | store
  | count
  | stop

def Fpga.step (s : Fpga) : FpgaEvent → Option Fpga
  | .input input => if s.inputPc = .idle then some { s with inputPc := .acquire input } else none
  | .inputStep => s.inputStep
  | .outputStep => s.outputStep
  | .store => s.store
  | .count => s.count
  | .stop => some { s with isStop := true }

end Vcu
