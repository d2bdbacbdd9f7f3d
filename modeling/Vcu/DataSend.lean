namespace Vcu

-- Where DataSend::receive_thread stands. It clears the flags, waits for a client, runs the restart
-- callback and reads requests until the client leaves.
inductive ReceivePc where
  | clearBox
  | clearCon
  | waitBeConnected
  | connected
  | read
  deriving DecidableEq

structure DataSend where
  canSendBox : Bool := false
  canSendCon : Bool := false
  isSend : Bool := false
  notFirst : Bool := false
  pc : ReceivePc := .clearBox
  deriving DecidableEq

namespace PacketType

def CON : UInt8 := 0x01

def BOX : UInt8 := 0x04

end PacketType

-- The sizes of the packed structs PacketHead and PacketEnd.
def PACKET_HEAD_LEN : Nat := 18

def PACKET_END_LEN : Nat := 9

-- `advance` is a step the thread takes by itself. `read` is a return of recv with these bytes, with
-- none when the client has gone.
inductive ReceiveEvent where
  | advance
  | connect
  | read (bytes : List UInt8)

namespace DataSend

-- The answer to STREAMPARAM leaves the state as it is.
def request (d : DataSend) (frameType : UInt8) : DataSend :=
  if frameType = PacketType.CON then { d with canSendCon := true }
  else if frameType = PacketType.BOX then
    { d with canSendCon := true, canSendBox := true, isSend := true }
  else d

-- The flag in the result says that the step runs the callback pf.
def receiveStep (d : DataSend) : ReceiveEvent → Option (DataSend × Bool)
  | .advance =>
      match d.pc with
      | .clearBox => some ({ d with canSendBox := false, pc := .clearCon }, false)
      | .clearCon => some ({ d with canSendCon := false, pc := .waitBeConnected }, false)
      | .connected => some ({ d with notFirst := true, pc := .read }, d.notFirst)
      | .waitBeConnected => none
      | .read => none
  | .connect => if d.pc = .waitBeConnected then some ({ d with pc := .connected }, false) else none
  | .read bytes =>
      if d.pc ≠ .read then none
      else if bytes.length = PACKET_HEAD_LEN + PACKET_END_LEN then
        some (d.request (bytes.getD 1 0), false)
      else if bytes.length = 0 then some ({ d with pc := .clearBox }, false)
      else some (d, false)

end DataSend

end Vcu
