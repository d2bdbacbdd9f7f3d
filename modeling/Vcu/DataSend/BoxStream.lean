import Vcu.DataSend.Packet
import Vcu.Lib.Machine

namespace Vcu

open Machine

-- Where a call of sendBox stands. The loop is about to send `packet`. `last` is a history, the
-- connection that got the packet before, and there is none at the first packet of a picture.
inductive SendPc where
  | idle
  | single (packet : List UInt8)
  | loop (last : Option Nat) (packet : List UInt8) (rest : List (List UInt8))
  deriving DecidableEq

def loopPc (last : Option Nat) : List (List UInt8) → SendPc
  | [] => .idle
  | packet :: rest => .loop last packet rest

-- A write of `packet` to a connection, which has transferred the first `count` bytes.
structure Write where
  connection : Nat
  packet : List UInt8
  count : Nat
  deriving DecidableEq

-- The receive thread and a thread that calls sendBox. The socket is `connection`, the number of
-- the client that was accepted last. `writes` is a history.
structure BoxStream where
  data : DataSend := {}
  connection : Nat := 0
  pc : SendPc := .idle
  writes : List Write := []

-- `write` is a send with the result of write(), `leave` the end of a loop that finds the flag
-- cleared.
inductive BoxEvent where
  | sendBox (p : Picture)
  | write (ret : Option Nat)
  | leave
  | receive (e : ReceiveEvent)

namespace BoxStream

def call (s : BoxStream) (p : Picture) : Option BoxStream :=
  if s.pc ≠ .idle then none
  else if !s.data.canSendBox then some s
  else if p.boxes = [] then some { s with pc := .single p.emptyPacket }
  else some { s with pc := loopPc none p.packets }

-- SocketTcp::send is true when write() has taken the whole packet. A failed write takes nothing.
def send (s : BoxStream) (packet : List UInt8) (ret : Option Nat) (next : SendPc) : Option BoxStream :=
  let count := ret.getD 0
  if packet.length < count then none
  else
    some { s with
      pc := if ret = some packet.length then next else .idle
      writes := s.writes ++ [⟨s.connection, packet, count⟩] }

def write (s : BoxStream) (ret : Option Nat) : Option BoxStream :=
  match s.pc with
  | .idle => none
  | .single packet => s.send packet ret .idle
  | .loop _ packet rest =>
      if s.data.canSendBox then s.send packet ret (loopPc (some s.connection) rest) else none

def leave (s : BoxStream) : Option BoxStream :=
  match s.pc with
  | .idle => none
  | .single _ => none
  | .loop _ _ _ => if s.data.canSendBox then none else some { s with pc := .idle }

def receive (s : BoxStream) (e : ReceiveEvent) : Option BoxStream :=
  (s.data.receiveStep e).map fun (data, _) =>
    { s with
      data := data
      connection := match e with
        | .connect => s.connection + 1
        | .advance => s.connection
        | .read _ => s.connection }

def step (s : BoxStream) : BoxEvent → Option BoxStream
  | .sendBox p => s.call p
  | .write ret => s.write ret
  | .leave => s.leave
  | .receive e => s.receive e

end BoxStream

section Spec

variable {s u : BoxStream} {ret : Option Nat}

theorem BoxStream.call_spec {p : Picture} (h : s.call p = some u) :
    u.data = s.data ∧ u.connection = s.connection ∧ u.writes = s.writes ∧
      (u.pc = .idle ∨ (∃ packet, u.pc = .single packet ∧ p.emitted = [packet]) ∨
        u.pc = loopPc none p.emitted) := by
  simp only [BoxStream.call] at h
  split at h
  · cases h
  rename_i hpc
  have hpc : s.pc = .idle := not_not.mp hpc
  split at h
  · obtain rfl := Option.some.inj h
    exact ⟨rfl, rfl, rfl, .inl hpc⟩
  split at h
  · rename_i hempty
    obtain rfl := Option.some.inj h
    exact ⟨rfl, rfl, rfl, .inr (.inl ⟨_, rfl, if_pos hempty⟩)⟩
  · rename_i hne
    obtain rfl := Option.some.inj h
    exact ⟨rfl, rfl, rfl, .inr (.inr (by rw [Picture.emitted, if_neg hne]))⟩

theorem BoxStream.send_spec {packet : List UInt8} {next : SendPc} (h : s.send packet ret next = some u) :
    u.data = s.data ∧ u.connection = s.connection ∧
      (∃ count ≤ packet.length, u.writes = s.writes ++ [⟨s.connection, packet, count⟩]) ∧
      (u.pc = next ∨ u.pc = .idle) := by
  simp only [BoxStream.send] at h
  split at h
  · cases h
  rename_i hle
  obtain rfl := Option.some.inj h
  refine ⟨rfl, rfl, ⟨_, Nat.le_of_not_lt hle, rfl⟩, ?_⟩
  by_cases hret : ret = some packet.length
  · exact .inl (if_pos hret)
  · exact .inr (if_neg hret)

-- A write sends what the call is about to send, and the loop goes on or the call ends.
theorem BoxStream.write_spec (h : s.write ret = some u) :
    ∃ packet, u.data = s.data ∧ u.connection = s.connection ∧
      (∃ count ≤ packet.length, u.writes = s.writes ++ [⟨s.connection, packet, count⟩]) ∧
      (s.pc = .single packet ∧ u.pc = .idle ∨
        ∃ last rest, s.pc = .loop last packet rest ∧ s.data.canSendBox = true ∧
          (u.pc = loopPc (some s.connection) rest ∨ u.pc = .idle)) := by
  simp only [BoxStream.write] at h
  split at h
  · cases h
  · rename_i packet hpc
    obtain ⟨hd, hc, hw, hnext⟩ := BoxStream.send_spec h
    exact ⟨packet, hd, hc, hw, .inl ⟨hpc, hnext.elim id id⟩⟩
  · rename_i last packet rest hpc
    split at h
    · rename_i hflag
      obtain ⟨hd, hc, hw, hnext⟩ := BoxStream.send_spec h
      exact ⟨packet, hd, hc, hw, .inr ⟨last, rest, hpc, hflag, hnext⟩⟩
    · cases h

theorem BoxStream.leave_spec (h : s.leave = some u) : u = { s with pc := .idle } := by
  simp only [BoxStream.leave] at h
  split at h
  · cases h
  · cases h
  · split at h
    · cases h
    · exact (Option.some.inj h).symm

theorem BoxStream.receive_spec {e : ReceiveEvent} (h : s.receive e = some u) :
    (∃ restart, s.data.receiveStep e = some (u.data, restart)) ∧ u.pc = s.pc ∧ u.writes = s.writes ∧
      (u.connection = s.connection ∨ e = .connect) := by
  obtain ⟨r, hr, rfl⟩ := Option.map_eq_some_iff.mp h
  refine ⟨⟨r.2, hr⟩, rfl, rfl, ?_⟩
  cases e with
  | connect => exact .inr rfl
  | advance => exact .inl rfl
  | read bytes => exact .inl rfl

-- Whatever a step does to the history, it adds at most one write.
theorem BoxStream.step_writes {e : BoxEvent} (h : s.step e = some u) :
    u.writes = s.writes ∨ ∃ packet, ∃ count ≤ packet.length,
      u.writes = s.writes ++ [⟨s.connection, packet, count⟩] ∧ ∃ ret, e = .write ret := by
  cases e with
  | sendBox p => exact .inl (BoxStream.call_spec h).2.2.1
  | write ret =>
      obtain ⟨packet, -, -, ⟨count, hle, hw⟩, -⟩ := BoxStream.write_spec h
      exact .inr ⟨packet, count, hle, hw, ret, rfl⟩
  | leave =>
      obtain rfl := BoxStream.leave_spec h
      exact .inl rfl
  | receive e => exact .inl (BoxStream.receive_spec h).2.2.1

theorem BoxStream.step_connection {e : BoxEvent} (hstay : ∀ r, e ≠ .receive r) (h : s.step e = some u) :
    u.connection = s.connection := by
  cases e with
  | sendBox p => exact (BoxStream.call_spec h).2.1
  | write ret =>
      obtain ⟨packet, -, hc, -⟩ := BoxStream.write_spec h
      exact hc
  | leave =>
      obtain rfl := BoxStream.leave_spec h
      rfl
  | receive r => exact absurd rfl (hstay r)

end Spec

end Vcu
