import Vcu.DataSend.BoxStream
import Vcu.DataSend.Receive
import Vcu.DataSend.RoundTrip

namespace Vcu

open Machine

-- The packets sent on a connection.
def BoxStream.packetsOn (s : BoxStream) (c : Nat) : List (List UInt8) :=
  (s.writes.filter fun w => w.connection = c).map (·.packet)

-- The packets come from pictures, from each of them the first packets.
def FromFirstPacket (packets : List (List UInt8)) : Prop :=
  ∃ parts : List (List (List UInt8)), packets = parts.flatten ∧
    ∀ part ∈ parts, part ≠ [] ∧ ∃ p : Picture, part <+: p.emitted

-- No client gets the rest of a picture that began with another client.
def BoxStream.OwnPictures (s : BoxStream) : Prop :=
  ∀ c, FromFirstPacket (s.packetsOn c) ∧
    ∀ packet ∈ (s.packetsOn c).head?, (PacketHead.ofBytes packet).curFrame = 1

-- A request for boxes is not handled while the loop has packets left of a picture whose last packet
-- went to an earlier connection.
def NoStaleRequest : List BoxEvent → BoxStream → BoxEvent → Prop := fun _ s e =>
  ∀ bytes, e = .receive (.read bytes) → bytes.length = PACKET_HEAD_LEN + PACKET_END_LEN →
    bytes.getD 1 0 = PacketType.BOX →
      ∀ last packet rest, s.pc = .loop (some last) packet rest → last = s.connection

section Packets

variable {packets part todo : List (List UInt8)} {packet : List UInt8} {p : Picture}

-- The packets of a picture that is not finished stand at the end.
def Unfinished (packets todo : List (List UInt8)) : Prop :=
  ∃ (before part : List (List UInt8)) (p : Picture), packets = before ++ part ∧
    FromFirstPacket before ∧ part ≠ [] ∧ p.emitted = part ++ todo

theorem fromFirstPacket_nil : FromFirstPacket [] := ⟨[], rfl, nofun⟩

theorem Unfinished.fromFirstPacket (h : Unfinished packets todo) : FromFirstPacket packets := by
  obtain ⟨before, part, p, rfl, ⟨parts, rfl, hparts⟩, hne, hp⟩ := h
  refine ⟨parts ++ [part], by simp, ?_⟩
  intro q hq
  rcases List.mem_append.mp hq with hq | hq
  · exact hparts q hq
  · rw [List.mem_singleton.mp hq]
    exact ⟨hne, p, hp ▸ List.prefix_append _ _⟩

theorem Unfinished.begin (h : FromFirstPacket packets) (hp : p.emitted = packet :: todo) :
    Unfinished (packets ++ [packet]) todo :=
  ⟨packets, [packet], p, rfl, h, List.cons_ne_nil _ _, hp⟩

theorem Unfinished.next (h : Unfinished packets (packet :: todo)) :
    Unfinished (packets ++ [packet]) todo := by
  obtain ⟨before, part, p, rfl, hbefore, -, hp⟩ := h
  refine ⟨before, part ++ [packet], p, by rw [List.append_assoc], hbefore, by simp, ?_⟩
  rw [hp, List.append_assoc, List.singleton_append]

theorem curFrame_first (h : p.emitted.head? = some packet) :
    (PacketHead.ofBytes packet).curFrame = 1 := by
  unfold Picture.emitted at h
  split at h
  · obtain rfl := Option.some.inj h
    rw [Picture.emptyPacket, List.append_assoc, ofBytes_append]
  · rename_i hne
    have hpos : 0 < p.len := Nat.mul_pos (List.length_pos_iff.mpr hne) (by decide)
    have hnum := (Picture.packetNum_spec hpos).1
    have hfirst : p.packets.head? = some (p.packet 0) := by
      rw [Picture.packets, List.head?_map, List.head?_range, if_neg (by omega)]
      rfl
    obtain rfl := Option.some.inj (hfirst.symm.trans h)
    rw [Picture.packet_eq hpos hnum, ofBytes_append]
    rfl

theorem FromFirstPacket.curFrame (h : FromFirstPacket packets) (hhead : packets.head? = some packet) :
    (PacketHead.ofBytes packet).curFrame = 1 := by
  obtain ⟨parts, rfl, hparts⟩ := h
  cases parts with
  | nil => cases hhead
  | cons part parts =>
      obtain ⟨hne, p, rest, hp⟩ := hparts part List.mem_cons_self
      obtain ⟨first, part, rfl⟩ := List.exists_cons_of_ne_nil hne
      obtain rfl := Option.some.inj hhead
      exact curFrame_first (p := p) (by rw [← hp]; rfl)

end Packets

section Run

variable {s u : BoxStream} {e : BoxEvent} {packet : List UInt8} {count c : Nat}

theorem packetsOn_concat (hw : u.writes = s.writes ++ [⟨s.connection, packet, count⟩]) (c : Nat) :
    u.packetsOn c = if s.connection = c then s.packetsOn c ++ [packet] else s.packetsOn c := by
  unfold BoxStream.packetsOn
  rw [hw, List.filter_append, List.map_append]
  by_cases hc : s.connection = c
  · simp only [hc, decide_true, List.filter_cons_of_pos, List.filter_nil, List.map_cons, List.map_nil,
      ite_true]
  · simp [hc]

-- What the call has still to send belongs to a picture, of which the earlier packets have been sent.
def BoxStream.Ready (s : BoxStream) : SendPc → Prop
  | .idle => True
  | .single packet => ∃ p : Picture, p.emitted = [packet]
  | .loop none packet rest => ∃ p : Picture, p.emitted = packet :: rest
  | .loop (some last) packet rest => Unfinished (s.packetsOn last) (packet :: rest)

-- The invariant of the two threads.
structure Streaming (s : BoxStream) : Prop where
  flag : s.data.FlagDown
  current : s.data.canSendBox = true →
    ∀ last packet rest, s.pc = .loop (some last) packet rest → last = s.connection
  ready : s.Ready s.pc
  pictures : ∀ c, FromFirstPacket (s.packetsOn c)

theorem Streaming.call {p : Picture} (hs : Streaming s) (h : s.call p = some u) : Streaming u := by
  obtain ⟨hd, hc, hw, hpc⟩ := BoxStream.call_spec h
  have hon : ∀ c, u.packetsOn c = s.packetsOn c := fun c => by
    rw [BoxStream.packetsOn, hw, BoxStream.packetsOn]
  refine ⟨by rw [hd]; exact hs.flag, ?_, ?_, fun c => by rw [hon]; exact hs.pictures c⟩
  · intro _ last packet rest hloop
    rcases hpc with hpc | ⟨packet, hpc, -⟩ | hpc
    · rw [hpc] at hloop
      cases hloop
    · rw [hpc] at hloop
      cases hloop
    · rw [hpc] at hloop
      cases hp : p.emitted <;> rw [hp] at hloop <;> cases hloop
  · rcases hpc with hpc | ⟨packet, hpc, hp⟩ | hpc
    · rw [hpc]
      trivial
    · rw [hpc]
      exact ⟨p, hp⟩
    · rw [hpc]
      cases hp : p.emitted with
      | nil => trivial
      | cons packet rest => exact ⟨p, hp⟩

-- Whichever packet is written, it begins a picture or goes behind the earlier ones.
theorem Streaming.unfinished {ret : Option Nat} (hs : Streaming s) (h : s.write ret = some u) :
    ∃ packet count rest, u.data = s.data ∧ u.connection = s.connection ∧
      u.writes = s.writes ++ [⟨s.connection, packet, count⟩] ∧
      Unfinished (s.packetsOn s.connection ++ [packet]) rest ∧
      (u.pc = loopPc (some s.connection) rest ∨ u.pc = .idle) := by
  obtain ⟨packet, hd, hc, ⟨count, -, hw⟩, hpc⟩ := BoxStream.write_spec h
  have hready := hs.ready
  rcases hpc with ⟨hpc, hnext⟩ | ⟨last, rest, hpc, hflag, hnext⟩
  · rw [hpc] at hready
    obtain ⟨p, hp⟩ := hready
    exact ⟨packet, count, [], hd, hc, hw, .begin (hs.pictures _) hp, .inr hnext⟩
  · refine ⟨packet, count, rest, hd, hc, hw, ?_, hnext⟩
    rw [hpc] at hready
    cases last with
    | none =>
        obtain ⟨p, hp⟩ := hready
        exact .begin (hs.pictures _) hp
    | some last =>
        obtain rfl := hs.current hflag last packet rest hpc
        exact hready.next

theorem Streaming.write {ret : Option Nat} (hs : Streaming s) (h : s.write ret = some u) :
    Streaming u := by
  obtain ⟨packet, count, rest, hd, hc, hw, hun, hpc⟩ := hs.unfinished h
  have hon := packetsOn_concat hw
  refine ⟨by rw [hd]; exact hs.flag, ?_, ?_, ?_⟩
  · intro _ last packet' rest' hloop
    rcases hpc with hpc | hpc
    · rw [hpc] at hloop
      cases rest with
      | nil => cases hloop
      | cons packet rest =>
          cases hloop
          exact hc.symm
    · rw [hpc] at hloop
      cases hloop
  · rcases hpc with hpc | hpc
    · rw [hpc]
      cases rest with
      | nil => trivial
      | cons next rest =>
          simp only [loopPc, BoxStream.Ready]
          rwa [hon, if_pos rfl]
    · rw [hpc]
      trivial
  · intro c
    rw [hon]
    split
    · rename_i heq
      exact heq ▸ hun.fromFirstPacket
    · exact hs.pictures c

theorem Streaming.receive {e : ReceiveEvent} (hs : Streaming s)
    (hreq : ∀ bytes, e = .read bytes → bytes.length = PACKET_HEAD_LEN + PACKET_END_LEN →
      bytes.getD 1 0 = PacketType.BOX →
        ∀ last packet rest, s.pc = .loop (some last) packet rest → last = s.connection)
    (h : s.receive e = some u) : Streaming u := by
  obtain ⟨⟨restart, hd⟩, hpc, hw, hc⟩ := BoxStream.receive_spec h
  have hon : ∀ c, u.packetsOn c = s.packetsOn c := fun c => by
    rw [BoxStream.packetsOn, hw, BoxStream.packetsOn]
  refine ⟨flagDown_receiveStep hs.flag hd, ?_, ?_, fun c => by rw [hon]; exact hs.pictures c⟩
  · intro hup last packet rest hloop
    rw [hpc] at hloop
    rcases hc with hc | rfl
    · rw [hc]
      rcases canSendBox_receiveStep hd hup with hold | ⟨bytes, he, hlen, hbox⟩
      · exact hs.current hold last packet rest hloop
      · exact hreq bytes he hlen hbox last packet rest hloop
    · rw [canSendBox_connect hs.flag hd] at hup
      cases hup
  · have hready := hs.ready
    rw [hpc]
    cases hs : s.pc with
    | idle => trivial
    | single packet =>
        rw [hs] at hready
        exact hready
    | loop last packet rest =>
        rw [hs] at hready
        cases last with
        | none => exact hready
        | some last =>
            simp only [BoxStream.Ready]
            rwa [hon]

theorem Streaming.step (hs : Streaming s) (hreq : NoStaleRequest [] s e) (h : s.step e = some u) :
    Streaming u := by
  cases e with
  | sendBox p => exact hs.call h
  | write ret => exact hs.write h
  | leave =>
      obtain rfl := BoxStream.leave_spec h
      refine ⟨hs.flag, ?_, trivial, hs.pictures⟩
      intro _ last packet rest hloop
      cases hloop
  | receive e => exact hs.receive (fun bytes he => hreq bytes (by rw [he])) h

-- While no request for boxes comes in the middle of an old picture, each client gets pictures from
-- their first packets on.
theorem boxStream_pictures (es : List BoxEvent) (s : BoxStream)
    (hreq : Along BoxStream.step NoStaleRequest {} es) (hr : run BoxStream.step {} es = some s) :
    s.OwnPictures := by
  have hinit : Streaming {} := by
    refine ⟨?_, ?_, trivial, fun _ => fromFirstPacket_nil⟩
    · intro h
      exact absurd rfl h
    · intro h
      cases h
  have hs : Streaming s := run_invariant_along NoStaleRequest (fun _ s => Streaming s) hinit
    (fun _ _ _ _ ht hreq hu => ht.step hreq hu) hreq hr
  exact fun c => ⟨hs.pictures c, fun packet hp => (hs.pictures c).curFrame hp⟩

end Run

def boxRequest : Request where
  head := ⟨PACKET_HEAD_FLAG, PacketType.BOX, 1, 1, 0, 0⟩
  tail := ⟨0, PACKET_END_FLAG⟩

-- A client connects and asks for boxes.
def connectBox : List BoxEvent :=
  [.receive .advance, .receive .advance, .receive .connect, .receive .advance,
    .receive (.read boxRequest.bytes)]

def noStaleCheck (s : BoxStream) : BoxEvent → Bool
  | .receive (.read _) =>
      match s.pc with
      | .loop (some last) _ _ => last == s.connection
      | .loop none _ _ => true
      | .single _ => true
      | .idle => true
  | .receive .advance => true
  | .receive .connect => true
  | .sendBox _ => true
  | .write _ => true
  | .leave => true

theorem noStale_of_check (before : List BoxEvent) (s : BoxStream) (e : BoxEvent)
    (h : noStaleCheck s e = true) : NoStaleRequest before s e := by
  rintro bytes rfl - - last packet rest hpc
  simpa [noStaleCheck, hpc] using h

-- The client leaves in the middle of a picture, and the loop ends before the next one asks.
def leaveInTime : List BoxEvent :=
  connectBox ++ [.sendBox spillOver, .write (some 1091), .receive (.read []), .receive .advance,
    .leave, .receive .advance, .receive .connect, .receive .advance,
    .receive (.read boxRequest.bytes), .sendBox spillOver, .write (some 1091), .write (some 107)]

theorem boxStream_pictures_leave : ∃ s : BoxStream,
    run BoxStream.step {} leaveInTime = some s ∧
      s.writes.map (·.connection) = [1, 2, 2] ∧ s.OwnPictures := by
  have hrun : (run BoxStream.step {} leaveInTime).map (fun s => s.writes.map (·.connection)) =
      some [1, 2, 2] := by decide +kernel
  obtain ⟨s, hs, hw⟩ := Option.map_eq_some_iff.mp hrun
  refine ⟨s, hs, hw, boxStream_pictures leaveInTime s ?_ hs⟩
  exact along_of_check noStaleCheck noStale_of_check (by decide +kernel)

-- The next client asks before the loop looks at the flag again.
def leaveLate : List BoxEvent :=
  connectBox ++ [.sendBox spillOver, .write (some 1091), .receive (.read []), .receive .advance,
    .receive .advance, .receive .connect, .receive .advance, .receive (.read boxRequest.bytes),
    .write (some 107)]

-- Then it gets the second packet of the other client's picture.
theorem boxStream_tail : ∃ s : BoxStream, run BoxStream.step {} leaveLate = some s ∧
    s.writes.map (·.count) = s.writes.map (·.packet.length) ∧
    (s.packetsOn 2).map (fun b => (PacketHead.ofBytes b).curFrame) = [2] ∧ ¬ s.OwnPictures := by
  have hrun : (run BoxStream.step {} leaveLate).map (fun s => (s.writes.map (·.count),
      s.writes.map (·.packet.length), (s.packetsOn 2).map (fun b => (PacketHead.ofBytes b).curFrame))) =
      some ([1091, 107], [1091, 107], [2]) := by decide +kernel
  obtain ⟨s, hs, heq⟩ := Option.map_eq_some_iff.mp hrun
  obtain ⟨hcount, heq⟩ := Prod.mk.inj heq
  obtain ⟨hlen, hcur⟩ := Prod.mk.inj heq
  refine ⟨s, hs, hcount.trans hlen.symm, hcur, ?_⟩
  intro h
  obtain ⟨packet, hp, hframe⟩ := List.map_eq_singleton_iff.mp hcur
  have hone := (h 2).2 packet (by rw [hp]; rfl)
  rw [hone] at hframe
  exact absurd hframe (by decide)

end Vcu
