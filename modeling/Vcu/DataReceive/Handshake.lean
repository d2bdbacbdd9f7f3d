import Vcu.ByteArray.Safety
import Vcu.DataReceive.Assembly

namespace Vcu

-- A datagram that acknowledges something the other way.
def IsRes (datagram : List UInt8) : Prop :=
  (PacketHead.ofBytes datagram).frameType = PacketType.RES

-- What every packet of a cut picture is.
structure Sendable (p : PicturePacket) : Prop where
  type : p.head.frameType ≠ PacketType.RES
  size : p.head.frameSize.toNat = p.content.length
  fits : p.content.length ≤ PACKET_LEN

-- What the first `n` packets make.
def made (packets : List PicturePacket) (n : Nat) : Assembly :=
  Assembly.absorbAll {} (packets.take n)

-- The last range appended comes out again, with the zero behind it.
theorem ByteArray.block_mid_suffix {a : ByteArray} {before s : List UInt8} (h : a.Held)
    (hbytes : a.bytes = before ++ s) (hs : s ≠ []) :
    (a.mid ((a.dataSize : Int) - s.length) s.length).block = s ++ [0] := by
  have hlength := a.length_bytes h
  have hpos := List.length_pos_iff.mpr hs
  rw [hbytes, List.length_append] at hlength
  have hindex : ((a.dataSize : Int) - s.length).toNat = before.length := by omega
  cases hdata : a.pData with
  | none =>
      rw [ByteArray.bytes, ByteArray.block, hdata, Option.getD_none, List.take_nil] at hbytes
      exact absurd (List.append_eq_nil_iff.mp hbytes.symm).2 hs
  | some block =>
      have htake : (block.drop before.length).take s.length = s := by
        rw [ByteArray.bytes, ByteArray.block, hdata, Option.getD_some] at hbytes
        have hdrop := congrArg (List.drop before.length) hbytes
        rw [List.drop_left, List.drop_take] at hdrop
        rwa [← hlength, Nat.add_sub_cancel_left] at hdrop
      rw [ByteArray.mid, if_neg (by omega), hdata, hindex, Option.map_some, ByteArray.ofPointer,
        if_neg (by omega), if_pos (by omega), Int.toNat_natCast, htake]
      rfl

section Packet

variable {packets : List PicturePacket} {p : PicturePacket} {n : Nat}

theorem Cut.sendable (h : Cut packets) (hp : p ∈ packets) : Sendable p :=
  ⟨h.type p hp, (h.size p hp).1, (h.size p hp).2⟩

theorem take_succ_of_get (hp : packets[n]? = some p) : packets.take (n + 1) = packets.take n ++ [p] := by
  rw [List.take_add_one, hp, Option.toList_some]

theorem made_succ (hp : packets[n]? = some p) : made packets (n + 1) = (made packets n).absorb p := by
  rw [made, take_succ_of_get hp, Assembly.absorbAll_concat]
  rfl

theorem length_packet (p : PicturePacket) :
    p.bytes.length = PACKET_HEAD_LEN + p.content.length + PACKET_END_LEN := by
  rw [PicturePacket.bytes, List.length_append, List.length_append, length_head_bytes,
    length_end_bytes, Nat.add_assoc]

theorem ofBytes_packet (p : PicturePacket) (rest : List UInt8) :
    PacketHead.ofBytes (p.bytes ++ rest) = p.head := by
  rw [PicturePacket.bytes, List.append_assoc, ofBytes_append]

theorem frameBody_packet (hp : Sendable p) (rest : List UInt8) :
    frameBody (p.bytes ++ rest) = p.content := by
  rw [PicturePacket.bytes, List.append_assoc, List.append_assoc, frameBody_eq hp.size]

theorem not_isRes_packet (hp : Sendable p) : ¬ IsRes p.bytes := by
  have hhead := ofBytes_packet p []
  rw [List.append_nil] at hhead
  rw [IsRes, hhead]
  exact hp.type

theorem isRes_take {datagram : List UInt8} : IsRes (datagram.take RECV_LEN) ↔ IsRes datagram := by
  have hget : (datagram.take RECV_LEN).getD 1 0 = datagram.getD 1 0 := by
    rw [List.getD_eq_getElem?_getD, List.getD_eq_getElem?_getD,
      List.getElem?_take_of_lt (by decide)]
  rw [IsRes, IsRes, PacketHead.ofBytes, PacketHead.ofBytes]
  exact iff_of_eq (congrArg (· = PacketType.RES) hget)

end Packet

namespace DataReceive

def OnlyRes (s : DataReceive) : Prop := ∀ datagram ∈ s.socket, IsRes datagram

def Threads (s : DataReceive) (recvPc : RecvPc) (parserPc : ParserPc) (recvSem : Nat)
    (recvStatus : Bool) : Prop :=
  s.recvPc = recvPc ∧ s.parserPc = parserPc ∧ s.recvSem = recvSem ∧ s.recvStatus = recvStatus

-- The packet is the end of arr.
def Stored (s : DataReceive) (p : PicturePacket) : Prop :=
  (∃ before, s.arr.bytes = before ++ p.bytes) ∧ s.lastPacketSize = p.bytes.length

-- The first `m` packets are appended, the pictures of the first `n` handed on, and pic holds `part`.
def At (packets : List PicturePacket) (s : DataReceive) (m n : Nat) (part : List UInt8) : Prop :=
  s.appended = (packets.take m).map PicturePacket.content ∧
    s.rgbData = (made packets n).pictures ∧ s.pic.bytes = part

def Settled (packets : List PicturePacket) (s : DataReceive) (n : Nat) : Prop :=
  At packets s n n (made packets n).part

-- How far parser_thread is with packet `p`.
def ParserAt (packets : List PicturePacket) (s : DataReceive) (p : PicturePacket) : ParserPc → Prop
  | .acquire => False
  | .mid => Stored s p ∧ Settled packets s s.acked
  | .head lastData => lastData.block = p.bytes ++ [0] ∧ Settled packets s s.acked
  | .clearArr lastData =>
      lastData.block = p.bytes ++ [0] ∧
        At packets s s.acked s.acked ((made packets s.acked).start p)
  | .append lastData =>
      lastData.block = p.bytes ++ [0] ∧
        At packets s s.acked s.acked ((made packets s.acked).start p)
  | .setRgbData lastData =>
      lastData.block = p.bytes ++ [0] ∧ p.head.curFrame = p.head.totFrame ∧
        At packets s (s.acked + 1) s.acked ((made packets s.acked).start p ++ p.content)
  | .clearFullArr =>
      p.head.curFrame = p.head.totFrame ∧ ∃ part, At packets s (s.acked + 1) (s.acked + 1) part
  | .clearFullPic =>
      p.head.curFrame = p.head.totFrame ∧ ∃ part, At packets s (s.acked + 1) (s.acked + 1) part
  | .signal => Settled packets s (s.acked + 1)

-- The way of one packet through the two threads.
inductive Handshake (packets : List PicturePacket) (s : DataReceive) (p : PicturePacket) : Prop where
  | flying (before after : List (List UInt8)) (threads : Threads s .read .acquire 0 false)
      (socket : s.socket = before ++ p.bytes :: after)
      (res : ∀ datagram ∈ before ++ after, IsRes datagram) (data : Settled packets s s.acked)
  | held (threads : Threads s (.append p.bytes) .acquire 0 false) (res : OnlyRes s)
      (data : Settled packets s s.acked)
  | stored (threads : Threads s .release .acquire 0 false) (res : OnlyRes s) (arr : Stored s p)
      (data : Settled packets s s.acked)
  | posted (threads : Threads s .wait .acquire 1 false) (res : OnlyRes s) (arr : Stored s p)
      (data : Settled packets s s.acked)
  | parsing (pc : ParserPc) (threads : Threads s .wait pc 0 false) (res : OnlyRes s)
      (data : ParserAt packets s p pc)
  | signalled (threads : Threads s .wait .acquire 0 true) (res : OnlyRes s)
      (data : Settled packets s (s.acked + 1))
  | acking (threads : Threads s .sendRes .acquire 0 false) (res : OnlyRes s)
      (data : Settled packets s (s.acked + 1))

inductive Stage (packets : List PicturePacket) (s : DataReceive) : Prop where
  | idle (sent : s.sent = s.acked) (threads : Threads s .read .acquire 0 false) (res : OnlyRes s)
      (data : Settled packets s s.acked)
  | busy (p : PicturePacket) (sent : s.sent = s.acked + 1) (get : packets[s.acked]? = some p)
      (handshake : Handshake packets s p)

-- Both buffers hold their bytes. pic never has less than its first capacity.
structure InBounds (s : DataReceive) : Prop where
  arr : s.arr.WellFormed
  pic : s.pic.WellFormed
  room : PACKET_LEN ≤ s.pic.capacity

structure Inv (packets : List PicturePacket) (s : DataReceive) : Prop where
  bounds : InBounds s
  stage : Stage packets s

section Steps

variable {packets : List PicturePacket} {s t : DataReceive} {p : PicturePacket}

theorem inv_init (packets : List PicturePacket) : Inv packets {} where
  bounds := ⟨ByteArray.wellFormed_init, ByteArray.wellFormed_init, Nat.le_refl _⟩
  stage := .idle rfl ⟨rfl, rfl, rfl, rfl⟩ (fun _ h => nomatch h) ⟨rfl, rfl, rfl⟩

theorem send_inv (h : Inv packets s) (ht : s.send packets = some t) : Inv packets t := by
  rw [send] at ht
  split at ht
  · rename_i p hget
    split at ht
    · rename_i hsent
      cases ht
      cases h.stage with
      | idle _ threads res data =>
          refine ⟨⟨h.bounds.arr, h.bounds.pic, h.bounds.room⟩,
            .busy p (congrArg (· + 1) hsent) (hsent ▸ hget) ?_⟩
          refine .flying s.socket [] threads rfl ?_ data
          rw [List.append_nil]
          exact res
      | busy p sent => omega
    · cases ht
  · cases ht

theorem res_inv {datagram : List UInt8} (h : Inv packets s) (ht : s.res datagram = some t) :
    Inv packets t := by
  rw [res] at ht
  split at ht
  · rename_i hres
    cases ht
    have hsocket : ∀ {l : List (List UInt8)}, (∀ d ∈ l, IsRes d) → ∀ d ∈ l ++ [datagram], IsRes d := by
      intro l hl d hd
      rcases List.mem_append.mp hd with hd | hd
      · exact hl d hd
      · rw [List.mem_singleton.mp hd]
        exact hres
    refine ⟨⟨h.bounds.arr, h.bounds.pic, h.bounds.room⟩, ?_⟩
    cases h.stage with
    | idle sent threads res data => exact .idle sent threads (hsocket res) data
    | busy p sent get handshake =>
        refine .busy p sent get ?_
        cases handshake with
        | flying before after threads socket res data =>
            refine .flying before (after ++ [datagram]) threads ?_ ?_ data
            · rw [socket, List.append_assoc, List.cons_append]
            · rw [← List.append_assoc]
              exact hsocket res
        | held threads res data => exact .held threads (hsocket res) data
        | stored threads res arr data => exact .stored threads (hsocket res) arr data
        | posted threads res arr data => exact .posted threads (hsocket res) arr data
        | parsing pc threads res data =>
            refine .parsing pc threads (hsocket res) ?_
            cases pc <;> exact data
        | signalled threads res data => exact .signalled threads (hsocket res) data
        | acking threads res data => exact .acking threads (hsocket res) data
  · cases ht

-- Only the append of receive_thread can leave its block.
def RoomFor (s : DataReceive) : Prop :=
  ∀ recvbuffer, s.recvPc = .append recvbuffer → ByteArray.GrowsEnough s.arr recvbuffer.length

theorem Stored.append (h : s.arr.Held) (p : PicturePacket) :
    Stored { s with arr := s.arr.append p.bytes, lastPacketSize := p.bytes.length, recvPc := .release } p :=
  ⟨⟨s.arr.bytes, s.arr.bytes_append p.bytes h⟩, rfl⟩

-- What a read takes from the socket.
theorem receive_res {datagram : List UInt8} {rest : List (List UInt8)} (hrecv : s.recvPc = .read)
    (hsocket : s.socket = datagram :: rest) (hres : IsRes datagram) :
    s.receive = some { s with socket := rest, sendSem := s.sendSem + 1 } := by
  have hres := isRes_take.mpr hres
  rw [IsRes] at hres
  rw [receive, hrecv]
  simp only [hsocket, if_pos hres]

theorem receive_packet {rest : List (List UInt8)} (hp : Sendable p) (hrecv : s.recvPc = .read)
    (hsocket : s.socket = p.bytes :: rest) :
    s.receive = some { s with socket := rest, recvPc := .append p.bytes } := by
  have htake : p.bytes.take RECV_LEN = p.bytes := by
    refine List.take_of_length_le ?_
    rw [length_packet, RECV_LEN]
    exact Nat.add_le_add_right (Nat.add_le_add_left hp.fits _) _
  have hres := not_isRes_packet hp
  rw [IsRes] at hres
  rw [receive, hrecv]
  simp only [hsocket, htake, if_neg hres]

theorem receive_inv (hsendable : ∀ p ∈ packets, Sendable p) (h : Inv packets s) (hroom : RoomFor s)
    (ht : s.receive = some t) : Inv packets t := by
  obtain ⟨⟨harr, hpic, hcapacity⟩, hstage⟩ := h
  cases hstage with
  | idle sent threads res data =>
      cases hsocket : s.socket with
      | nil => simp [receive, threads.1, hsocket] at ht
      | cons datagram rest =>
          rw [receive_res threads.1 hsocket (res datagram (hsocket ▸ List.mem_cons_self))] at ht
          cases ht
          refine ⟨⟨harr, hpic, hcapacity⟩, .idle sent threads ?_ data⟩
          exact fun d hd => res d (hsocket ▸ List.mem_cons_of_mem _ hd)
  | busy p sent get handshake =>
      have hp := hsendable p (List.mem_of_getElem? get)
      cases handshake with
      | flying before after threads socket res data =>
          cases before with
          | nil =>
              rw [receive_packet hp threads.1 socket] at ht
              cases ht
              exact ⟨⟨harr, hpic, hcapacity⟩,
                .busy p sent get (.held ⟨rfl, threads.2⟩ res data)⟩
          | cons datagram before =>
              rw [receive_res threads.1 socket (res datagram List.mem_cons_self)] at ht
              cases ht
              refine ⟨⟨harr, hpic, hcapacity⟩,
                .busy p sent get (.flying before after threads rfl ?_ data)⟩
              exact fun d hd => res d (List.mem_cons_of_mem _ hd)
      | held threads res data =>
          rw [receive, threads.1] at ht
          cases ht
          have happend := (ByteArray.append_wellFormed_iff harr p.bytes).mpr (hroom p.bytes threads.1)
          exact ⟨⟨happend, hpic, hcapacity⟩, .busy p sent get
            (.stored ⟨rfl, threads.2⟩ res (Stored.append harr.held p) data)⟩
      | stored threads res arr data =>
          rw [receive, threads.1] at ht
          cases ht
          obtain ⟨-, hparser, hsem, hstatus⟩ := threads
          exact ⟨⟨harr, hpic, hcapacity⟩, .busy p sent get
            (.posted ⟨rfl, hparser, congrArg (· + 1) hsem, hstatus⟩ res arr data)⟩
      | posted threads res arr data =>
          simp [receive, threads.1, threads.2.2.2] at ht
      | parsing pc threads res data =>
          simp [receive, threads.1, threads.2.2.2] at ht
      | signalled threads res data =>
          obtain ⟨hrecv, hparser, hsem, hstatus⟩ := threads
          rw [receive, hrecv] at ht
          simp only [hstatus, if_true] at ht
          cases ht
          exact ⟨⟨harr, hpic, hcapacity⟩, .busy p sent get
            (.acking ⟨rfl, hparser, hsem, rfl⟩ res data)⟩
      | acking threads res data =>
          rw [receive, threads.1] at ht
          cases ht
          exact ⟨⟨harr, hpic, hcapacity⟩, .idle sent ⟨rfl, threads.2⟩ res data⟩

-- The size of a packet's content leaves room in pic whatever it holds.
theorem append_pic (hpic : s.pic.WellFormed) (hcapacity : PACKET_LEN ≤ s.pic.capacity) (hp : Sendable p) :
    (s.pic.append p.content).WellFormed ∧ PACKET_LEN ≤ (s.pic.append p.content).capacity := by
  have hlt := hpic.2.2
  have hfits := hp.fits
  have happend := ByteArray.append_wellFormed (s := p.content) hpic (by omega)
  exact ⟨happend.1, Nat.le_trans hcapacity happend.2⟩

-- The append of a packet's content makes the packet one of those that are done.
theorem parserAt_append {lastData : ByteArray} (hp : Sendable p) (hget : packets[s.acked]? = some p)
    (hbounds : InBounds s) (hdata : ParserAt packets s p (.append lastData))
    (ht : t = { s with
      pic := s.pic.append p.content
      appended := s.appended ++ [p.content]
      parserPc := if p.head.curFrame = p.head.totFrame then .setRgbData lastData else .signal }) :
    InBounds t ∧ ParserAt packets t p t.parserPc := by
  subst ht
  obtain ⟨harr, hpic, hcapacity⟩ := hbounds
  obtain ⟨hblock, happended, hrgb, hpart⟩ := hdata
  obtain ⟨hpic', hcapacity'⟩ := append_pic hpic hcapacity hp
  have happended' : s.appended ++ [p.content] =
      (packets.take (s.acked + 1)).map PicturePacket.content := by
    rw [take_succ_of_get hget, List.map_append, happended, List.map_singleton]
  have hpart' : (s.pic.append p.content).bytes = (made packets s.acked).start p ++ p.content := by
    rw [ByteArray.bytes_append _ _ hpic.held, hpart]
  refine ⟨⟨harr, hpic', hcapacity'⟩, ?_⟩
  by_cases hlast : p.head.curFrame = p.head.totFrame
  · simp only [if_pos hlast]
    exact ⟨hblock, hlast, happended', hrgb, hpart'⟩
  · simp only [if_neg hlast]
    refine ⟨happended', ?_, ?_⟩
    · rw [made_succ hget, Assembly.absorb, if_neg hlast]
      exact hrgb
    · rw [made_succ hget, Assembly.absorb, if_neg hlast]
      exact hpart'

-- One step of parser_thread with the packet in its hands.
theorem parsing_inv {pc : ParserPc} (hp : Sendable p) (hget : packets[s.acked]? = some p)
    (hbounds : InBounds s) (hpc : s.parserPc = pc) (hdata : ParserAt packets s p pc)
    (ht : s.parser = some t) :
    InBounds t ∧ (ParserAt packets t p t.parserPc ∧ t.recvStatus = s.recvStatus ∨
      t.parserPc = .acquire ∧ t.recvStatus = true ∧ Settled packets t (s.acked + 1)) := by
  obtain ⟨harr, hpic, hcapacity⟩ := hbounds
  have hhead : ∀ {a : ByteArray}, a.block = p.bytes ++ [0] → PacketHead.ofBytes a.block = p.head :=
    fun ha => ha ▸ ofBytes_packet p [0]
  rw [parser, hpc] at ht
  cases pc with
  | acquire => exact hdata.elim
  | mid =>
      cases ht
      obtain ⟨⟨⟨before, hbytes⟩, hsize⟩, hsettled⟩ := hdata
      have hne : p.bytes ≠ [] := by
        rw [ne_eq, ← List.length_eq_zero_iff, length_packet, PACKET_HEAD_LEN]
        omega
      refine ⟨⟨harr, hpic, hcapacity⟩, .inl ⟨⟨?_, hsettled⟩, rfl⟩⟩
      rw [hsize]
      exact ByteArray.block_mid_suffix harr.held hbytes hne
  | head lastData =>
      obtain ⟨hblock, happended, hrgb, hpart⟩ := hdata
      simp only [hhead hblock] at ht
      split at ht
      · rename_i hfirst
        cases ht
        refine ⟨⟨harr, ByteArray.clear_wellFormed hpic, hcapacity⟩,
          .inl ⟨⟨hblock, happended, hrgb, ?_⟩, rfl⟩⟩
        rw [ByteArray.bytes_clear, Assembly.start, if_pos hfirst]
      · rename_i hfirst
        cases ht
        refine ⟨⟨harr, hpic, hcapacity⟩, .inl ⟨⟨hblock, happended, hrgb, ?_⟩, rfl⟩⟩
        rw [Assembly.start, if_neg hfirst]
        exact hpart
  | clearArr lastData =>
      cases ht
      exact ⟨⟨ByteArray.clear_wellFormed harr, hpic, hcapacity⟩, .inl ⟨hdata, rfl⟩⟩
  | append lastData =>
      have hbody : frameBody lastData.block = p.content := hdata.1 ▸ frameBody_packet hp [0]
      simp only [hhead hdata.1, hbody] at ht
      obtain ⟨hbounds, hnext⟩ :=
        parserAt_append hp hget ⟨harr, hpic, hcapacity⟩ hdata (Option.some.inj ht).symm
      cases ht
      exact ⟨hbounds, .inl ⟨hnext, rfl⟩⟩
  | setRgbData lastData =>
      obtain ⟨hblock, hlast, happended, hrgb, hpart⟩ := hdata
      simp only [hhead hblock] at ht
      cases ht
      refine ⟨⟨harr, hpic, hcapacity⟩, .inl ⟨⟨hlast, s.pic.bytes, happended, ?_, rfl⟩, rfl⟩⟩
      rw [made_succ hget, Assembly.absorb, if_pos hlast, hrgb, hpart]
  | clearFullArr =>
      cases ht
      exact ⟨⟨ByteArray.clear_wellFormed harr, hpic, hcapacity⟩, .inl ⟨hdata, rfl⟩⟩
  | clearFullPic =>
      cases ht
      obtain ⟨hlast, part, happended, hrgb, -⟩ := hdata
      refine ⟨⟨harr, ByteArray.clear_wellFormed hpic, hcapacity⟩,
        .inl ⟨⟨happended, hrgb, ?_⟩, rfl⟩⟩
      rw [ByteArray.bytes_clear, made_succ hget, Assembly.absorb, if_pos hlast]
  | signal =>
      cases ht
      exact ⟨⟨harr, hpic, hcapacity⟩, .inr ⟨rfl, rfl, hdata⟩⟩

-- What parser_thread leaves alone, and what it only takes when it begins.
theorem parser_frame (ht : s.parser = some t) :
    t.recvPc = s.recvPc ∧ t.socket = s.socket ∧ t.sent = s.sent ∧ t.acked = s.acked ∧
      (s.parserPc ≠ .acquire → t.recvSem = s.recvSem) := by
  rw [parser] at ht
  split at ht
  · rename_i hpc
    split at ht
    · cases ht
    · cases ht
      exact ⟨rfl, rfl, rfl, rfl, fun hne => absurd hpc hne⟩
  · cases ht
    exact ⟨rfl, rfl, rfl, rfl, fun _ => rfl⟩
  · split at ht <;> cases ht <;> exact ⟨rfl, rfl, rfl, rfl, fun _ => rfl⟩
  all_goals
    cases ht
    exact ⟨rfl, rfl, rfl, rfl, fun _ => rfl⟩

theorem parser_waits (hpc : s.parserPc = .acquire) (hsem : s.recvSem = 0) : s.parser = none := by
  rw [parser, hpc]
  exact if_pos hsem

theorem parser_inv (hsendable : ∀ p ∈ packets, Sendable p) (h : Inv packets s) (ht : s.parser = some t) :
    Inv packets t := by
  obtain ⟨hbounds, hstage⟩ := h
  cases hstage with
  | idle sent threads res data =>
      rw [parser_waits threads.2.1 threads.2.2.1] at ht
      cases ht
  | busy p sent get handshake =>
      have hp := hsendable p (List.mem_of_getElem? get)
      cases handshake with
      | flying before after threads socket res data =>
          rw [parser_waits threads.2.1 threads.2.2.1] at ht
          cases ht
      | held threads res data =>
          rw [parser_waits threads.2.1 threads.2.2.1] at ht
          cases ht
      | stored threads res arr data =>
          rw [parser_waits threads.2.1 threads.2.2.1] at ht
          cases ht
      | posted threads res arr data =>
          obtain ⟨hrecv, hparser, hsem, hstatus⟩ := threads
          rw [parser, hparser] at ht
          simp only [hsem, if_neg Nat.one_ne_zero] at ht
          cases ht
          exact ⟨⟨hbounds.arr, hbounds.pic, hbounds.room⟩, .busy p sent get
            (.parsing .mid ⟨hrecv, rfl, rfl, hstatus⟩ res ⟨arr, data⟩)⟩
      | parsing pc threads res data =>
          obtain ⟨hrecv, hparser, hsem, hstatus⟩ := threads
          have hne : s.parserPc ≠ .acquire := by
            rintro he
            rw [hparser] at he
            subst he
            exact data
          obtain ⟨frecv, fsocket, fsent, facked, fsem⟩ := parser_frame ht
          obtain ⟨hbounds', hstep⟩ := parsing_inv hp get hbounds hparser data ht
          have hres : OnlyRes t := by
            rw [OnlyRes, fsocket]
            exact res
          have hrecv' : t.recvPc = .wait := frecv.trans hrecv
          have hsem' : t.recvSem = 0 := (fsem hne).trans hsem
          refine ⟨hbounds', .busy p (by rw [fsent, facked]; exact sent) (by rw [facked]; exact get) ?_⟩
          rcases hstep with ⟨hdata, hkept⟩ | ⟨hpc, hset, hsettled⟩
          · exact .parsing t.parserPc ⟨hrecv', rfl, hsem', hkept.trans hstatus⟩ hres hdata
          · exact .signalled ⟨hrecv', hpc, hsem', hset⟩ hres (by rw [facked]; exact hsettled)
      | signalled threads res data =>
          rw [parser_waits threads.2.1 threads.2.2.1] at ht
          cases ht
      | acking threads res data =>
          rw [parser_waits threads.2.1 threads.2.2.1] at ht
          cases ht

-- While a packet is not acknowledged, one of the threads can go on.
theorem Inv.progress (h : Inv packets s) (hlt : s.acked < s.sent) :
    s.receive.isSome ∨ s.parser.isSome := by
  cases h.stage with
  | idle sent => omega
  | busy p sent get handshake =>
      cases handshake with
      | flying before after threads socket res data =>
          left
          rw [receive, threads.1, socket]
          cases before with
          | nil =>
              simp only [List.nil_append]
              split <;> rfl
          | cons datagram before =>
              simp only [List.cons_append]
              split <;> rfl
      | held threads res data =>
          left
          rw [receive, threads.1]
          rfl
      | stored threads res arr data =>
          left
          rw [receive, threads.1]
          rfl
      | posted threads res arr data =>
          right
          rw [parser, threads.2.1]
          simp only [threads.2.2.1]
          rfl
      | parsing pc threads res data =>
          right
          rw [parser, threads.2.1]
          cases pc with
          | acquire => exact data.elim
          | head lastData =>
              simp only
              split <;> rfl
          | _ => rfl
      | signalled threads res data =>
          left
          rw [receive, threads.1]
          simp only [threads.2.2.2, if_true]
          rfl
      | acking threads res data =>
          left
          rw [receive, threads.1]
          rfl

-- Between what is acknowledged and what is sent the packets are appended and the pictures made.
theorem Inv.bookkeeping (h : Inv packets s) :
    (∃ m, s.acked ≤ m ∧ m ≤ s.sent ∧ s.appended = (packets.take m).map PicturePacket.content) ∧
      ∃ n, s.acked ≤ n ∧ n ≤ s.sent ∧ s.rgbData = (made packets n).pictures := by
  have hat : ∀ {m n : Nat} {part : List UInt8}, s.acked ≤ m → m ≤ s.sent → s.acked ≤ n → n ≤ s.sent →
      At packets s m n part →
      (∃ m, s.acked ≤ m ∧ m ≤ s.sent ∧ s.appended = (packets.take m).map PicturePacket.content) ∧
        ∃ n, s.acked ≤ n ∧ n ≤ s.sent ∧ s.rgbData = (made packets n).pictures :=
    fun hm hm' hn hn' hat => ⟨⟨_, hm, hm', hat.1⟩, ⟨_, hn, hn', hat.2.1⟩⟩
  cases h.stage with
  | idle sent threads res data =>
      have hle : s.acked ≤ s.sent := Nat.le_of_eq sent.symm
      exact hat (Nat.le_refl _) hle (Nat.le_refl _) hle data
  | busy p sent get handshake =>
      have hle : s.acked ≤ s.sent := by omega
      have hsucc : s.acked + 1 ≤ s.sent := Nat.le_of_eq sent.symm
      have hstays := Nat.le_refl s.acked
      have hgrows := Nat.le_succ s.acked
      cases handshake with
      | flying before after threads socket res data => exact hat hstays hle hstays hle data
      | held threads res data => exact hat hstays hle hstays hle data
      | stored threads res arr data => exact hat hstays hle hstays hle data
      | posted threads res arr data => exact hat hstays hle hstays hle data
      | signalled threads res data => exact hat hgrows hsucc hgrows hsucc data
      | acking threads res data => exact hat hgrows hsucc hgrows hsucc data
      | parsing pc threads res data =>
          cases pc with
          | acquire => exact data.elim
          | mid => exact hat hstays hle hstays hle data.2
          | head lastData => exact hat hstays hle hstays hle data.2
          | clearArr lastData => exact hat hstays hle hstays hle data.2
          | append lastData => exact hat hstays hle hstays hle data.2
          | setRgbData lastData => exact hat hgrows hsucc hstays hle data.2.2
          | clearFullArr =>
              obtain ⟨-, part, hdata⟩ := data
              exact hat hgrows hsucc hgrows hsucc hdata
          | clearFullPic =>
              obtain ⟨-, part, hdata⟩ := data
              exact hat hgrows hsucc hgrows hsucc hdata
          | signal => exact hat hgrows hsucc hgrows hsucc data

end Steps

end DataReceive

end Vcu
