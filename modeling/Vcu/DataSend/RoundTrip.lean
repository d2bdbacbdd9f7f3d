import Vcu.DataSend.Packet
import Vcu.Lib.Frames

namespace Vcu

open LittleEndian Frames

-- What a client reads from a packet.
def PacketHead.ofBytes (b : List UInt8) : PacketHead where
  headIden := b.getD 0 0
  frameType := b.getD 1 0
  curFrame := UInt32.ofNat (decode ((b.drop 2).take 4))
  totFrame := UInt32.ofNat (decode ((b.drop 6).take 4))
  frameSize := UInt32.ofNat (decode ((b.drop 10).take 4))
  picID := UInt32.ofNat (decode ((b.drop 14).take 4))

def frameBody (b : List UInt8) : List UInt8 :=
  (b.drop PACKET_HEAD_LEN).take (PacketHead.ofBytes b).frameSize.toNat

def frameTime (b : List UInt8) : UInt64 :=
  UInt64.ofNat (decode ((b.drop (PACKET_HEAD_LEN + (PacketHead.ofBytes b).frameSize.toNat)).take 8))

-- The body without the two records at its end.
def boxPart (b : List UInt8) : List UInt8 := (frameBody b).take ((frameBody b).length - (28 + 28))

section Packet

variable {head : PacketHead} {time : UInt64} {body rest : List UInt8}

theorem length_head_bytes (head : PacketHead) : head.bytes.length = PACKET_HEAD_LEN := by
  simp only [PacketHead.bytes, List.length_append, length_encode]
  rfl

theorem length_end_bytes (tail : PacketEnd) : tail.bytes.length = PACKET_END_LEN := by
  simp only [PacketEnd.bytes, List.length_append, length_encode]
  rfl

theorem ofNat_decode_encode (x : UInt32) : UInt32.ofNat (decode (encode 4 x.toNat)) = x := by
  have hx : x.toNat < capacity 4 := x.toNat_lt
  rw [decode_encode hx, UInt32.ofNat_toNat]

-- Reading a head back gives the head.
theorem ofBytes_append (head : PacketHead) (rest : List UInt8) :
    PacketHead.ofBytes (head.bytes ++ rest) = head := by
  have hcur : ((head.bytes ++ rest).drop 2).take 4 = encode 4 head.curFrame.toNat := rfl
  have htot : ((head.bytes ++ rest).drop 6).take 4 = encode 4 head.totFrame.toNat := rfl
  have hsize : ((head.bytes ++ rest).drop 10).take 4 = encode 4 head.frameSize.toNat := rfl
  have hpic : ((head.bytes ++ rest).drop 14).take 4 = encode 4 head.picID.toNat := rfl
  simp only [PacketHead.ofBytes, hcur, htot, hsize, hpic, ofNat_decode_encode]
  rfl

theorem frameBody_eq (h : head.frameSize.toNat = body.length) :
    frameBody (head.bytes ++ (body ++ rest)) = body := by
  rw [frameBody, ofBytes_append, h, ← length_head_bytes head, List.drop_left, List.take_left]

theorem frameTime_eq (h : head.frameSize.toNat = body.length) :
    frameTime (head.bytes ++ (body ++ (PacketEnd.mk time PACKET_END_FLAG).bytes)) = time := by
  have ht : time.toNat < capacity 8 := time.toNat_lt
  have htail : ((PacketEnd.mk time PACKET_END_FLAG).bytes).take 8 = encode 8 time.toNat := rfl
  rw [frameTime, ofBytes_append, h, ← length_head_bytes head, ← List.drop_drop, List.drop_left,
    List.drop_left, htail, decode_encode ht, UInt64.ofNat_toNat]

end Packet

theorem length_box_bytes (box : BoxInfo2) : box.bytes.length = BOX_INFO_LEN := by
  simp only [BoxInfo2.bytes, List.length_append, length_encode]
  rfl

namespace Picture

variable {p : Picture} {i : Nat}

theorem length_src (p : Picture) : p.src.length = p.len := by
  have h : ∀ boxes : List BoxInfo2,
      (boxes.flatMap BoxInfo2.bytes).length = boxes.length * BOX_INFO_LEN := by
    intro boxes
    induction boxes with
    | nil => rfl
    | cons box boxes ih =>
        rw [List.flatMap_cons, List.length_append, ih, length_box_bytes, List.length_cons,
          Nat.succ_mul, Nat.add_comm]
  exact h p.boxes

-- All packets but the last are full, and the last one has what is left.
theorem packetNum_spec (h : 0 < p.len) :
    0 < p.packetNum ∧ (p.packetNum - 1) * PACKET_BOX_LEN < p.len ∧
      p.len ≤ p.packetNum * PACKET_BOX_LEN := by
  have hnum : p.packetNum = if p.len % 1008 = 0 then p.len / 1008 else p.len / 1008 + 1 := rfl
  have hbox : PACKET_BOX_LEN = 1008 := rfl
  rw [hbox]
  by_cases hfull : p.len % 1008 = 0
  · rw [if_pos hfull] at hnum
    omega
  · rw [if_neg hfull] at hnum
    omega

-- The part of the boxes that packet `i` carries.
def content (p : Picture) (i : Nat) : List UInt8 := (p.src.drop (i * PACKET_BOX_LEN)).take PACKET_BOX_LEN

theorem flatten_content (h : 0 < p.len) :
    ((List.range p.packetNum).map p.content).flatten = p.src := by
  have hle := (packetNum_spec h).2.2
  rw [← p.length_src] at hle
  exact (flatten_slices p.src PACKET_BOX_LEN p.packetNum).trans (List.take_of_length_le hle)

theorem length_content (h : 0 < p.len) (hi : i < p.packetNum) :
    (p.content i).length = if i = p.packetNum - 1 then p.lastPacketLen else PACKET_BOX_LEN := by
  obtain ⟨hpos, hlt, hle⟩ := packetNum_spec h
  have hsrc := p.length_src
  rw [content, List.length_take, List.length_drop, hsrc]
  simp only [lastPacketLen]
  split
  · rename_i hlast
    rw [hlast]
    simp only [PACKET_BOX_LEN, BOX_INFO_LEN] at hlt hle ⊢
    omega
  · rename_i hlast
    simp only [PACKET_BOX_LEN, BOX_INFO_LEN] at hlt hle ⊢
    omega

-- Copying the last packet from the end of the array gives the last slice.
theorem content_last (h : 0 < p.len) :
    (p.src.drop (p.len - p.lastPacketLen)).take p.lastPacketLen = p.content (p.packetNum - 1) := by
  obtain ⟨hpos, hlt, hle⟩ := packetNum_spec h
  have hstart : p.len - p.lastPacketLen = (p.packetNum - 1) * PACKET_BOX_LEN := by
    simp only [lastPacketLen]
    omega
  have hlen : (p.src.drop ((p.packetNum - 1) * PACKET_BOX_LEN)).length = p.lastPacketLen := by
    rw [List.length_drop, p.length_src, lastPacketLen]
  have hfit : p.lastPacketLen ≤ PACKET_BOX_LEN := by
    simp only [lastPacketLen, PACKET_BOX_LEN, BOX_INFO_LEN] at hlt hle ⊢
    omega
  rw [hstart, content, List.take_of_length_le (Nat.le_of_eq hlen),
    List.take_of_length_le (by omega)]

-- The head that packet `i` gets.
def head (p : Picture) (i : Nat) : PacketHead where
  headIden := PACKET_HEAD_FLAG
  frameType := PacketType.GPS
  curFrame := UInt32.ofNat (i + 1)
  totFrame := UInt32.ofNat p.packetNum
  frameSize := UInt32.ofNat ((p.content i).length + 28 + 28)
  picID := p.id

theorem packet_eq (h : 0 < p.len) (hi : i < p.packetNum) :
    p.packet i = (p.head i).bytes ++ (p.content i ++ p.gpsData.bytes ++ p.attitudeData.bytes ++
      (PacketEnd.mk p.time PACKET_END_FLAG).bytes) := by
  have hlen := length_content h hi
  have hbody : (if i = p.packetNum - 1 then (p.src.drop (p.len - p.lastPacketLen)).take p.lastPacketLen
      else (p.src.drop (i * PACKET_BOX_LEN)).take PACKET_BOX_LEN) = p.content i := by
    split
    · rename_i hlast
      rw [content_last h, hlast]
    · rfl
  rw [packet, hbody, ← hlen]
  simp only [List.append_assoc, head]

theorem length_body (p : Picture) (i : Nat) :
    (p.content i ++ p.gpsData.bytes ++ p.attitudeData.bytes).length =
      (p.content i).length + 28 + 28 := by
  rw [List.length_append, List.length_append, p.gpsData.length_bytes, p.attitudeData.length_bytes]

theorem frameSize_head (p : Picture) (i : Nat) :
    (p.head i).frameSize.toNat =
      (p.content i ++ p.gpsData.bytes ++ p.attitudeData.bytes).length := by
  have hle : (p.content i).length ≤ PACKET_BOX_LEN := List.length_take_le _ _
  simp only [PACKET_BOX_LEN, BOX_INFO_LEN] at hle
  rw [length_body, head, UInt32.toNat_ofNat']
  omega

-- The numbers fit as long as the byte count of the boxes fits an int.
theorem packetNum_lt (h : 0 < p.len) (hlen : p.len < 2147483648) : p.packetNum < 2147483648 := by
  obtain ⟨hpos, hlt, hle⟩ := packetNum_spec h
  simp only [PACKET_BOX_LEN, BOX_INFO_LEN] at hlt
  omega

theorem frameBody_packet (h : 0 < p.len) (hi : i < p.packetNum) :
    frameBody (p.packet i) = p.content i ++ p.gpsData.bytes ++ p.attitudeData.bytes := by
  rw [packet_eq h hi]
  exact frameBody_eq (p.frameSize_head i)

theorem boxPart_packet (h : 0 < p.len) (hi : i < p.packetNum) : boxPart (p.packet i) = p.content i := by
  rw [boxPart, frameBody_packet h hi, length_body, List.append_assoc]
  exact List.take_left' (by omega)

theorem length_packet (h : 0 < p.len) (hi : i < p.packetNum) :
    (p.packet i).length = PACKET_HEAD_LEN + (p.head i).frameSize.toNat + PACKET_END_LEN := by
  rw [packet_eq h hi, List.length_append, List.length_append, length_head_bytes, length_end_bytes,
    frameSize_head, Nat.add_assoc]

end Picture

-- A client gets the boxes back from the packets, which are numbered, of the announced size, and
-- carry the records.
theorem sendBox_round_trip (d : DataSend) (p : Picture) (hsend : d.canSendBox = true)
    (hne : p.boxes ≠ []) (hlen : p.boxes.length * 24 < 2147483648) :
    (d.sendBox p).map (fun b => (PacketHead.ofBytes b).curFrame.toNat) =
        (List.range (d.sendBox p).length).map (· + 1) ∧
      (∀ b ∈ d.sendBox p,
        (PacketHead.ofBytes b).totFrame.toNat = (d.sendBox p).length ∧
        (PacketHead.ofBytes b).picID = p.id ∧ frameTime b = p.time ∧
        b.length = PACKET_HEAD_LEN + (PacketHead.ofBytes b).frameSize.toNat + PACKET_END_LEN ∧
        frameBody b = boxPart b ++ p.gpsData.bytes ++ p.attitudeData.bytes) ∧
      ((d.sendBox p).map boxPart).flatten = p.boxes.flatMap BoxInfo2.bytes := by
  have hpos : 0 < p.len := Nat.mul_pos (List.length_pos_iff.mpr hne) (by decide)
  have hnum := Picture.packetNum_lt hpos hlen
  have hpackets : d.sendBox p = (List.range p.packetNum).map p.packet := by
    rw [DataSend.sendBox, hsend, if_pos rfl, Picture.emitted, if_neg hne]
    rfl
  have hcount : (d.sendBox p).length = p.packetNum := by
    rw [hpackets, List.length_map, List.length_range]
  have hhead : ∀ i < p.packetNum, PacketHead.ofBytes (p.packet i) = p.head i := by
    intro i hi
    rw [Picture.packet_eq hpos hi, ofBytes_append]
  refine ⟨?_, ?_, ?_⟩
  · rw [hcount, hpackets, List.map_map]
    refine List.map_congr_left ?_
    intro i hi
    have hi := List.mem_range.mp hi
    rw [Function.comp_apply, hhead i hi, Picture.head, UInt32.toNat_ofNat']
    omega
  · intro b hb
    rw [hcount]
    rw [hpackets] at hb
    obtain ⟨i, hi, rfl⟩ := List.mem_map.mp hb
    have hi := List.mem_range.mp hi
    rw [hhead i hi, Picture.boxPart_packet hpos hi, Picture.length_packet hpos hi]
    refine ⟨?_, rfl, ?_, rfl, Picture.frameBody_packet hpos hi⟩
    · rw [Picture.head, UInt32.toNat_ofNat']
      omega
    · rw [Picture.packet_eq hpos hi]
      exact frameTime_eq (p.frameSize_head i)
  · have hcontent : (d.sendBox p).map boxPart = (List.range p.packetNum).map p.content := by
      rw [hpackets, List.map_map]
      refine List.map_congr_left ?_
      intro i hi
      rw [Function.comp_apply, Picture.boxPart_packet hpos (List.mem_range.mp hi)]
    rw [hcontent]
    exact Picture.flatten_content hpos

-- One box more than a full packet.
def spillOver : Picture where
  boxes := List.replicate 42 {} ++ [{ left := -1, classNo := 7 }]
  id := 9
  time := 1000
  gpsData := .ofMemory []
  attitudeData := .ofMemory []

theorem sendBox_round_trip_spill :
    (({ canSendBox := true } : DataSend).sendBox spillOver).length = 2 ∧
      ((({ canSendBox := true } : DataSend).sendBox spillOver).map boxPart).flatten =
        spillOver.boxes.flatMap BoxInfo2.bytes :=
  ⟨by decide +kernel, (sendBox_round_trip { canSendBox := true } spillOver rfl
    (List.append_ne_nil_of_right_ne_nil _ (List.cons_ne_nil _ _)) (by decide +kernel)).2.2⟩

end Vcu
