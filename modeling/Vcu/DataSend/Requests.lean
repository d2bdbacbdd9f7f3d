import Vcu.DataSend.Receive
import Vcu.DataSend.RoundTrip
import Vcu.Lib.Machine

namespace Vcu

open Machine LittleEndian Frames

structure StreamType where
  type : UInt8
  h : Int32
  w : Int32
  deriving DecidableEq

def StreamType.bytes (info : StreamType) : List UInt8 :=
  [info.type] ++ encode 4 info.h.toUInt32.toNat ++ encode 4 info.w.toUInt32.toNat

def STREAM_TYPE_LEN : Nat := 9

def sendStreamInfo (type : Int8) (time : UInt64) : List UInt8 :=
  let head : PacketHead := {
    headIden := PACKET_HEAD_FLAG
    frameType := PacketType.STREAMPARAM
    curFrame := 1
    totFrame := 1
    frameSize := UInt32.ofNat STREAM_TYPE_LEN
    picID := 0 }
  let info : StreamType := { type := type.toUInt8, h := -1, w := -1 }
  head.bytes ++ info.bytes ++ (PacketEnd.mk time PACKET_END_FLAG).bytes

-- The inner loop of receive_thread. `acted` and `replies` are histories, of the requests that were
-- taken and of the answers to STREAMPARAM.
structure RequestLoop where
  data : DataSend
  acted : List (List UInt8) := []
  replies : List (List UInt8) := []
  deriving DecidableEq

namespace RequestLoop

-- `info n` is the stream type and the time that answer number `n` finds.
def read (info : Nat → Int8 × UInt64) (s : RequestLoop) (piece : List UInt8) : Option RequestLoop :=
  (s.data.receiveStep (.read piece)).map fun (data, _) =>
    if piece.length = PACKET_HEAD_LEN + PACKET_END_LEN then
      { data := data
        acted := s.acted ++ [piece]
        replies :=
          if piece.getD 1 0 = PacketType.STREAMPARAM then
            s.replies ++ [sendStreamInfo (info s.replies.length).1 (info s.replies.length).2]
          else s.replies }
    else { s with data := data }

def serve (info : Nat → Int8 × UInt64) : RequestLoop → List (List UInt8) → Option RequestLoop :=
  run (read info)

end RequestLoop

def KnownType (frameType : UInt8) : Prop :=
  frameType = PacketType.CON ∨ frameType = PacketType.BOX ∨ frameType = PacketType.STREAMPARAM

instance : DecidablePred KnownType := fun _ => inferInstanceAs (Decidable (_ ∨ _))

-- The types of the requests that have an effect.
def knownTypes (acted : List (List UInt8)) : List UInt8 :=
  (acted.map (·.getD 1 0)).filter fun frameType => KnownType frameType

-- A way in which recv may return the bytes of the requests.
structure Segmentation (requests : List Request) where
  pieces : List (List UInt8)
  flatten_pieces : pieces.flatten = requests.flatMap Request.bytes
  pieces_ne_nil : ∀ piece ∈ pieces, piece ≠ []
  length_le : ∀ piece ∈ pieces, piece.length ≤ PACKET_HEAD_LEN + PACKET_END_LEN

section Serve

variable {s u : RequestLoop} {pieces : List (List UInt8)} {requests : List Request}

theorem length_request (r : Request) : r.bytes.length = PACKET_HEAD_LEN + PACKET_END_LEN := by
  rw [Request.bytes, List.length_append, length_head_bytes, length_end_bytes]

theorem length_of_mem_requests {piece : List UInt8} (h : piece ∈ requests.map Request.bytes) :
    piece.length = PACKET_HEAD_LEN + PACKET_END_LEN := by
  obtain ⟨r, -, rfl⟩ := List.mem_map.mp h
  exact length_request r

theorem length_flatMap_requests (requests : List Request) :
    (requests.flatMap Request.bytes).length =
      requests.length * (PACKET_HEAD_LEN + PACKET_END_LEN) := by
  have hsize : ∀ piece ∈ requests.map Request.bytes,
      piece.length = PACKET_HEAD_LEN + PACKET_END_LEN := fun _ hp => length_of_mem_requests hp
  rw [List.flatMap_def, flatten_length_of_size hsize, List.length_map]

theorem receiveStep_read {d : DataSend} {piece : List UInt8} (hd : d.pc = .read) (hne : piece ≠ []) :
    ∃ d', d.receiveStep (.read piece) = some (d', false) ∧ d'.pc = .read := by
  have hlen : piece.length ≠ 0 := by simpa using hne
  simp only [DataSend.receiveStep]
  rw [if_neg (not_not.mpr hd)]
  split
  · exact ⟨_, rfl, (pc_request d _).trans hd⟩
  · exact ⟨d, rfl, hd⟩

-- A piece that is not empty leaves the loop where it is, and is taken when it has full length.
theorem RequestLoop.read_spec (info : Nat → Int8 × UInt64) {piece : List UInt8}
    (hs : s.data.pc = .read) (hne : piece ≠ []) :
    ∃ u, s.read info piece = some u ∧ u.data.pc = .read ∧
      u.acted = s.acted ++ [piece].filter fun p => p.length = PACKET_HEAD_LEN + PACKET_END_LEN := by
  obtain ⟨d, hd, hpc⟩ := receiveStep_read hs hne
  simp only [RequestLoop.read, hd, Option.map_some]
  by_cases hfull : piece.length = PACKET_HEAD_LEN + PACKET_END_LEN
  · rw [if_pos hfull]
    exact ⟨_, rfl, hpc, by simp [hfull]⟩
  · rw [if_neg hfull]
    exact ⟨_, rfl, hpc, by simp [hfull]⟩

-- The loop takes the pieces of full length, and no others.
theorem serve_spec (info : Nat → Int8 × UInt64) (hs : s.data.pc = .read)
    (hne : ∀ piece ∈ pieces, piece ≠ []) :
    ∃ u, s.serve info pieces = some u ∧
      u.acted = s.acted ++ pieces.filter fun p => p.length = PACKET_HEAD_LEN + PACKET_END_LEN := by
  induction pieces generalizing s with
  | nil => exact ⟨s, rfl, by rw [List.filter_nil, List.append_nil]⟩
  | cons piece pieces ih =>
      obtain ⟨t, ht, hpc, hacted⟩ := RequestLoop.read_spec info hs (hne piece List.mem_cons_self)
      obtain ⟨u, hu, hrest⟩ := ih hpc fun p hp => hne p (List.mem_cons_of_mem _ hp)
      refine ⟨u, ?_, ?_⟩
      · rw [RequestLoop.serve, run_cons, ht]
        exact hu
      · rw [hrest, hacted, List.append_assoc, ← List.filter_append, List.singleton_append]

theorem knownTypes_append (l m : List (List UInt8)) :
    knownTypes (l ++ m) = knownTypes l ++ knownTypes m := by
  rw [knownTypes, List.map_append, List.filter_append, knownTypes, knownTypes]

theorem length_knownTypes_le (l : List (List UInt8)) : (knownTypes l).length ≤ l.length :=
  (List.length_filter_le _ _).trans_eq (List.length_map _)

theorem length_knownTypes_requests (h : ∀ r ∈ requests, KnownType r.head.frameType) :
    (knownTypes (requests.map Request.bytes)).length = requests.length := by
  have hall : ∀ frameType ∈ (requests.map Request.bytes).map (·.getD 1 0), KnownType frameType := by
    intro frameType hmem
    rw [List.map_map] at hmem
    obtain ⟨r, hr, rfl⟩ := List.mem_map.mp hmem
    exact h r hr
  rw [knownTypes, List.filter_eq_self.mpr fun t ht => decide_eq_true (hall t ht), List.length_map,
    List.length_map]

namespace Segmentation

variable {cut : Segmentation requests}

-- Pieces of full length are the requests themselves.
theorem pieces_eq (h : ∀ piece ∈ cut.pieces, piece.length = PACKET_HEAD_LEN + PACKET_END_LEN) :
    cut.pieces = requests.map Request.bytes :=
  eq_of_flatten_eq (by decide) h (fun _ hp => length_of_mem_requests hp)
    (cut.flatten_pieces.trans List.flatMap_def)

-- With as many full pieces as requests no byte is left for others.
theorem length_eq_of_count
    (h : requests.length ≤
      (cut.pieces.filter fun p => p.length = PACKET_HEAD_LEN + PACKET_END_LEN).length) :
    ∀ piece ∈ cut.pieces, piece.length = PACKET_HEAD_LEN + PACKET_END_LEN := by
  refine length_eq_of_countP cut.pieces_ne_nil ?_
  rw [cut.flatten_pieces, length_flatMap_requests, List.countP_eq_length_filter]
  exact Nat.mul_le_mul_right _ h

end Segmentation

-- The loop does the same as with one request in each recv exactly when each recv returns one
-- request. Where all requests are of the types that the loop knows, already their effects differ
-- otherwise.
theorem serve_pieces_iff (info : Nat → Int8 × UInt64) (s : RequestLoop) (hs : s.data.pc = .read)
    (requests : List Request) (cut : Segmentation requests) :
    (s.serve info cut.pieces = s.serve info (requests.map Request.bytes) ↔
        ∀ piece ∈ cut.pieces, piece.length = PACKET_HEAD_LEN + PACKET_END_LEN) ∧
      ((∀ r ∈ requests, KnownType r.head.frameType) →
        ((s.serve info cut.pieces).map (fun u => knownTypes u.acted) =
            (s.serve info (requests.map Request.bytes)).map (fun u => knownTypes u.acted) ↔
          ∀ piece ∈ cut.pieces, piece.length = PACKET_HEAD_LEN + PACKET_END_LEN)) := by
  have hwhole : (requests.map Request.bytes).filter
      (fun p => p.length = PACKET_HEAD_LEN + PACKET_END_LEN) = requests.map Request.bytes :=
    List.filter_eq_self.mpr fun p hp => decide_eq_true (length_of_mem_requests hp)
  have hnil : ∀ piece ∈ requests.map Request.bytes, piece ≠ [] := by
    intro piece hp
    refine List.ne_nil_of_length_pos ?_
    rw [length_of_mem_requests hp]
    decide
  obtain ⟨u, hu, hacted⟩ := serve_spec info hs cut.pieces_ne_nil
  obtain ⟨v, hv, hall⟩ := serve_spec info hs hnil
  rw [hwhole] at hall
  refine ⟨⟨?_, fun h => by rw [cut.pieces_eq h]⟩, fun hknown => ⟨?_, fun h => by rw [cut.pieces_eq h]⟩⟩
  · intro heq
    obtain rfl := Option.some.inj (hu.symm.trans (heq.trans hv))
    have hlen := congrArg List.length (List.append_cancel_left (hacted.symm.trans hall))
    rw [List.length_map] at hlen
    exact cut.length_eq_of_count (Nat.le_of_eq hlen.symm)
  · intro heq
    rw [hu, hv, Option.map_some, Option.map_some] at heq
    have hknow := Option.some.inj heq
    rw [hacted, hall, knownTypes_append, knownTypes_append] at hknow
    have hlen := congrArg List.length (List.append_cancel_left hknow)
    rw [length_knownTypes_requests hknown] at hlen
    exact cut.length_eq_of_count (hlen ▸ length_knownTypes_le _)

end Serve

def conRequest : Request where
  head := ⟨PACKET_HEAD_FLAG, PacketType.CON, 1, 1, 0, 0⟩
  tail := ⟨0, PACKET_END_FLAG⟩

theorem halves_flatten : [conRequest.bytes.take 13, conRequest.bytes.drop 13].flatten =
    [conRequest].flatMap Request.bytes := by decide

theorem halves_ne_nil : ∀ piece ∈ [conRequest.bytes.take 13, conRequest.bytes.drop 13], piece ≠ [] := by
  decide

theorem halves_le : ∀ piece ∈ [conRequest.bytes.take 13, conRequest.bytes.drop 13],
    piece.length ≤ PACKET_HEAD_LEN + PACKET_END_LEN := by decide

-- A request in two halves.
def halves : Segmentation [conRequest] :=
  ⟨[conRequest.bytes.take 13, conRequest.bytes.drop 13], halves_flatten, halves_ne_nil, halves_le⟩

def reading : RequestLoop := { data := { pc := .read } }

theorem serve_pieces_iff_halves :
    (reading.serve (fun _ => (0, 0)) halves.pieces).map (fun u => knownTypes u.acted) ≠
      (reading.serve (fun _ => (0, 0)) ([conRequest].map Request.bytes)).map
        (fun u => knownTypes u.acted) := by
  have hknown : ∀ r ∈ [conRequest], KnownType r.head.frameType := by decide
  intro h
  have hfull := (((serve_pieces_iff (fun _ => (0, 0)) reading rfl [conRequest] halves).2 hknown).mp h)
  exact absurd hfull (by decide)

-- The halves are thrown away, and the flag stays down.
theorem serve_halves :
    reading.serve (fun _ => (0, 0)) halves.pieces ≠
        reading.serve (fun _ => (0, 0)) ([conRequest].map Request.bytes) ∧
      (reading.serve (fun _ => (0, 0)) halves.pieces).map (·.data.canSendCon) = some false ∧
      (reading.serve (fun _ => (0, 0)) ([conRequest].map Request.bytes)).map (·.data.canSendCon) =
        some true := by
  decide

end Vcu
