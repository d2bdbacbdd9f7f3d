import Vcu.DataReceive.Handshake

namespace Vcu.DataReceive

open Machine Frames

variable {pictures : List (List PicturePacket)} {es : List DataReceiveEvent}

-- Every acknowledged packet is appended once and in order, every picture is handed on once and in
-- order, the writes stay in their blocks, and no packet stays unacknowledged for good.
structure Reassembled (pictures : List (List PicturePacket)) (s : DataReceive) : Prop where
  appended : ∃ m, s.acked ≤ m ∧ m ≤ s.sent ∧
    s.appended = (pictures.flatten.take m).map PicturePacket.content
  handed : ∃ n, s.acked ≤ n ∧ n ≤ s.sent ∧
    s.rgbData = (pictures.take (complete pictures n)).map picture
  inBounds : s.arr.overrun = false ∧ s.pic.overrun = false
  progress : s.acked < s.sent → s.receive.isSome ∨ s.parser.isSome

-- What receive_thread stores next has room in arr.
def roomForNext (_ : List DataReceiveEvent) (s : DataReceive) : DataReceiveEvent → Prop
  | .receive => RoomFor s
  | _ => True

theorem step_inv {packets : List PicturePacket} {s t : DataReceive} {e : DataReceiveEvent}
    (hsendable : ∀ p ∈ packets, Sendable p) (h : Inv packets s) (hroom : roomForNext [] s e)
    (ht : step packets s e = some t) : Inv packets t := by
  cases e with
  | send => exact send_inv h ht
  | res datagram => exact res_inv h ht
  | receive => exact receive_inv hsendable h hroom ht
  | parser => exact parser_inv hsendable h ht

theorem Inv.reassembled {s : DataReceive} (hcut : ∀ packets ∈ pictures, Cut packets)
    (h : Inv pictures.flatten s) : Reassembled pictures s := by
  obtain ⟨happended, n, hle, hlt, hrgb⟩ := h.bookkeeping
  refine ⟨happended, ⟨n, hle, hlt, ?_⟩, ⟨h.bounds.arr.1, h.bounds.pic.1⟩, h.progress⟩
  rw [hrgb, made, pictures_absorbAll_take hcut]
  rfl

theorem sendable_flatten (hcut : ∀ packets ∈ pictures, Cut packets) :
    ∀ p ∈ pictures.flatten, Sendable p := by
  intro p hp
  obtain ⟨packets, hmem, hp⟩ := List.mem_flatten.mp hp
  exact (hcut packets hmem).sendable hp

theorem run_inv (hcut : ∀ packets ∈ pictures, Cut packets)
    (hroom : Along (step pictures.flatten) roomForNext {} es) {s : DataReceive}
    (hs : run (step pictures.flatten) {} es = some s) : Inv pictures.flatten s :=
  run_invariant_along roomForNext (fun _ s => Inv pictures.flatten s) (inv_init _)
    (fun _ _ _ _ h hnext ht => step_inv (sendable_flatten hcut) h hnext ht) hroom hs

-- Pictures arrive whole along a run exactly if every packet finds room in arr.
theorem reassembled_iff (hcut : ∀ packets ∈ pictures, Cut packets) :
    (∀ before s, before <+: es → run (step pictures.flatten) {} before = some s →
        Reassembled pictures s) ↔
      Along (step pictures.flatten) roomForNext {} es := by
  constructor
  · intro hall
    induction es using List.reverseRecOn with
    | nil => exact along_nil
    | append_singleton es e ih =>
        have hes := ih fun before s hpre => hall before s (hpre.trans (List.prefix_append es [e]))
        refine along_concat.mpr ⟨hes, fun s hs => ?_⟩
        cases e with
        | receive =>
            intro recvbuffer hpc
            have hinv := run_inv hcut hes hs
            have hstored : run (step pictures.flatten) {} (es ++ [.receive]) = some { s with
                arr := s.arr.append recvbuffer
                lastPacketSize := recvbuffer.length
                recvPc := .release } := by
              rw [run_concat, hs, Option.bind_some, step, receive, hpc]
            exact ByteArray.growsEnough_of_append hinv.bounds.arr
              (hall _ _ (List.prefix_refl _) hstored).inBounds.1
        | send => exact trivial
        | res datagram => exact trivial
        | parser => exact trivial
  · rintro hroom before s ⟨after, rfl⟩ hs
    exact (run_inv hcut hroom.of_append hs).reassembled hcut

section Examples

-- Packet `i + 1` of a picture with type CON.
def packetOf (contents : List (List UInt8)) (i : Nat) (content : List UInt8) : PicturePacket where
  head :=
    { headIden := PACKET_HEAD_FLAG, frameType := 0x01, curFrame := UInt32.ofNat (i + 1)
      totFrame := UInt32.ofNat contents.length, frameSize := UInt32.ofNat content.length, picID := 7 }
  content := content
  tail := { frameTime := 0 }

def pictureOf (contents : List (List UInt8)) : List PicturePacket :=
  contents.mapIdx (packetOf contents)

-- One packet's way, with the given number of steps of parser_thread.
def packetEvents (steps : Nat) : List DataReceiveEvent :=
  [.send, .receive, .receive, .receive] ++ List.replicate steps .parser ++ [.receive, .receive]

theorem cut_pictureOf {contents : List (List UInt8)} (hne : contents ≠ [])
    (hlength : contents.length < 4294967296) (hfits : ∀ content ∈ contents, content.length ≤ PACKET_LEN) :
    Cut (pictureOf contents) where
  nonempty := by
    rw [pictureOf, ne_eq, List.mapIdx_eq_nil_iff]
    exact hne
  numbered := by
    intro i p hp
    obtain ⟨content, hget, rfl⟩ := by
      rw [pictureOf, List.getElem?_mapIdx, Option.map_eq_some_iff] at hp
      exact hp
    have hlt := (List.getElem?_eq_some_iff.mp hget).1
    rw [pictureOf, List.length_mapIdx]
    exact ⟨UInt32.toNat_ofNat_of_lt' (Nat.lt_of_le_of_lt hlt hlength), UInt32.toNat_ofNat_of_lt' hlength⟩
  type := by
    intro p hp
    obtain ⟨i, hi, rfl⟩ := List.mem_mapIdx.mp hp
    show (0x01 : UInt8) ≠ PacketType.RES
    decide
  size := by
    intro p hp
    obtain ⟨i, hi, rfl⟩ := List.mem_mapIdx.mp hp
    have hfits := hfits contents[i] (List.getElem_mem hi)
    have hsmall : PACKET_LEN < 4294967296 := by decide
    exact ⟨UInt32.toNat_ofNat_of_lt' (Nat.lt_of_le_of_lt hfits hsmall), hfits⟩

def roomCheck (s : DataReceive) : DataReceiveEvent → Bool
  | .receive =>
      match s.recvPc with
      | .append recvbuffer => s.arr.dataSize + recvbuffer.length < 2 * s.arr.capacity
      | _ => true
  | _ => true

theorem roomForNext_of_check {before : List DataReceiveEvent} {s : DataReceive} {e : DataReceiveEvent}
    (h : roomCheck s e = true) : roomForNext before s e := by
  cases e with
  | receive =>
      intro recvbuffer hpc
      rw [roomCheck, hpc] at h
      exact .inl (of_decide_eq_true h)
  | send => exact trivial
  | res datagram => exact trivial
  | parser => exact trivial

end Examples

-- A picture of two packets.
theorem reassembled_iff_two :
    let picture := pictureOf [[1, 2], [3]]
    let es := packetEvents 6 ++ packetEvents 8
    (run (step [picture].flatten) {} es).map (fun s => (s.acked, s.rgbData)) = some (2, [([1, 2, 3], 7)]) ∧
      ∀ before s, before <+: es → run (step [picture].flatten) {} before = some s →
        Reassembled [picture] s := by
  have hcut : ∀ packets ∈ [pictureOf [[1, 2], [3]]], Cut packets := by
    intro packets hmem
    rw [List.mem_singleton.mp hmem]
    exact cut_pictureOf (by decide) (by decide) (by decide)
  refine ⟨by decide +kernel, (reassembled_iff hcut).mpr ?_⟩
  exact along_of_check roomCheck (fun _ _ _ => roomForNext_of_check) (by decide +kernel)

-- The first packet leaves 127 bytes that are cleared, the second one 1023. The third one asks for
-- 1051 more, and doubling makes room for 2048.
theorem not_reassembled_doubled :
    let picture := pictureOf [List.replicate 100 1, List.replicate 996 2, List.replicate 1024 3]
    let es := packetEvents 6 ++ packetEvents 5 ++ [.send, .receive, .receive]
    Cut picture ∧ ∃ s, run (step [picture].flatten) {} es = some s ∧ ¬ Reassembled [picture] s := by
  have hcut : Cut (pictureOf [List.replicate 100 1, List.replicate 996 2, List.replicate 1024 3]) :=
    cut_pictureOf (by decide) (by decide) (by decide +kernel)
  have hover : ∃ s, run (step [pictureOf
      [List.replicate 100 1, List.replicate 996 2, List.replicate 1024 3]].flatten) {}
      (packetEvents 6 ++ packetEvents 5 ++ [.send, .receive, .receive]) = some s ∧
        s.arr.overrun = true := by
    rw [← Option.any_eq_true]
    decide +kernel
  obtain ⟨s, hs, hover⟩ := hover
  refine ⟨hcut, s, hs, fun h => ?_⟩
  rw [h.inBounds.1] at hover
  cases hover

end Vcu.DataReceive
