import Vcu.DataReceive

namespace Vcu

open Frames

-- A picture cut by the sender. The packets are numbered from 1 and fit in recvbuffer.
structure Cut (packets : List PicturePacket) : Prop where
  nonempty : packets ≠ []
  numbered : ∀ i p, packets[i]? = some p →
    p.head.curFrame.toNat = i + 1 ∧ p.head.totFrame.toNat = packets.length
  type : ∀ p ∈ packets, p.head.frameType ≠ PacketType.RES
  size : ∀ p ∈ packets, p.head.frameSize.toNat = p.content.length ∧ p.content.length ≤ PACKET_LEN

-- What a picture should arrive as: its bytes, and the id of its last packet.
def picture (packets : List PicturePacket) : List UInt8 × UInt32 :=
  (packets.flatMap PicturePacket.content, (packets.getLast?.map fun p => p.head.picID).getD 0)

-- What the parser has made of some packets: the part of a picture, and the full pictures.
structure Assembly where
  part : List UInt8 := []
  pictures : List (List UInt8 × UInt32) := []

namespace Assembly

-- The part that a packet is appended to.
def start (a : Assembly) (p : PicturePacket) : List UInt8 :=
  if p.head.curFrame = 1 then [] else a.part

def absorb (a : Assembly) (p : PicturePacket) : Assembly :=
  if p.head.curFrame = p.head.totFrame then
    { part := [], pictures := a.pictures ++ [(a.start p ++ p.content, p.head.picID)] }
  else { a with part := a.start p ++ p.content }

def absorbAll (a : Assembly) (packets : List PicturePacket) : Assembly := packets.foldl absorb a

theorem absorbAll_concat (a : Assembly) (packets : List PicturePacket) (p : PicturePacket) :
    a.absorbAll (packets ++ [p]) = (a.absorbAll packets).absorb p := by
  rw [absorbAll, List.foldl_concat]
  rfl

theorem absorbAll_append (a : Assembly) (before after : List PicturePacket) :
    a.absorbAll (before ++ after) = (a.absorbAll before).absorbAll after :=
  List.foldl_append

end Assembly

namespace Cut

variable {packets before after : List PicturePacket} {p : PicturePacket} {a : Assembly}

theorem numbered_split (h : Cut packets) (hsplit : packets = before ++ p :: after) :
    p.head.curFrame.toNat = before.length + 1 ∧ p.head.totFrame.toNat = packets.length := by
  apply h.numbered
  rw [hsplit, List.getElem?_append_right (Nat.le_refl _), Nat.sub_self]
  rfl

theorem curFrame_eq_one_iff (h : Cut packets) (hsplit : packets = before ++ p :: after) :
    p.head.curFrame = 1 ↔ before = [] := by
  have hcur := (h.numbered_split hsplit).1
  have hone : (1 : UInt32).toNat = 1 := rfl
  rw [← UInt32.toNat_inj, hcur, ← List.length_eq_zero_iff, hone]
  omega

theorem curFrame_eq_totFrame_iff (h : Cut packets) (hsplit : packets = before ++ p :: after) :
    p.head.curFrame = p.head.totFrame ↔ after = [] := by
  obtain ⟨hcur, htot⟩ := h.numbered_split hsplit
  rw [← UInt32.toNat_inj, hcur, htot, ← List.length_eq_zero_iff, hsplit, List.length_append,
    List.length_cons]
  omega

-- The packets before the last one only add to the part.
theorem absorbAll_before (h : Cut packets) (hsplit : packets = before ++ after) (hafter : after ≠ []) :
    (a.absorbAll before).pictures = a.pictures ∧
      (before ≠ [] → (a.absorbAll before).part = before.flatMap PicturePacket.content) := by
  induction before using List.reverseRecOn generalizing after with
  | nil => exact ⟨rfl, fun hne => absurd rfl hne⟩
  | append_singleton before p ih =>
      have hsplit' : packets = before ++ p :: after := by
        rw [hsplit, List.append_assoc, List.singleton_append]
      obtain ⟨hpictures, hpart⟩ := ih hsplit' (List.cons_ne_nil _ _)
      have hlast : ¬ p.head.curFrame = p.head.totFrame := fun he =>
        hafter ((h.curFrame_eq_totFrame_iff hsplit').mp he)
      rw [Assembly.absorbAll_concat, Assembly.absorb, if_neg hlast]
      refine ⟨hpictures, fun _ => ?_⟩
      rw [List.flatMap_append, List.flatMap_singleton]
      by_cases hfirst : before = []
      · rw [Assembly.start, if_pos ((h.curFrame_eq_one_iff hsplit').mpr hfirst), hfirst]
        rfl
      · rw [Assembly.start, if_neg fun he => hfirst ((h.curFrame_eq_one_iff hsplit').mp he),
          hpart hfirst]

-- All packets of a picture make the picture, whatever was left before them.
theorem absorbAll_picture (h : Cut packets) (a : Assembly) :
    a.absorbAll packets = { part := [], pictures := a.pictures ++ [picture packets] } := by
  rcases List.eq_nil_or_concat' packets with hnil | ⟨before, p, rfl⟩
  · exact absurd hnil h.nonempty
  · obtain ⟨hpictures, hpart⟩ := h.absorbAll_before (a := a) rfl (List.cons_ne_nil p [])
    have hsplit : before ++ [p] = before ++ p :: [] := rfl
    have hlast := (h.curFrame_eq_totFrame_iff hsplit).mpr rfl
    have hstart : (a.absorbAll before).start p = before.flatMap PicturePacket.content := by
      by_cases hfirst : before = []
      · rw [Assembly.start, if_pos ((h.curFrame_eq_one_iff hsplit).mpr hfirst), hfirst]
        rfl
      · rw [Assembly.start,
          if_neg fun he => hfirst ((h.curFrame_eq_one_iff hsplit).mp he),
          hpart hfirst]
    rw [Assembly.absorbAll_concat, Assembly.absorb, if_pos hlast, hpictures, hstart, picture,
      List.flatMap_append, List.flatMap_singleton, List.getLast?_concat]
    rfl

end Cut

-- A number of packets makes the pictures that end within it.
theorem pictures_absorbAll_take {pictures : List (List PicturePacket)}
    (hcut : ∀ packets ∈ pictures, Cut packets) (a : Assembly) (n : Nat) :
    (a.absorbAll (pictures.flatten.take n)).pictures =
      a.pictures ++ (pictures.take (complete pictures n)).map picture := by
  induction pictures generalizing a n with
  | nil =>
      rw [List.flatten_nil, List.take_nil, List.take_nil, List.map_nil, List.append_nil]
      rfl
  | cons packets pictures ih =>
      have hpackets := hcut packets (List.mem_cons_self ..)
      rw [List.flatten_cons, List.take_append, complete]
      by_cases hfull : packets.length ≤ n
      · rw [if_pos hfull, List.take_of_length_le hfull, Assembly.absorbAll_append,
          hpackets.absorbAll_picture, ih (fun q hq => hcut q (List.mem_cons_of_mem _ hq)),
          List.take_succ_cons, List.map_cons, List.append_assoc, List.singleton_append]
      · have hrest : packets.drop n ≠ [] := by
          rw [ne_eq, List.drop_eq_nil_iff]
          exact hfull
        have hbefore := hpackets.absorbAll_before (a := a) (List.take_append_drop n packets).symm hrest
        rw [if_neg hfull, Nat.sub_eq_zero_of_le (by omega), List.take_zero, List.append_nil, hbefore.1,
          List.take_zero, List.map_nil, List.append_nil]

end Vcu
