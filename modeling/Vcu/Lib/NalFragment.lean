import Mathlib.Data.List.Basic

-- NAL units in RTP packets, for any codec. A unit travels whole in one packet or in
-- fragments that repeat its header in a changed form.
namespace NalFragment

abbrev FixedHeader := Vector UInt8 12

structure Packet where
  rtp : FixedHeader
  payload : List UInt8

def Packet.bytes (p : Packet) : List UInt8 := p.rtp.toList ++ p.payload

def marked (rtp : FixedHeader) : Bool := rtp[1] &&& 0x80 != 0

-- The bytes of a unit header in front of the whole unit, and in front of a fragment with
-- the given start and end bits.
structure Format (H : Type*) where
  whole : H → List UInt8
  fragment : Bool → Bool → H → List UInt8

-- The fragmentation bits S and E, with R zero.
def flags (first last : Bool) : UInt8 := (if first then 0x80 else 0) ||| (if last then 0x40 else 0)

-- RFC 6184, with a one-byte header and FU-A fragments of type 28.
def avc : Format UInt8 where
  whole h := [h]
  fragment first last h := [(h &&& 0xe0) ||| 28, flags first last ||| (h &&& 0x1f)]

-- RFC 7798, with a two-byte header and fragments of type 49, that is 0x62 in place. The type sits in the bits 1 to 6
-- of the first byte, whose lowest bit is the top bit of the layer id.
def hevc : Format (UInt8 × UInt8) where
  whole h := [h.1, h.2]
  fragment first last h :=
    [(h.1 &&& 0x81) ||| 0x62, h.2, flags first last ||| ((h.1 >>> 1) &&& 0x3f)]

-- A fragment with its own fixed header.
abbrev Piece := FixedHeader × List UInt8

-- A unit together with one way of sending it.
inductive Sending (H : Type*) where
  | whole (rtp : FixedHeader) (header : H) (body : List UInt8)
  | fragments (header : H) (first : Piece) (middle : List Piece) (last : Piece)

namespace Sending

variable {H : Type*}

def header : Sending H → H
  | .whole _ header _ => header
  | .fragments header _ _ _ => header

-- The bytes after the unit header.
def body : Sending H → List UInt8
  | .whole _ _ body => body
  | .fragments _ first middle last => first.2 ++ middle.flatMap Prod.snd ++ last.2

def unit (f : Format H) (x : Sending H) : List UInt8 := f.whole x.header ++ x.body

def fragmented : Sending H → Bool
  | .whole .. => false
  | .fragments .. => true

def packets (f : Format H) : Sending H → List Packet
  | .whole rtp header body => [⟨rtp, f.whole header ++ body⟩]
  | .fragments header first middle last =>
      ⟨first.1, f.fragment true false header ++ first.2⟩ ::
        (middle.map fun piece => ⟨piece.1, f.fragment false false header ++ piece.2⟩) ++
        [⟨last.1, f.fragment false true header ++ last.2⟩]

-- The marker bits the fragments of one unit carry when it ends a picture of its own.
def EndsMarked : Sending H → Prop
  | .whole .. => True
  | .fragments _ first _ last => marked first.1 = false ∧ marked last.1 = true

theorem packets_ne_nil (f : Format H) (x : Sending H) : x.packets f ≠ [] := by
  cases x <;> simp [packets]

end Sending

-- Two concatenations of blocks that agree in length agree only block by block.
theorem flatMap_eq_iff {α β : Type*} {f g : α → List β} {l : List α}
    (hlen : ∀ x ∈ l, (f x).length = (g x).length) :
    l.flatMap f = l.flatMap g ↔ ∀ x ∈ l, f x = g x := by
  induction l with
  | nil => simp
  | cons x rest ih =>
      have hx := hlen x (by simp)
      have hrest := ih fun y hy => hlen y (List.mem_cons_of_mem _ hy)
      constructor
      · intro h
        obtain ⟨hf, hg⟩ := List.append_inj h hx
        intro y hy
        rcases List.mem_cons.mp hy with rfl | hy
        · exact hf
        · exact hrest.mp hg y hy
      · intro h
        simp only [List.flatMap_cons, h x (by simp),
          hrest.mpr fun y hy => h y (List.mem_cons_of_mem _ hy)]

-- A property of bytes is checked on the 256 bit vectors.
theorem forall_byte {p : UInt8 → Prop} (h : ∀ b : BitVec 8, p (UInt8.ofBitVec b)) (x : UInt8) :
    p x :=
  h x.toBitVec

end NalFragment
