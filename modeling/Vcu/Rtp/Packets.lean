import Vcu.Rtp.Parser.Lemmas

namespace Vcu

open NalFragment

theorem length_rtp (rtp : FixedHeader) : rtp.toList.length = 12 := Vector.length_toList

theorem byteAt_rtp (rtp : FixedHeader) (payload : List UInt8) (i : Nat) (hi : i < 12) :
    byteAt (rtp.toList ++ payload) i = rtp[i] := by
  have hl : i < rtp.toList.length := by rwa [length_rtp]
  simp only [byteAt, List.getD_eq_getElem?_getD]
  rw [List.getElem?_append_left hl, List.getElem?_eq_getElem hl, Vector.getElem_toList]
  rfl

theorem byteAt_payload (rtp : FixedHeader) (payload : List UInt8) (i : Nat) :
    byteAt (rtp.toList ++ payload) (12 + i) = payload.getD i 0 := by
  simp only [byteAt, List.getD_eq_getElem?_getD]
  rw [List.getElem?_append_right (by rw [length_rtp]; omega), length_rtp, Nat.add_sub_cancel_left]

theorem drop_payload (rtp : FixedHeader) (payload : List UInt8) (i : Nat) :
    (rtp.toList ++ payload).drop (12 + i) = payload.drop i := by
  rw [List.drop_append, length_rtp, List.drop_eq_nil_of_le (by rw [length_rtp]; omega),
    List.nil_append, Nat.add_sub_cancel_left]

theorem length_datagram (rtp : FixedHeader) (payload : List UInt8) :
    (rtp.toList ++ payload).length = 12 + payload.length := by
  rw [List.length_append, length_rtp]

theorem markOf_rtp (rtp : FixedHeader) (payload : List UInt8) :
    markOf (rtp.toList ++ payload) = marked rtp := by
  rw [markOf, byteAt_rtp rtp payload 1 (by omega)]
  rfl

-- Fixed headers without and with the marker bit.
def plainRtp : FixedHeader := Vector.replicate 12 0

def markedRtp : FixedHeader := #v[0, 0x80, 0, 0, 0, 0, 0, 0, 0, 0, 0, 0]

-- The marker bit that the parsers expect of a fragment.
def fragmentMark (first last : Bool) : Option Bool :=
  if first then some false else if last then some true else none

-- The sender's side of a codec. `sendable` says which headers a unit may have, depending on
-- whether it is fragmented, and `rebuilt` what the parser puts in front of a fragmented unit.
structure Wire (type : CodecType) (H : Type) where
  format : Format H
  sendable : Bool → H → Prop
  rebuilt : H → List UInt8
  key : H → UInt8
  length_rebuilt : ∀ h, (rebuilt h).length = (format.whole h).length
  whole_key : ∀ (rtp : FixedHeader) h body, byteAt (rtp.toList ++ (format.whole h ++ body)) 12 = key h
  fragment_key : ∀ (rtp : FixedHeader) first last h chunk,
    byteAt (rtp.toList ++ (format.fragment first last h ++ chunk)) 12 ≠ startByte type
  whole_nonempty : ∀ h, 1 ≤ (format.whole h).length
  fragment_nonempty : ∀ first last h, 1 ≤ (format.fragment first last h).length
  whole_view : ∀ (rtp : FixedHeader) h body, sendable false h →
    payloadView type (rtp.toList ++ (format.whole h ++ body)) = some ⟨[iden], 12, none⟩
  fragment_view : ∀ (rtp : FixedHeader) first last h chunk, sendable true h → ∃ v,
    payloadView type (rtp.toList ++ (format.fragment first last h ++ chunk)) = some v ∧
      v.skip = 12 + (format.fragment first last h).length ∧
      v.mark = fragmentMark first last ∧
      v.lead.flatten = if first then iden ++ rebuilt h else []

theorem avc_key (h : UInt8) : ((h &&& 0xe0) ||| 28) &&& 0x1f = 28 := by
  revert h
  exact forall_byte (by decide +kernel)

theorem avc_start (h : UInt8) : ((h &&& 0xe0) ||| 28) ≠ 0x67 := by
  revert h
  exact forall_byte (by decide +kernel)

-- The indicator keeps the top bits of the header and the fragment header the others.
theorem avc_rebuilt (h : UInt8) (last : Bool) :
    (((h &&& 0xe0) ||| 28) &&& 0xe0) ||| ((flags true last ||| (h &&& 0x1f)) &&& 0x1f) = h := by
  revert h
  cases last <;> exact forall_byte (by decide +kernel)

theorem flags_start (first last : Bool) (b : UInt8) :
    ((flags first last ||| (b &&& 0x3f)) &&& 0x80 ≠ 0) = (first = true) := by
  revert b
  cases first <;> cases last <;> exact forall_byte (by decide +kernel)

theorem flags_end (first last : Bool) (b : UInt8) :
    ((flags first last ||| (b &&& 0x3f)) &&& 0x40 ≠ 0) = (last = true) := by
  revert b
  cases first <;> cases last <;> exact forall_byte (by decide +kernel)

theorem low_bits (b : UInt8) : b &&& 0x1f = (b &&& 0x1f) &&& 0x3f := by
  revert b
  exact forall_byte (by decide +kernel)

theorem hevc_key (h : UInt8) : (((h &&& 0x81) ||| 0x62) >>> 1) &&& 0x3f = 49 := by
  revert h
  exact forall_byte (by decide +kernel)

theorem hevc_start (h : UInt8) : ((h &&& 0x81) ||| 0x62) ≠ 0x40 := by
  revert h
  exact forall_byte (by decide +kernel)

-- The parser keeps the F bit of the payload header and the type from the fragment header. The
-- lowest bit, which belongs to the layer id, is lost.
theorem hevc_rebuilt (h : UInt8) (last : Bool) :
    (((flags true last ||| ((h >>> 1) &&& 0x3f)) &&& 0x3f) <<< 1) |||
      (((h &&& 0x81) ||| 0x62) &&& 0x80) = h &&& 0xfe := by
  revert h
  cases last <;> exact forall_byte (by decide +kernel)

def wire264 : Wire .H264 UInt8 where
  format := avc
  sendable fragmented h := fragmented = true ∨ 1 ≤ h &&& 0x1f ∧ h &&& 0x1f ≤ 23
  rebuilt h := [h]
  key h := h
  length_rebuilt _ := rfl
  whole_key rtp h body := byteAt_payload rtp ([h] ++ body) 0
  fragment_key rtp first last h chunk := by
    have hk := byteAt_payload rtp (avc.fragment first last h ++ chunk) 0
    rw [hk]
    exact avc_start h
  whole_nonempty _ := Nat.le_refl 1
  fragment_nonempty _ _ _ := Nat.le_succ 1
  whole_view rtp h body hs := by
    have hk : byteAt (rtp.toList ++ (avc.whole h ++ body)) 12 = h :=
      byteAt_payload rtp ([h] ++ body) 0
    have hlt : h &&& 0x1f < 24 := by
      have := hs.resolve_left Bool.false_ne_true
      grind
    simp only [payloadView, hk, hlt, if_true]
  fragment_view rtp first last h chunk _ := by
    have hk : byteAt (rtp.toList ++ (avc.fragment first last h ++ chunk)) 12 =
        (h &&& 0xe0) ||| 28 := byteAt_payload rtp (avc.fragment first last h ++ chunk) 0
    have hf : byteAt (rtp.toList ++ (avc.fragment first last h ++ chunk)) 13 =
        flags first last ||| (h &&& 0x1f) := byteAt_payload rtp (avc.fragment first last h ++ chunk) 1
    have hn : ¬ (28 : UInt8) < 24 := by decide
    simp only [payloadView, hk, hf, avc_key, hn, if_true, if_false]
    rw [low_bits h]
    simp only [flags_start, flags_end, fragmentMark]
    cases first <;> cases last <;> simp [avc, ← low_bits, avc_rebuilt]

theorem hevc_type (b : UInt8) (hb : b ≤ 47) : b ≠ 49 ∧ b ≠ 48 := by
  constructor
  · rintro rfl
    exact absurd hb (by decide)
  · rintro rfl
    exact absurd hb (by decide)

def wire265 : Wire .H265 (UInt8 × UInt8) where
  format := hevc
  sendable _ h := (h.1 >>> 1) &&& 0x3f ≤ 47
  rebuilt h := [h.1 &&& 0xfe, h.2]
  key h := h.1
  length_rebuilt _ := rfl
  whole_key rtp h body := byteAt_payload rtp ([h.1, h.2] ++ body) 0
  fragment_key rtp first last h chunk := by
    have hk := byteAt_payload rtp (hevc.fragment first last h ++ chunk) 0
    rw [hk]
    exact hevc_start h.1
  whole_nonempty _ := Nat.le_succ 1
  fragment_nonempty _ _ _ := Nat.succ_le_succ (Nat.zero_le 2)
  whole_view rtp h body hs := by
    have hk : byteAt (rtp.toList ++ (hevc.whole h ++ body)) 12 = h.1 :=
      byteAt_payload rtp ([h.1, h.2] ++ body) 0
    obtain ⟨hf, ha⟩ := hevc_type _ hs
    simp only [payloadView, hk, hf, ha, if_false]
  fragment_view rtp first last h chunk _ := by
    have hk : byteAt (rtp.toList ++ (hevc.fragment first last h ++ chunk)) 12 =
        (h.1 &&& 0x81) ||| 0x62 := byteAt_payload rtp (hevc.fragment first last h ++ chunk) 0
    have hb : byteAt (rtp.toList ++ (hevc.fragment first last h ++ chunk)) 13 = h.2 :=
      byteAt_payload rtp (hevc.fragment first last h ++ chunk) 1
    have hf : byteAt (rtp.toList ++ (hevc.fragment first last h ++ chunk)) 14 =
        flags first last ||| ((h.1 >>> 1) &&& 0x3f) :=
      byteAt_payload rtp (hevc.fragment first last h ++ chunk) 2
    simp only [payloadView, hk, hb, hf, hevc_key, if_true, flags_start, flags_end, fragmentMark]
    cases first <;> cases last <;> simp [hevc, hevc_rebuilt]

abbrev NalHeader : CodecType → Type
  | .H264 => UInt8
  | .H265 => UInt8 × UInt8

def wire : (type : CodecType) → Wire type (NalHeader type)
  | .H264 => wire264
  | .H265 => wire265

end Vcu
