import Vcu.Rtp.Parser.Lemmas

namespace Vcu

open NalFragment

-- A read or a length that leaves the datagram.
def OutOfRange {α : Type} (result : Except Fault α) : Prop :=
  ∃ f, result = .error f ∧ f.isCheck = false

def isFu : CodecType → UInt8 → Bool
  | .H264, key => key &&& 0x1f == 28
  | .H265, key => (key >>> 1) &&& 0x3f == 49

-- Where the payload of a fragment begins.
def fuPayload : CodecType → Nat
  | .H264 => 14
  | .H265 => 15

-- The datagrams that the path from the socket to the packet buffer can take. While boxes are
-- wanted a NAL header must follow the fixed header, and a fragment needs its own header too
-- once the parser has started.
def LongEnough (type : CodecType) (needBox isStart : Bool) (p : List UInt8) : Prop :=
  12 ≤ p.length ∧
    (needBox = true → 13 ≤ p.length ∧
      (isStart = true → isFu type (byteAt p 12) = true → fuPayload type ≤ p.length))

section Short

variable {p : List UInt8} {i : Nat}

theorem readByte_outOfRange (h : p.length ≤ i) : OutOfRange (readByte p i) :=
  ⟨_, readByte_error h, rfl⟩

theorem OutOfRange.bind {α β : Type} {result : Except Fault α} (h : OutOfRange result)
    (f : α → Except Fault β) : OutOfRange (result >>= f) := by
  obtain ⟨fault, rfl, hf⟩ := h
  exact ⟨fault, rfl, hf⟩

theorem readShort_outOfRange (h : p.length ≤ i + 1) : OutOfRange (readShort p i) := by
  by_cases hi : p.length ≤ i
  · exact (readByte_outOfRange hi).bind _
  · rw [readShort, readByte_ok (by omega), ok_bind]
    exact (readByte_outOfRange h).bind _

theorem readInt_outOfRange (h : p.length ≤ i + 3) : OutOfRange (readInt p i) := by
  by_cases hi : p.length ≤ i + 1
  · exact (readShort_outOfRange hi).bind _
  · obtain ⟨high, hh⟩ := readShort_ok (p := p) (i := i) (by omega)
    rw [readInt, hh, ok_bind]
    exact (readShort_outOfRange h).bind _

-- The fields are read in the order of the header, so the first one cut off is the fault.
theorem getRtpHeader_outOfRange (h : p.length < 12) : OutOfRange (getRtpHeader p) := by
  by_cases h0 : p.length ≤ 0
  · exact (readByte_outOfRange h0).bind _
  rw [getRtpHeader, readByte_ok (by omega), ok_bind]
  by_cases h1 : p.length ≤ 1
  · exact (readByte_outOfRange h1).bind _
  rw [readByte_ok (by omega), ok_bind]
  by_cases h2 : p.length ≤ 3
  · exact (readShort_outOfRange h2).bind _
  obtain ⟨seq, hs⟩ := readShort_ok (p := p) (i := 2) (by omega)
  rw [hs, ok_bind]
  by_cases h4 : p.length ≤ 7
  · exact (readInt_outOfRange h4).bind _
  obtain ⟨time, ht⟩ := readInt_ok (p := p) (i := 4) (by omega)
  rw [ht, ok_bind]
  exact (readInt_outOfRange (by omega)).bind _

end Short

section Datagram

variable {type : CodecType} {box : Bool} {t : ParserThread} {p : List UInt8}

theorem parserRtp_outOfRange_header {m : RtpModel} (hp : m.pdata = p) (h : p.length < 12) :
    OutOfRange (parserRtp type box m t) := by
  cases type with
  | H264 =>
      rw [parserRtp, parserRtpH264, hp]
      exact (getRtpHeader_outOfRange h).bind _
  | H265 =>
      rw [parserRtp, parserRtpH265, hp]
      exact (getRtpHeader_outOfRange h).bind _

theorem parserRtp_outOfRange_key {m : RtpModel} (hp : m.pdata = p) (h : p.length = 12) :
    OutOfRange (parserRtp type true m t) := by
  obtain ⟨header, hh, -⟩ := getRtpHeader_ok (Nat.le_of_eq h.symm)
  have hb := readByte_error (p := p) (i := 12) (Nat.le_of_eq h)
  cases type with
  | H264 =>
      rw [parserRtp, parserRtpH264, hp, hh, ok_bind]
      simp only [hb, error_bind, Bool.not_true, Bool.false_eq_true, if_false]
      exact ⟨_, rfl, rfl⟩
  | H265 =>
      rw [parserRtp, parserRtpH265, hp, hh, ok_bind]
      simp only [hb, error_bind, Bool.not_true, Bool.false_eq_true, if_false]
      exact ⟨_, rfl, rfl⟩

theorem payloadView_skip {v : PayloadView} (hv : payloadView type p = some v) :
    v.skip = if isFu type (byteAt p 12) then fuPayload type else 12 := by
  cases type with
  | H264 =>
      simp only [payloadView] at hv
      simp only [isFu, fuPayload, beq_iff_eq]
      split at hv
      · rename_i hlt
        have hne : byteAt p 12 &&& 0x1f ≠ 28 := by
          intro he
          rw [he] at hlt
          exact absurd hlt (by decide)
        obtain rfl := Option.some.inj hv
        rw [if_neg hne]
      · split at hv
        · rename_i hfu
          rw [if_pos hfu]
          split at hv
          · obtain rfl := Option.some.inj hv
            rfl
          · split at hv <;> obtain rfl := Option.some.inj hv <;> rfl
        · cases hv
  | H265 =>
      simp only [payloadView] at hv
      simp only [isFu, fuPayload, beq_iff_eq]
      split at hv
      · rename_i hfu
        rw [if_pos hfu]
        split at hv
        · obtain rfl := Option.some.inj hv
          rfl
        · split at hv <;> obtain rfl := Option.some.inj hv <;> rfl
      · rename_i hfu
        split at hv
        · cases hv
        · obtain rfl := Option.some.inj hv
          rw [if_neg hfu]

-- The start byte of either codec is not the type of a fragment.
theorem isFu_startByte (type : CodecType) : isFu type (startByte type) = false := by
  cases type <;> decide

theorem isFu_view (h : isFu type (byteAt p 12) = true) : ∃ v, payloadView type p = some v := by
  cases type with
  | H264 =>
      have hk : byteAt p 12 &&& 0x1f = 28 := by simpa [isFu] using h
      have hn : ¬ (28 : UInt8) < 24 := by decide
      simp only [payloadView, hk, hn, if_true, if_false]
      split
      · exact ⟨_, rfl⟩
      · split <;> exact ⟨_, rfl⟩
  | H265 =>
      have hk : (byteAt p 12 >>> 1) &&& 0x3f = 49 := by simpa [isFu] using h
      simp only [payloadView, hk, if_true]
      split
      · exact ⟨_, rfl⟩
      · split <;> exact ⟨_, rfl⟩

theorem handleDatagram_outOfRange_of_parse (h : 4 ≤ p.length)
    (hr : ∀ m : RtpModel, m.pdata = p → OutOfRange (parserRtp type box m t)) :
    OutOfRange (handleDatagram type box p t) := by
  obtain ⟨m, hp, -, hm⟩ := handleDatagram_eq type box t h
  rw [hm, parserThreadParse]
  exact (hr m hp).bind _

theorem handleDatagram_outOfRange (h : ¬ LongEnough type box t.isStart p) :
    OutOfRange (handleDatagram type box p t) := by
  by_cases h4 : p.length < 4
  · exact ((readShort_outOfRange (by omega)).bind _).bind _
  by_cases h12 : p.length < 12
  · exact handleDatagram_outOfRange_of_parse (by omega) fun m hp => parserRtp_outOfRange_header hp h12
  cases box with
  | false => exact absurd ⟨by omega, nofun⟩ h
  | true =>
      by_cases h13 : p.length = 12
      · exact handleDatagram_outOfRange_of_parse (by omega) fun m hp => parserRtp_outOfRange_key hp h13
      have hn : ¬ (t.isStart = true → isFu type (byteAt p 12) = true → fuPayload type ≤ p.length) :=
        fun hf => h ⟨by omega, fun _ => ⟨by omega, hf⟩⟩
      simp only [Classical.not_imp, Nat.not_le] at hn
      obtain ⟨hs, hfu, hlt⟩ := hn
      obtain ⟨v, hv⟩ := isFu_view hfu
      have hskip : ¬ v.skip ≤ p.length := by
        rw [payloadView_skip hv, if_pos hfu]
        omega
      exact handleDatagram_short (by omega) (.inl hs) hv hskip

-- The short packets apart, a packet goes through unless a check fails.
theorem handleDatagram_inRange (h : LongEnough type box t.isStart p) :
    ¬ OutOfRange (handleDatagram type box p t) := by
  rintro ⟨f, hf, hc⟩
  obtain ⟨h12, hbox⟩ := h
  cases box with
  | false =>
      obtain ⟨u, hu, -⟩ := handleDatagram_boxless type t h12
      rw [hu] at hf
      cases hf
  | true =>
      obtain ⟨h13, hfu⟩ := hbox rfl
      by_cases hs : t.isStart = true ∨ byteAt p 12 = startByte type
      swap
      · obtain ⟨hs, hk⟩ := not_or.mp hs
        obtain ⟨u, hu, -⟩ := handleDatagram_silent h13 (.inr ⟨by simpa using hs, hk⟩)
        rw [hu] at hf
        cases hf
      cases hv : payloadView type p with
      | none =>
          rw [handleDatagram_reject h13 hs hv] at hf
          cases hf
          cases hc
      | some v =>
          have hskip : v.skip ≤ p.length := by
            rw [payloadView_skip hv]
            split
            · rename_i hfu'
              rcases hs with hs | hs
              · exact hfu hs hfu'
              · rw [hs, isFu_startByte] at hfu'
                cases hfu'
            · omega
          by_cases ha : v.allows p
          · obtain ⟨time, u, hu, -⟩ := handleDatagram_emits h13 hs hv hskip ha
            rw [hu] at hf
            cases hf
          · obtain ⟨exp, he⟩ := handleDatagram_check h13 hs hv hskip ha
            rw [he] at hf
            cases hf
            cases hc

-- Exactly the datagrams that are long enough are read inside their bounds.
theorem datagram_inRange_iff (type : CodecType) (needBox : Bool) (t : ParserThread)
    (p : List UInt8) :
    ¬ OutOfRange (handleDatagram type needBox p t) ↔ LongEnough type needBox t.isStart p :=
  ⟨fun h => Classical.not_not.mp fun hn => h (handleDatagram_outOfRange hn), handleDatagram_inRange⟩

-- A fixed header without a payload.
def bareHeader : List UInt8 := [0x80, 0x60, 0, 1, 0, 0, 0, 0, 0, 0, 0, 1]

theorem bareHeader_outOfRange :
    ¬ ∀ (type : CodecType) (needBox : Bool) (t : ParserThread) (p : List UInt8),
      1 ≤ p.length → p.length ≤ 1500 → ¬ OutOfRange (handleDatagram type needBox p t) := by
  intro h
  refine h .H264 true {} bareHeader (by decide) (by decide) (handleDatagram_outOfRange ?_)
  intro hl
  exact absurd (hl.2 rfl).1 (by decide)

theorem payloadView_lead {v : PayloadView} (hv : payloadView type p = some v) :
    v.lead.flatten.length + 12 ≤ v.skip + 4 := by
  cases type with
  | H264 =>
      simp only [payloadView] at hv
      split at hv
      · obtain rfl := Option.some.inj hv
        decide
      · split at hv
        · split at hv
          · obtain rfl := Option.some.inj hv
            simp [iden]
          · split at hv <;> obtain rfl := Option.some.inj hv <;> simp
        · cases hv
  | H265 =>
      simp only [payloadView] at hv
      split at hv
      · split at hv
        · obtain rfl := Option.some.inj hv
          simp [iden]
        · split at hv <;> obtain rfl := Option.some.inj hv <;> simp
      · split at hv
        · cases hv
        · obtain rfl := Option.some.inj hv
          decide

-- The packet buffer between two packets. It has at least its first capacity.
def Roomy (a : ByteArray) : Prop := a.WellFormed ∧ a.dataSize = 0 ∧ 1024 ≤ a.capacity

theorem roomy_init : Roomy {} := ⟨ByteArray.wellFormed_init, rfl, Nat.le_refl _⟩

theorem appendAll_wellFormed {a : ByteArray} {pieces : List (List UInt8)} (ha : a.WellFormed)
    (hs : a.dataSize + pieces.flatten.length < 2 * a.capacity) :
    (appendAll a pieces).WellFormed ∧ a.capacity ≤ (appendAll a pieces).capacity := by
  induction pieces generalizing a with
  | nil => exact ⟨ha, Nat.le_refl _⟩
  | cons s rest ih =>
      simp only [List.flatten_cons, List.length_append] at hs
      obtain ⟨hw, hc⟩ := ByteArray.append_wellFormed (s := s) ha (by omega)
      obtain ⟨hw', hc'⟩ := ih hw (by rw [ByteArray.dataSize_append]; omega)
      exact ⟨hw', Nat.le_trans hc hc'⟩

-- A datagram of the socket's size never makes the packet buffer write past its block.
theorem handleDatagram_roomy {call : Option Callback} {u : ParserThread} (h : 12 < p.length)
    (hp : p.length ≤ 1500) (ht : Roomy t.packetData)
    (hu : handleDatagram type box p t = .ok (call, u)) : Roomy u.packetData := by
  by_cases hb : box = false ∨ t.isStart = false ∧ byteAt p 12 ≠ startByte type
  · obtain ⟨u', hu', -, hdata⟩ := handleDatagram_silent h hb
    rw [hu'] at hu
    cases hu
    rwa [hdata]
  simp only [not_or, Bool.not_eq_false, not_and, not_not] at hb
  obtain ⟨rfl, hk⟩ := hb
  have hs : t.isStart = true ∨ byteAt p 12 = startByte type := by
    cases hst : t.isStart
    · exact .inr (hk hst)
    · exact .inl rfl
  cases hv : payloadView type p with
  | none =>
      rw [handleDatagram_reject h hs hv] at hu
      cases hu
  | some v =>
      by_cases hskip : v.skip ≤ p.length
      swap
      · obtain ⟨f, he, -⟩ := handleDatagram_short h hs hv hskip
        rw [he] at hu
        cases hu
      by_cases ha : v.allows p
      swap
      · obtain ⟨exp, he⟩ := handleDatagram_check h hs hv hskip ha
        rw [he] at hu
        cases hu
      obtain ⟨time, u', hu', -, hdata⟩ := handleDatagram_emits h hs hv hskip ha
      rw [hu'] at hu
      cases hu
      obtain ⟨hw, hsize, hcap⟩ := ht
      have hlead := payloadView_lead hv
      have hlen : (v.pieces p).flatten.length < 2 * t.packetData.capacity := by
        simp only [PayloadView.pieces, List.flatten_append, List.length_append, List.flatten_singleton,
          List.length_drop]
        omega
      obtain ⟨hw', hc'⟩ := appendAll_wellFormed hw (by rwa [hsize, Nat.zero_add])
      rw [hdata]
      exact ⟨ByteArray.clear_wellFormed hw', rfl, Nat.le_trans hcap hc'⟩

-- What a packet can do. It leaves the packet buffer empty. It hands something on only while boxes
-- are wanted, and that begins with a parameter set if it is the packet that starts the parser.
theorem handleDatagram_inv {call : Option Callback} {u : ParserThread} (hi : Idle t)
    (h : handleDatagram type box p t = .ok (call, u)) :
    Idle u ∧ ∀ c ∈ call, box = true ∧ ((t.isStart = false ∨ byteAt p 12 = startByte type) →
      ∃ rest, c.pdata = iden ++ startByte type :: rest) := by
  have hlong : LongEnough type box t.isStart p := by
    by_contra hn
    obtain ⟨f, hf, -⟩ := handleDatagram_outOfRange hn
    rw [hf] at h
    cases h
  have hsilent : ∀ v, handleDatagram type box p t = .ok (none, v) → v.packetData = t.packetData →
      Idle u ∧ ∀ c ∈ call, box = true ∧ ((t.isStart = false ∨ byteAt p 12 = startByte type) →
        ∃ rest, c.pdata = iden ++ startByte type :: rest) := by
    intro v hv hdata
    rw [hv] at h
    cases h
    exact ⟨by rw [Idle, hdata]; exact hi, nofun⟩
  cases box with
  | false =>
      obtain ⟨v, hv, -, hdata⟩ := handleDatagram_boxless type t hlong.1
      exact hsilent v hv hdata
  | true =>
      have h13 : 12 < p.length := (hlong.2 rfl).1
      by_cases hs : t.isStart = true ∨ byteAt p 12 = startByte type
      swap
      · obtain ⟨hs, hk⟩ := not_or.mp hs
        obtain ⟨v, hv, -, hdata⟩ := handleDatagram_silent h13 (.inr ⟨by simpa using hs, hk⟩)
        exact hsilent v hv hdata
      cases hv : payloadView type p with
      | none =>
          rw [handleDatagram_reject h13 hs hv] at h
          cases h
      | some v =>
          by_cases hskip : v.skip ≤ p.length
          swap
          · obtain ⟨f, he, -⟩ := handleDatagram_short h13 hs hv hskip
            rw [he] at h
            cases h
          by_cases ha : v.allows p
          swap
          · obtain ⟨exp, he⟩ := handleDatagram_check h13 hs hv hskip ha
            rw [he] at h
            cases h
          obtain ⟨time, u', hu', -, hdata⟩ := handleDatagram_ok h13 hs hi hv hskip ha
          rw [hu'] at h
          cases h
          refine ⟨by rw [Idle, hdata, ByteArray.dataSize_clear], ?_⟩
          rintro c ⟨⟩
          refine ⟨rfl, fun hfresh => ?_⟩
          have hk : byteAt p 12 = startByte type := by
            rcases hfresh with hst | hk
            · exact hs.resolve_left (by simp [hst])
            · exact hk
          rw [payloadView_start hk] at hv
          obtain rfl := Option.some.inj hv
          refine ⟨p.drop 13, ?_⟩
          rw [PayloadView.pieces, drop_key h13, hk]
          simp

end Datagram

end Vcu
