import Vcu.ByteArray.Lemmas
import Vcu.Lib.NalFragment
import Vcu.Rtp.Parser

namespace Vcu

open NalFragment

theorem ok_bind {α β : Type} (a : α) (f : α → Except Fault β) : (Except.ok a >>= f) = f a := rfl

theorem error_bind {α β : Type} (e : Fault) (f : α → Except Fault β) :
    (Except.error e >>= f) = Except.error e := rfl

theorem pure_eq_ok {α : Type} (a : α) : (pure a : Except Fault α) = .ok a := rfl

theorem fservoCheck_false (exp : String) : fservoCheck exp false = .error (.checkFailed exp) := rfl

-- The byte at an index that is known to be inside the packet.
def byteAt (p : List UInt8) (i : Nat) : UInt8 := p.getD i 0

theorem readByte_ok {p : List UInt8} {i : Nat} (h : i < p.length) :
    readByte p i = .ok (byteAt p i) := by
  simp [readByte, byteAt, h]

theorem readByte_error {p : List UInt8} {i : Nat} (h : p.length ≤ i) :
    readByte p i = .error (.outOfRange i p.length) := by
  simp [readByte, h]

theorem readShort_ok {p : List UInt8} {i : Nat} (h : i + 1 < p.length) :
    ∃ v, readShort p i = .ok v := by
  simp [readShort, readByte_ok h, readByte_ok (Nat.lt_of_succ_lt h), ok_bind, pure_eq_ok]

theorem readInt_ok {p : List UInt8} {i : Nat} (h : i + 3 < p.length) :
    ∃ v, readInt p i = .ok v := by
  obtain ⟨high, hh⟩ := readShort_ok (p := p) (i := i) (by omega)
  obtain ⟨low, hl⟩ := readShort_ok (p := p) (i := i + 2) (by omega)
  simp [readInt, hh, hl, ok_bind, pure_eq_ok]

theorem readRange_ok {p : List UInt8} {i : Nat} (h : i ≤ p.length) :
    readRange p i ((p.length : Int) - i) = .ok (p.drop i) := by
  have hn : ¬ ((p.length : Int) - i < 0) := by omega
  have hl : ((p.length : Int) - i).toNat = p.length - i := by omega
  simp [readRange, hn, hl, Nat.add_sub_of_le h, List.take_of_length_le]

theorem getRtpHeader_ok {p : List UInt8} (h : 12 ≤ p.length) :
    ∃ header, getRtpHeader p = .ok header ∧ header.mark = (byteAt p 1 &&& 0x80) >>> 7 := by
  obtain ⟨seq, hs⟩ := readShort_ok (p := p) (i := 2) (by omega)
  obtain ⟨time, ht⟩ := readInt_ok (p := p) (i := 4) (by omega)
  obtain ⟨ssrc, hr⟩ := readInt_ok (p := p) (i := 8) (by omega)
  have h0 := readByte_ok (p := p) (i := 0) (by omega)
  have h1 := readByte_ok (p := p) (i := 1) (by omega)
  simp [getRtpHeader, hs, ht, hr, h0, h1, ok_bind, pure_eq_ok]

def startByte : CodecType → UInt8
  | .H264 => 0x67
  | .H265 => 0x40

-- What a parser reads off a packet once it has started. It appends the pieces in `lead` and
-- then the packet from byte `skip` on. The marker bit must equal `mark` if that is given.
structure PayloadView where
  lead : List (List UInt8)
  skip : Nat
  mark : Option Bool

-- None stands for the packet types that fail FSERVO_CHECK(false).
def payloadView : CodecType → List UInt8 → Option PayloadView
  | .H264, p =>
      let key := byteAt p 12
      let fuHeader := byteAt p 13
      if key &&& 0x1f < 24 then some ⟨[iden], 12, none⟩
      else if key &&& 0x1f = 28 then
        if fuHeader &&& 0x80 ≠ 0 then
          some ⟨[iden, [(key &&& 0xe0) ||| (fuHeader &&& 0x1f)]], 14, some false⟩
        else if fuHeader &&& 0x40 ≠ 0 then some ⟨[], 14, some true⟩
        else some ⟨[], 14, none⟩
      else none
  | .H265, p =>
      let key := byteAt p 12
      let fuHeader := byteAt p 14
      if (key >>> 1) &&& 0x3f = 49 then
        if fuHeader &&& 0x80 ≠ 0 then
          some ⟨[iden, [((fuHeader &&& 0x3f) <<< 1) ||| (key &&& 0x80)], [byteAt p 13]], 15,
            some false⟩
        else if fuHeader &&& 0x40 ≠ 0 then some ⟨[], 15, some true⟩
        else some ⟨[], 15, none⟩
      else if (key >>> 1) &&& 0x3f = 48 then none
      else some ⟨[iden], 12, none⟩

-- The marker bit of a datagram.
def markOf (p : List UInt8) : Bool := byteAt p 1 &&& 0x80 != 0

def PayloadView.allows (v : PayloadView) (p : List UInt8) : Prop :=
  ∀ mark ∈ v.mark, markOf p = mark

def Fault.isCheck : Fault → Bool
  | .checkFailed _ => true
  | _ => false

-- The result of appending the pieces to the packet buffer one after another.
def appendAll (a : ByteArray) (pieces : List (List UInt8)) : ByteArray :=
  pieces.foldl ByteArray.append a

def PayloadView.pieces (v : PayloadView) (p : List UInt8) : List (List UInt8) :=
  v.lead ++ [p.drop v.skip]

def Emits (t : ParserThread) (p : List UInt8) (v : PayloadView) (r : Parsed) : Prop :=
  r.res = true ∧ r.mark = markOf p ∧ r.thread.isStart = true ∧
    r.thread.packetData = appendAll t.packetData (v.pieces p)

def Silent (t : ParserThread) (r : Parsed) : Prop :=
  r.res = false ∧ r.thread.isStart = false ∧ r.thread.packetData = t.packetData

-- What a started parser does with a packet of the given view.
def Handles (t : ParserThread) (p : List UInt8) (view : Option PayloadView)
    (result : Except Fault Parsed) : Prop :=
  match view with
  | none => result = .error (.checkFailed "false")
  | some v =>
      if v.skip ≤ p.length then
        (v.allows p → ∃ r, result = .ok r ∧ Emits t p v r) ∧
          (¬ v.allows p → ∃ exp, result = .error (.checkFailed exp))
      else ∃ f, result = .error f ∧ f.isCheck = false

section Parser

variable {type : CodecType} {m : RtpModel} {t : ParserThread} {p : List UInt8}

theorem mark_eq_zero (b : UInt8) : ((b &&& 0x80) >>> 7 == 0) = !(b &&& 0x80 != 0) := by
  revert b
  exact forall_byte (by decide +kernel)

theorem mark_eq_one (b : UInt8) : ((b &&& 0x80) >>> 7 == 1) = (b &&& 0x80 != 0) := by
  revert b
  exact forall_byte (by decide +kernel)

theorem mark_ne_zero (b : UInt8) : ((b &&& 0x80) >>> 7 != 0) = (b &&& 0x80 != 0) := by
  revert b
  exact forall_byte (by decide +kernel)

theorem end_eq_one (b : UInt8) : ((b &&& 0x40) >>> 6 == 1) = (b &&& 0x40 != 0) := by
  revert b
  exact forall_byte (by decide +kernel)

theorem start_eq_one_265 (b : UInt8) : ((b >>> 7) &&& 0x01 == 1) = (b &&& 0x80 != 0) := by
  revert b
  exact forall_byte (by decide +kernel)

theorem end_eq_one_265 (b : UInt8) : ((b >>> 6) &&& 0x01 == 1) = (b &&& 0x40 != 0) := by
  revert b
  exact forall_byte (by decide +kernel)

theorem parserRtp_boxless (type : CodecType) (t : ParserThread) (hp : m.pdata = p) (h : 12 ≤ p.length) :
    ∃ r, parserRtp type false m t = .ok r ∧ Silent t r := by
  obtain ⟨header, hh, _⟩ := getRtpHeader_ok h
  cases type with
  | H264 => exact ⟨_, by simp only [parserRtp, parserRtpH264, hp, hh, ok_bind]; rfl, rfl, rfl, rfl⟩
  | H265 => exact ⟨_, by simp only [parserRtp, parserRtpH265, hp, hh, ok_bind]; rfl, rfl, rfl, rfl⟩

theorem parserRtp_waiting (hp : m.pdata = p) (h : 12 < p.length) (hs : t.isStart = false)
    (hk : byteAt p 12 ≠ startByte type) :
    ∃ r, parserRtp type true m t = .ok r ∧ Silent t r := by
  obtain ⟨header, hh, _⟩ := getRtpHeader_ok (Nat.le_of_lt h)
  have hb := readByte_ok h
  cases type with
  | H264 =>
      simp only [startByte] at hk
      simp [parserRtp, parserRtpH264, hp, hh, hb, hs, hk, ok_bind, pure_eq_ok, Silent,
        ParserThread.setHeader]
  | H265 =>
      simp only [startByte] at hk
      simp [parserRtp, parserRtpH265, hp, hh, hb, hs, hk, ok_bind, pure_eq_ok, Silent,
        ParserThread.setHeader]

theorem allows_none {lead : List (List UInt8)} {skip : Nat} :
    (⟨lead, skip, none⟩ : PayloadView).allows p := by
  simp [PayloadView.allows]

theorem allows_some {lead : List (List UInt8)} {skip : Nat} {mark : Bool} :
    (⟨lead, skip, some mark⟩ : PayloadView).allows p ↔ markOf p = mark := by
  simp [PayloadView.allows]

theorem Handles.ok {v : PayloadView} {r : Parsed} (hskip : v.skip ≤ p.length) (ha : v.allows p)
    (hr : Emits t p v r) : Handles t p (some v) (.ok r) := by
  simp only [Handles, hskip, if_true]
  exact ⟨fun _ => ⟨r, rfl, hr⟩, fun hn => absurd ha hn⟩

theorem Handles.check {v : PayloadView} {exp : String} (hskip : v.skip ≤ p.length)
    (ha : ¬ v.allows p) : Handles t p (some v) (.error (.checkFailed exp)) := by
  simp only [Handles, hskip, if_true]
  exact ⟨fun h => absurd h ha, fun _ => ⟨exp, rfl⟩⟩

theorem Handles.fault {v : PayloadView} {f : Fault} (hskip : p.length < v.skip)
    (hf : f.isCheck = false) : Handles t p (some v) (.error f) := by
  simp only [Handles, Nat.not_le.mpr hskip, if_false]
  exact ⟨f, rfl, hf⟩

theorem parserRtpH264_started (hp : m.pdata = p) (hl : m.len = p.length) (h : 12 < p.length)
    (hs : t.isStart = true ∨ byteAt p 12 = startByte .H264) :
    Handles t p (payloadView .H264 p) (parserRtpH264 true m t) := by
  obtain ⟨header, hh, hm⟩ := getRtpHeader_ok (Nat.le_of_lt h)
  have hb := readByte_ok h
  have hs' : ((t.setHeader header).isStart || byteAt p 12 == 0x67) = true := by
    rcases hs with hs | hs
    · simp [ParserThread.setHeader, hs]
    · simp [hs, startByte]
  have hne : (header.mark != 0) = markOf p := by rw [hm, mark_ne_zero]; rfl
  have h0 : (header.mark == 0) = !markOf p := by rw [hm, mark_eq_zero]; rfl
  have h1 : (header.mark == 1) = markOf p := by rw [hm, mark_eq_one]; rfl
  simp only [parserRtpH264, hp, hl, hh, hb, ok_bind, Bool.not_true, Bool.false_eq_true, if_false,
    hs', if_true, hne, h0, h1, pure_eq_ok, mark_eq_one, end_eq_one, ByteArray.appendChar_eq]
  by_cases hw : byteAt p 12 &&& 0x1f < 24
  · have hr : readRange p 12 ((p.length : Int) - 12) = .ok (p.drop 12) := readRange_ok (by omega)
    simp only [payloadView, hw, if_true, hr, ok_bind]
    exact .ok (Nat.le_of_lt h) allows_none ⟨rfl, rfl, rfl, rfl⟩
  by_cases hf : byteAt p 12 &&& 0x1f = 28
  swap
  · simp [payloadView, hw, hf, Handles, fservoCheck_false, error_bind]
  have hu : ¬ (28 : UInt8) < 24 := by decide
  simp only [payloadView, hf, hu, if_true, if_false, beq_self_eq_true]
  by_cases hlen : 14 ≤ p.length
  swap
  · have hb' := readByte_error (p := p) (i := 13) (by omega)
    simp only [hb', error_bind]
    by_cases hS : byteAt p 13 &&& 0x80 = 0 <;> by_cases hE : byteAt p 13 &&& 0x40 = 0 <;>
      simp only [hS, hE, ne_eq, not_true, not_false_eq_true, if_true, if_false] <;>
      exact .fault (Nat.lt_of_not_le hlen) rfl
  have hb' := readByte_ok (p := p) (i := 13) (by omega)
  have hr : readRange p 14 ((p.length : Int) - 14) = .ok (p.drop 14) := readRange_ok hlen
  simp only [hb', ok_bind, hr, bne_iff_ne]
  by_cases hS : byteAt p 13 &&& 0x80 = 0
  · by_cases hE : byteAt p 13 &&& 0x40 = 0
    · simp only [hS, hE, ne_eq, not_true, if_false]
      exact .ok hlen allows_none ⟨rfl, rfl, rfl, rfl⟩
    · simp only [hS, hE, ne_eq, not_true, not_false_eq_true, if_true, if_false]
      cases hmark : markOf p
      · exact .check hlen (by simp [allows_some, hmark])
      · exact .ok hlen (by simp [allows_some, hmark]) ⟨rfl, hmark.symm, rfl, rfl⟩
  · simp only [hS, ne_eq, not_false_eq_true, if_true]
    cases hmark : markOf p
    · exact .ok hlen (by simp [allows_some, hmark]) ⟨rfl, hmark.symm, rfl, rfl⟩
    · exact .check hlen (by simp [allows_some, hmark])

theorem parserRtpH265_started (hp : m.pdata = p) (hl : m.len = p.length) (h : 12 < p.length)
    (hs : t.isStart = true ∨ byteAt p 12 = startByte .H265) :
    Handles t p (payloadView .H265 p) (parserRtpH265 true m t) := by
  obtain ⟨header, hh, hm⟩ := getRtpHeader_ok (Nat.le_of_lt h)
  have hb := readByte_ok h
  have hs' : ((t.setHeader header).isStart || byteAt p 12 == 0x40) = true := by
    rcases hs with hs | hs
    · simp [ParserThread.setHeader, hs]
    · simp [hs, startByte]
  have hne : (header.mark != 0) = markOf p := by rw [hm, mark_ne_zero]; rfl
  have h0 : (header.mark == 0) = !markOf p := by rw [hm, mark_eq_zero]; rfl
  have h1 : (header.mark == 1) = markOf p := by rw [hm, mark_eq_one]; rfl
  simp only [parserRtpH265, hp, hl, hh, hb, ok_bind, Bool.not_true, Bool.false_eq_true, if_false,
    hs', if_true, hne, h0, h1, pure_eq_ok, start_eq_one_265, end_eq_one_265,
    ByteArray.appendChar_eq]
  by_cases hf : (byteAt p 12 >>> 1) &&& 0x3f = 49
  swap
  · by_cases ha : (byteAt p 12 >>> 1) &&& 0x3f = 48
    · simp [payloadView, ha, Handles, fservoCheck_false, error_bind]
    · have hr : readRange p 12 ((p.length : Int) - 12) = .ok (p.drop 12) := readRange_ok (by omega)
      simp only [payloadView, hf, ha, beq_iff_eq, if_false, hr, ok_bind]
      exact .ok (Nat.le_of_lt h) allows_none ⟨rfl, rfl, rfl, rfl⟩
  simp only [payloadView, hf, if_true, beq_self_eq_true]
  by_cases hlen : 15 ≤ p.length
  swap
  · have hb' := readByte_error (p := p) (i := 14) (by omega)
    simp only [hb', error_bind]
    by_cases hS : byteAt p 14 &&& 0x80 = 0 <;> by_cases hE : byteAt p 14 &&& 0x40 = 0 <;>
      simp only [hS, hE, ne_eq, not_true, not_false_eq_true, if_true, if_false] <;>
      exact .fault (Nat.lt_of_not_le hlen) rfl
  have hb' := readByte_ok (p := p) (i := 14) (by omega)
  have hb'' := readByte_ok (p := p) (i := 13) (by omega)
  have hr : readRange p 15 ((p.length : Int) - 15) = .ok (p.drop 15) := readRange_ok hlen
  simp only [hb', hb'', ok_bind, hr, bne_iff_ne]
  by_cases hS : byteAt p 14 &&& 0x80 = 0
  · by_cases hE : byteAt p 14 &&& 0x40 = 0
    · simp only [hS, hE, ne_eq, not_true, if_false]
      exact .ok hlen allows_none ⟨rfl, rfl, rfl, rfl⟩
    · simp only [hS, hE, ne_eq, not_true, not_false_eq_true, if_true, if_false]
      cases hmark : markOf p
      · exact .check hlen (by simp [allows_some, hmark])
      · exact .ok hlen (by simp [allows_some, hmark]) ⟨rfl, hmark.symm, rfl, rfl⟩
  · simp only [hS, ne_eq, not_false_eq_true, if_true]
    cases hmark : markOf p
    · exact .ok hlen (by simp [allows_some, hmark]) ⟨rfl, hmark.symm, rfl, rfl⟩
    · exact .check hlen (by simp [allows_some, hmark])

-- One statement for both codecs. A packet that arrives after the start is handled by its view.
theorem parserRtp_started (hp : m.pdata = p) (hl : m.len = p.length) (h : 12 < p.length)
    (hs : t.isStart = true ∨ byteAt p 12 = startByte type) :
    Handles t p (payloadView type p) (parserRtp type true m t) := by
  cases type with
  | H264 => exact parserRtpH264_started hp hl h hs
  | H265 => exact parserRtpH265_started hp hl h hs

end Parser

section Datagram

variable {type : CodecType} {t : ParserThread} {p : List UInt8}

theorem bytes_appendAll (a : ByteArray) (pieces : List (List UInt8)) (h : a.Held) :
    (appendAll a pieces).bytes = a.bytes ++ pieces.flatten := by
  induction pieces generalizing a with
  | nil => simp [appendAll]
  | cons s rest ih =>
      have hi := ih _ (a.held_append s h)
      rw [a.bytes_append s h] at hi
      simpa [appendAll] using hi

-- The packet buffer is empty, as it is at the start of every iteration.
def Idle (t : ParserThread) : Prop := t.packetData.dataSize = 0

theorem Idle.held (h : Idle t) : t.packetData.Held := by
  unfold Idle at h
  simp [ByteArray.Held, h]

theorem Idle.bytes (h : Idle t) : t.packetData.bytes = [] := by
  unfold Idle at h
  simp [ByteArray.bytes, h]

theorem ofDatagram_ok (buffer : Nat) (h : 4 ≤ p.length) :
    ∃ m, RtpModel.ofDatagram buffer p = .ok m ∧ m.pdata = p ∧ m.len = p.length := by
  obtain ⟨seq, hs⟩ := readShort_ok (p := p) (i := 2) (by omega)
  exact ⟨_, by simp only [RtpModel.ofDatagram, hs, ok_bind]; rfl, rfl, rfl⟩

theorem handleDatagram_eq (type : CodecType) (box : Bool) (t : ParserThread) (h : 4 ≤ p.length) :
    ∃ m : RtpModel, m.pdata = p ∧ m.len = p.length ∧
      handleDatagram type box p t = parserThreadParse type box m t := by
  obtain ⟨m, hm, hp, hl⟩ := ofDatagram_ok 0 h
  exact ⟨m, hp, hl, by simp only [handleDatagram, hm, ok_bind]⟩

theorem handleDatagram_boxless (type : CodecType) (t : ParserThread) (h : 12 ≤ p.length) :
    ∃ u, handleDatagram type false p t = .ok (none, u) ∧ u.isStart = false ∧
      u.packetData = t.packetData := by
  obtain ⟨m, hp, -, hm⟩ := handleDatagram_eq type false t (p := p) (by omega)
  obtain ⟨r, hr, hres, hstart, hdata⟩ := parserRtp_boxless type t hp h
  refine ⟨r.thread, ?_, hstart, hdata⟩
  rw [hm, parserThreadParse, hr, ok_bind]
  simp [hres, pure_eq_ok]

-- Nothing reaches the callback while no boxes are wanted or no start packet has come.
theorem handleDatagram_silent {box : Bool} (h : 12 < p.length)
    (hb : box = false ∨ t.isStart = false ∧ byteAt p 12 ≠ startByte type) :
    ∃ u, handleDatagram type box p t = .ok (none, u) ∧ u.isStart = false ∧
      u.packetData = t.packetData := by
  cases box with
  | false => exact handleDatagram_boxless type t (Nat.le_of_lt h)
  | true =>
      obtain ⟨hs, hk⟩ := hb.resolve_left nofun
      obtain ⟨m, hp, -, hm⟩ := handleDatagram_eq type true t (p := p) (by omega)
      obtain ⟨r, hr, hres, hstart, hdata⟩ := parserRtp_waiting hp h hs hk
      refine ⟨r.thread, ?_, hstart, hdata⟩
      rw [hm, parserThreadParse, hr, ok_bind]
      simp [hres, pure_eq_ok]

theorem handleDatagram_started (h : 12 < p.length)
    (hs : t.isStart = true ∨ byteAt p 12 = startByte type) :
    ∃ m : RtpModel, handleDatagram type true p t = parserThreadParse type true m t ∧
      Handles t p (payloadView type p) (parserRtp type true m t) := by
  obtain ⟨m, hp, hl, hm⟩ := handleDatagram_eq type true t (p := p) (by omega)
  exact ⟨m, hm, parserRtp_started hp hl h hs⟩

theorem handleDatagram_emits {v : PayloadView} (h : 12 < p.length)
    (hs : t.isStart = true ∨ byteAt p 12 = startByte type)
    (hv : payloadView type p = some v) (hskip : v.skip ≤ p.length) (ha : v.allows p) :
    ∃ time u, handleDatagram type true p t =
        .ok (some ⟨(appendAll t.packetData (v.pieces p)).bytes, markOf p, time⟩, u) ∧
      u.isStart = true ∧ u.packetData = (appendAll t.packetData (v.pieces p)).clear := by
  obtain ⟨m, hm, hh⟩ := handleDatagram_started h hs
  rw [hv] at hh
  simp only [Handles, hskip, if_true] at hh
  obtain ⟨r, hr, hres, hmark, hstart, hdata⟩ := hh.1 ha
  refine ⟨r.timestamp, r.thread.setData r.thread.packetData.clear, ?_, hstart, ?_⟩
  · rw [hm, parserThreadParse, hr, ok_bind]
    simp [hres, hmark, hdata, pure_eq_ok]
  · rw [← hdata]
    rfl

theorem handleDatagram_ok {v : PayloadView} (h : 12 < p.length)
    (hs : t.isStart = true ∨ byteAt p 12 = startByte type) (hi : Idle t)
    (hv : payloadView type p = some v) (hskip : v.skip ≤ p.length) (ha : v.allows p) :
    ∃ time u, handleDatagram type true p t = .ok (some ⟨(v.pieces p).flatten, markOf p, time⟩, u) ∧
      u.isStart = true ∧ u.packetData = (appendAll t.packetData (v.pieces p)).clear := by
  have he := handleDatagram_emits h hs hv hskip ha
  rwa [bytes_appendAll _ _ hi.held, hi.bytes, List.nil_append] at he

theorem handleDatagram_check {v : PayloadView} (h : 12 < p.length)
    (hs : t.isStart = true ∨ byteAt p 12 = startByte type)
    (hv : payloadView type p = some v) (hskip : v.skip ≤ p.length) (ha : ¬ v.allows p) :
    ∃ exp, handleDatagram type true p t = .error (.checkFailed exp) := by
  obtain ⟨m, hm, hh⟩ := handleDatagram_started h hs
  rw [hv] at hh
  simp only [Handles, hskip, if_true] at hh
  obtain ⟨exp, hr⟩ := hh.2 ha
  exact ⟨exp, by rw [hm, parserThreadParse, hr, error_bind]⟩

theorem handleDatagram_short {v : PayloadView} (h : 12 < p.length)
    (hs : t.isStart = true ∨ byteAt p 12 = startByte type)
    (hv : payloadView type p = some v) (hskip : ¬ v.skip ≤ p.length) :
    ∃ f, handleDatagram type true p t = .error f ∧ f.isCheck = false := by
  obtain ⟨m, hm, hh⟩ := handleDatagram_started h hs
  rw [hv] at hh
  simp only [Handles, hskip, if_false] at hh
  obtain ⟨f, hr, hf⟩ := hh
  exact ⟨f, by rw [hm, parserThreadParse, hr, error_bind], hf⟩

theorem handleDatagram_reject (h : 12 < p.length)
    (hs : t.isStart = true ∨ byteAt p 12 = startByte type) (hv : payloadView type p = none) :
    handleDatagram type true p t = .error (.checkFailed "false") := by
  obtain ⟨m, hm, hh⟩ := handleDatagram_started h hs
  rw [hv] at hh
  rw [hm, parserThreadParse, show parserRtp type true m t = _ from hh, error_bind]

-- The view of a packet with the start byte.
theorem payloadView_start (hk : byteAt p 12 = startByte type) :
    payloadView type p = some ⟨[iden], 12, none⟩ := by
  cases type with
  | H264 =>
      have h7 : startByte .H264 &&& 0x1f < 24 := by decide
      simp only [payloadView, hk, h7, if_true]
  | H265 =>
      have hf : ¬ (startByte .H265 >>> 1) &&& 0x3f = 49 := by decide
      have ha : ¬ (startByte .H265 >>> 1) &&& 0x3f = 48 := by decide
      simp only [payloadView, hk, hf, ha, if_false]

theorem drop_key (h : 12 < p.length) : p.drop 12 = byteAt p 12 :: p.drop 13 := by
  rw [List.drop_eq_getElem_cons h, byteAt, List.getD_eq_getElem?_getD, List.getElem?_eq_getElem h]
  rfl

end Datagram

end Vcu
