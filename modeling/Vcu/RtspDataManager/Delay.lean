import Vcu.Lib.Machine
import Vcu.RtspDataManager.Reports

namespace Vcu

open Machine

-- The two threads for the reports, with what they share. LSR has no value at first, and neither has
-- receive_buffer. `hasRead` says that recv_report_thread has stored LSR and not yet SR_Time, and
-- `sent` is a history.
structure ReportThreads where
  session : RtspDataManager
  LSR : UInt32
  SR_Time : UInt64 := 0
  receiveBuffer : List UInt8
  hasRead : Bool := false
  isReceived : Bool := false
  sent : List (List UInt8) := []

-- `session` is what the packets of the stream change, and `report` is a turn of send_report_thread.
inductive ReportEvent where
  | session (m : RtspDataManager)
  | storeLSR (datagram : List UInt8)
  | storeTime (time : UInt64)
  | report (time : UInt64)

-- A datagram that is longer than receive_buffer is cut.
def receiveInto (buffer datagram : List UInt8) : List UInt8 :=
  (datagram ++ buffer.drop datagram.length).take 100

namespace ReportThreads

def step (s : ReportThreads) : ReportEvent → Option ReportThreads
  | .session m => some { s with session := m }
  | .storeLSR datagram =>
      if s.hasRead then none
      else
        let buffer := receiveInto s.receiveBuffer datagram
        (readInt buffer 10).toOption.map fun timeStampMid =>
          { s with receiveBuffer := buffer, LSR := timeStampMid, hasRead := true }
  | .storeTime time => if s.hasRead then some { s with SR_Time := time, hasRead := false } else none
  | .report time =>
      some { s with
        isReceived := true
        sent := s.sent ++ [reportBuffer s.session s.LSR s.SR_Time time s.isReceived] }

end ReportThreads

def ReportEvent.stores : ReportEvent → Bool
  | .session _ => false
  | .storeLSR _ => true
  | .storeTime _ => true
  | .report _ => false

def ReportEvent.isReport : ReportEvent → Bool
  | .session _ => false
  | .storeLSR _ => false
  | .storeTime _ => false
  | .report _ => true

-- A sender report as it comes, with the NTP time behind the header of eight bytes.
structure SenderReport where
  head : List UInt8
  ntp : UInt64
  rest : List UInt8
  head_length : head.length = 8

def SenderReport.datagram (r : SenderReport) : List UInt8 :=
  r.head ++ (htonl (r.ntp >>> 32).toUInt32 ++ htonl r.ntp.toUInt32) ++ r.rest

def middle (ntp : Nat) : Nat := ntp / 65536 % 4294967296

-- The time of the sender when the report comes back at once, after `delay` milliseconds.
def ntpAfter (ntp delay : Nat) : Nat := ntp + delay * 4294967296 / 1000

-- What the sender computes, in units of 1/65536 s. One unit early is the last value.
def roundTrip (ntp delay lsr dlsr : Nat) : Nat :=
  (middle (ntpAfter ntp delay) + 8589934592 - lsr - dlsr) % 4294967296

-- A packet with the delay in units of 1/65536 s, as the standard for the reports has it.
def RightDelay (ntp delay : Nat) (packet : List UInt8) : Prop :=
  ∃ lsr dlsr, readInt packet 24 = .ok lsr ∧ readInt packet 28 = .ok dlsr ∧ lsr.toNat = middle ntp ∧
    1000 * dlsr.toNat < 65536 * delay + 1000 ∧ 65536 * delay < 1000 * dlsr.toNat + 1000 ∧
    roundTrip ntp delay lsr.toNat dlsr.toNat ∈ [0, 1, 4294967295]

section Numbers

theorem readInt_htonl {before after : List UInt8} {x : UInt32} {i : Nat} (hi : i = before.length) :
    readInt (before ++ (htonl x ++ after)) i = .ok x := by
  have hhigh : readShort (before ++ (htonl x ++ after)) i = .ok (x >>> 16).toUInt16 := by
    rw [htonl, List.append_assoc]
    exact readShort_htons hi
  have hlow : readShort (before ++ (htonl x ++ after)) (i + 2) = .ok x.toUInt16 := by
    rw [htonl, List.append_assoc, ← List.append_assoc]
    refine readShort_htons ?_
    rw [hi, List.length_append]
    rfl
  rw [readInt, hhigh, hlow]
  refine congrArg Except.ok (UInt32.toNat_inj.mp ?_)
  have h16 : (16 : UInt32).toNat % 32 = 16 := rfl
  have hx := x.toNat_lt
  rw [shorts_joined, UInt32.toNat_toUInt16, UInt32.toNat_toUInt16, UInt32.toNat_shiftRight, h16,
    Nat.shiftRight_eq_div_pow]
  omega

-- A delay is right in the units of the code only if there is none.
theorem delay_close_iff (d : Nat) :
    (1000 * (d * 65536 % 4294967296) < 65536 * d + 1000 ∧
      65536 * d < 1000 * (d * 65536 % 4294967296) + 1000) ↔ d = 0 := by
  have hlow : d * 65536 % 4294967296 = d % 65536 * 65536 := Nat.mul_mod_mul_right 65536 d 65536
  rw [hlow]
  constructor
  · rintro ⟨hle, hge⟩
    have hunits : 1000 * (d % 65536) = d := by
      generalize d % 65536 = low at hle hge
      exact Nat.le_antisymm (by omega) (by omega)
    -- 65536 divides 999 times the low part, and 999 is odd
    have hparts : 65536 * (d / 65536) + d % 65536 = 999 * (d % 65536) + d % 65536 :=
      ((Nat.div_add_mod d 65536).trans hunits.symm).trans (Nat.succ_mul 999 _)
    have hdvd : 65536 ∣ 999 * (d % 65536) := ⟨d / 65536, (Nat.add_right_cancel hparts).symm⟩
    have hzero : d % 65536 = 0 :=
      Nat.eq_zero_of_dvd_of_lt ((show Nat.Coprime 65536 999 by decide).dvd_of_dvd_mul_left hdvd)
        (Nat.mod_lt d (by decide))
    rw [← hunits, hzero]
  · rintro rfl
    decide

end Numbers

section Reports

variable {s u : ReportThreads} {es : List ReportEvent}

-- recv_report_thread takes the middle of the time.
theorem readInt_receiveInto (buffer : List UInt8) (r : SenderReport) :
    ∃ mid, readInt (receiveInto buffer r.datagram) 10 = .ok mid ∧ mid.toNat = middle r.ntp.toNat := by
  have hsplit : receiveInto buffer r.datagram =
    (r.head ++ htons ((r.ntp >>> 32).toUInt32 >>> 16).toUInt16) ++
      (htons (r.ntp >>> 32).toUInt32.toUInt16 ++ (htons (r.ntp.toUInt32 >>> 16).toUInt16 ++
        (htons r.ntp.toUInt32.toUInt16 ++ r.rest ++ buffer.drop r.datagram.length).take 86)) := by
    have hlen : (r.head ++ htons ((r.ntp >>> 32).toUInt32 >>> 16).toUInt16 ++
        htons (r.ntp >>> 32).toUInt32.toUInt16 ++ htons (r.ntp.toUInt32 >>> 16).toUInt16).length = 14 := by
      rw [List.length_append, List.length_append, List.length_append, r.head_length]
      rfl
    have hdatagram : r.datagram ++ buffer.drop r.datagram.length =
        (r.head ++ htons ((r.ntp >>> 32).toUInt32 >>> 16).toUInt16 ++
          htons (r.ntp >>> 32).toUInt32.toUInt16 ++ htons (r.ntp.toUInt32 >>> 16).toUInt16) ++
        (htons r.ntp.toUInt32.toUInt16 ++ r.rest ++ buffer.drop r.datagram.length) := by
      simp [SenderReport.datagram, htonl]
    rw [receiveInto, hdatagram, List.take_append, hlen, List.take_of_length_le (by omega)]
    simp only [List.append_assoc]
  have hhigh : readShort (receiveInto buffer r.datagram) 10 = .ok (r.ntp >>> 32).toUInt32.toUInt16 := by
    rw [hsplit]
    refine readShort_htons ?_
    rw [List.length_append, r.head_length]
    rfl
  have hlow : readShort (receiveInto buffer r.datagram) 12 = .ok (r.ntp.toUInt32 >>> 16).toUInt16 := by
    rw [hsplit, ← List.append_assoc]
    refine readShort_htons ?_
    rw [List.length_append, List.length_append, r.head_length]
    rfl
  refine ⟨_, ?_, shorts_joined (r.ntp >>> 32).toUInt32.toUInt16 (r.ntp.toUInt32 >>> 16).toUInt16 |>.trans ?_⟩
  · rw [readInt, hhigh, hlow]
    rfl
  · have h32 : (32 : UInt64).toNat % 64 = 32 := rfl
    have h16 : (16 : UInt32).toNat % 32 = 16 := rfl
    rw [UInt32.toNat_toUInt16, UInt32.toNat_toUInt16, UInt64.toNat_toUInt32, UInt64.toNat_shiftRight,
      UInt32.toNat_shiftRight, UInt64.toNat_toUInt32, h32, h16, Nat.shiftRight_eq_div_pow,
      Nat.shiftRight_eq_div_pow, middle]
    omega

theorem quiet_run (hquiet : ∀ e ∈ es, e.stores = false) (h : run ReportThreads.step s es = some u) :
    u.LSR = s.LSR ∧ u.SR_Time = s.SR_Time := by
  induction es generalizing s with
  | nil =>
      cases h
      exact ⟨rfl, rfl⟩
  | cons e es ih =>
      rw [run_cons] at h
      obtain ⟨t, ht, h⟩ := Option.bind_eq_some_iff.mp h
      obtain ⟨hlsr, htime⟩ := ih (fun d hd => hquiet d (List.mem_cons_of_mem e hd)) h
      have he := hquiet e List.mem_cons_self
      cases e with
      | session m =>
          cases ht
          exact ⟨hlsr, htime⟩
      | storeLSR datagram => cases he
      | storeTime time => cases he
      | report time =>
          cases ht
          exact ⟨hlsr, htime⟩

theorem storeLSR_spec {datagram : List UInt8} (h : s.step (.storeLSR datagram) = some u) :
    ∃ mid, readInt (receiveInto s.receiveBuffer datagram) 10 = .ok mid ∧
      u = { s with receiveBuffer := receiveInto s.receiveBuffer datagram, LSR := mid, hasRead := true } := by
  simp only [ReportThreads.step] at h
  split at h
  · cases h
  · obtain ⟨mid, hmid, rfl⟩ := Option.map_eq_some_iff.mp h
    cases hread : readInt (receiveInto s.receiveBuffer datagram) 10 with
    | error e =>
        rw [hread] at hmid
        cases hmid
    | ok v =>
        rw [hread] at hmid
        cases hmid
        exact ⟨mid, rfl, rfl⟩

theorem storeTime_spec {time : UInt64} (h : s.step (.storeTime time) = some u) :
    u = { s with SR_Time := time, hasRead := false } := by
  simp only [ReportThreads.step] at h
  split at h
  · cases h
    rfl
  · cases h

theorem isReceived_step {e : ReportEvent} (h : s.step e = some u) :
    u.isReceived = (s.isReceived || e.isReport) := by
  cases e with
  | session m =>
      cases h
      exact (Bool.or_false _).symm
  | storeLSR datagram =>
      obtain ⟨mid, -, rfl⟩ := storeLSR_spec h
      exact (Bool.or_false _).symm
  | storeTime time =>
      rw [storeTime_spec h]
      exact (Bool.or_false _).symm
  | report time =>
      cases h
      exact (Bool.or_true _).symm

theorem isReceived_run (h : run ReportThreads.step s es = some u) :
    u.isReceived = (s.isReceived || es.any ReportEvent.isReport) := by
  induction es generalizing s with
  | nil =>
      cases h
      exact (Bool.or_false _).symm
  | cons e es ih =>
      rw [run_cons] at h
      obtain ⟨t, ht, h⟩ := Option.bind_eq_some_iff.mp h
      rw [ih h, isReceived_step ht, List.any_cons, Bool.or_assoc]

-- What a report says of the last sender report.
theorem readInt_report (m : RtspDataManager) (LSR : UInt32) {srTime : UInt64} (hsr : srTime ≠ 0)
    (time : UInt64) :
    readInt (reportBuffer m LSR srTime time true) 24 = .ok LSR ∧
      readInt (reportBuffer m LSR srTime time true) 28 = .ok ((time - srTime) * 65536).toUInt32 := by
  have hcond : (true && srTime != 0) = true := by
    rw [Bool.true_and, bne_iff_ne]
    exact hsr
  rw [reportBuffer, if_pos hcond]
  constructor
  · exact readInt_htonl rfl
  · rw [← List.append_assoc, ← List.append_nil (htonl ((time - srTime) * 65536).toUInt32)]
    exact readInt_htonl rfl

theorem delay_toNat {t1 t2 : UInt64} (hle : t1 ≤ t2) :
    ((t2 - t1) * 65536).toUInt32.toNat = (t2.toNat - t1.toNat) * 65536 % 4294967296 := by
  have h65536 : (65536 : UInt64).toNat = 65536 := rfl
  rw [UInt64.toNat_toUInt32, UInt64.toNat_mul, UInt64.toNat_sub_of_le _ _ hle, h65536]
  omega

theorem rightDelay_iff {m : RtspDataManager} {LSR : UInt32} {t1 t2 : UInt64} {ntp : Nat}
    (hlsr : LSR.toNat = middle ntp) (ht1 : t1 ≠ 0) (hle : t1 ≤ t2) :
    RightDelay ntp (t2.toNat - t1.toNat) (reportBuffer m LSR t1 t2 true) ↔ t2 = t1 := by
  obtain ⟨hread, hread'⟩ := readInt_report m LSR ht1 t2
  have hle' := UInt64.le_iff_toNat_le.mp hle
  have hclose := delay_close_iff (t2.toNat - t1.toNat)
  rw [← delay_toNat hle] at hclose
  constructor
  · rintro ⟨lsr, dlsr, -, hdlsr, -, hlow, hhigh, -⟩
    cases hread'.symm.trans hdlsr
    have hzero := hclose.mp ⟨hlow, hhigh⟩
    exact UInt64.toNat_inj.mp (by omega)
  · rintro rfl
    have hzero : t2.toNat - t2.toNat = 0 := Nat.sub_self _
    obtain ⟨hlow, hhigh⟩ := hclose.mpr hzero
    refine ⟨LSR, _, hread, hread', hlsr, hlow, hhigh, ?_⟩
    -- the sender computes with the time that it put into its report
    have hsame : roundTrip ntp 0 LSR.toNat 0 = 0 := by
      have hmid : middle ntp < 4294967296 := Nat.mod_lt _ (by decide)
      rw [roundTrip, ntpAfter, Nat.zero_mul, Nat.zero_div, Nat.add_zero, hlsr]
      generalize middle ntp = mid at hmid ⊢
      omega
    rw [delay_toNat hle, hzero, Nat.zero_mul, Nat.zero_mod, hsame]
    exact List.mem_cons_self

end Reports

-- Of the report that comes behind a sender report, the delay is right exactly if it comes in the same
-- millisecond.
theorem report_delay_iff (m : RtspDataManager) (LSR : UInt32) (buffer : List UInt8) (r : SenderReport)
    (before between later : List ReportEvent) (t1 t2 : UInt64) (s : ReportThreads)
    (hrun : run ReportThreads.step { session := m, LSR := LSR, receiveBuffer := buffer }
      (before ++ .storeLSR r.datagram :: (between ++ .storeTime t1 :: (later ++ [.report t2]))) = some s)
    (hbetween : ∀ e ∈ between, e.stores = false) (hlater : ∀ e ∈ later, e.stores = false)
    (hnotFirst : (before ++ between ++ later).any ReportEvent.isReport = true)
    (ht1 : t1 ≠ 0) (hle : t1 ≤ t2) :
    (∃ packet, s.sent.getLast? = some packet ∧ RightDelay r.ntp.toNat (t2.toNat - t1.toNat) packet) ↔
      t2 = t1 := by
  rw [run_append] at hrun
  obtain ⟨s₁, h₁, hrun⟩ := Option.bind_eq_some_iff.mp hrun
  rw [run_cons] at hrun
  obtain ⟨s₂, h₂, hrun⟩ := Option.bind_eq_some_iff.mp hrun
  rw [run_append] at hrun
  obtain ⟨s₃, h₃, hrun⟩ := Option.bind_eq_some_iff.mp hrun
  rw [run_cons] at hrun
  obtain ⟨s₄, h₄, hrun⟩ := Option.bind_eq_some_iff.mp hrun
  obtain ⟨s₅, h₅, hrun⟩ := run_concat_eq_some hrun
  -- the turn sees what the sender report left
  obtain ⟨mid, hmid, hs₂⟩ := storeLSR_spec h₂
  obtain ⟨mid', hmid', hvalue⟩ := readInt_receiveInto s₁.receiveBuffer r
  cases hmid.symm.trans hmid'
  have hs₄ := storeTime_spec h₄
  obtain ⟨hlsr₃, -⟩ := quiet_run hbetween h₃
  obtain ⟨hlsr₅, htime₅⟩ := quiet_run hlater h₅
  have hlsr : s₅.LSR = mid := by rw [hlsr₅, hs₄, hlsr₃, hs₂]
  have htime : s₅.SR_Time = t1 := by rw [htime₅, hs₄]
  have hreceived : s₅.isReceived = true := by
    have hr₁ := isReceived_run h₁
    have hr₂ := isReceived_step h₂
    have hr₃ := isReceived_run h₃
    have hr₄ := isReceived_step h₄
    rw [isReceived_run h₅, hr₄, hr₃, hr₂, hr₁, ← hnotFirst, List.any_append, List.any_append]
    simp only [ReportEvent.isReport, Bool.or_false, Bool.false_or]
  cases hrun
  rw [List.getLast?_concat, hlsr, htime, hreceived]
  simp only [Option.some_inj, exists_eq_left']
  exact rightDelay_iff hvalue ht1 hle

def exampleSenderReport : SenderReport where
  head := [0x80, 200, 0, 6, 0, 0, 0, 1]
  ntp := 0xe8a1b2c3d4e5f607
  rest := List.replicate 12 0
  head_length := rfl

def freshThreads : ReportThreads where
  session := {}
  LSR := 0
  receiveBuffer := List.replicate 100 0

-- The first report, a sender report in the millisecond 30500, and the second report.
def secondReport (time : UInt64) : List ReportEvent :=
  [.report 500] ++ .storeLSR exampleSenderReport.datagram ::
    ([] ++ .storeTime 30500 :: ([.session { SEQ := 7 }] ++ [.report time]))

theorem report_delay_iff_prompt : ∃ s, run ReportThreads.step freshThreads (secondReport 30500) = some s ∧
    ∃ packet, s.sent.getLast? = some packet ∧ RightDelay 0xe8a1b2c3d4e5f607 0 packet := by
  have hsome : (run ReportThreads.step freshThreads (secondReport 30500)).isSome = true := by decide +kernel
  obtain ⟨s, hs⟩ := Option.isSome_iff_exists.mp hsome
  exact ⟨s, hs, (report_delay_iff {} 0 (List.replicate 100 0) exampleSenderReport [.report 500] []
    [.session { SEQ := 7 }] 30500 30500 s hs nofun (by simp [ReportEvent.stores]) rfl (by decide)
    (by decide)).mpr rfl⟩

-- The second report comes thirty seconds after the sender report and says thirty thousand.
theorem delay_in_milliseconds : ∃ s, run ReportThreads.step freshThreads (secondReport 60500) = some s ∧
    ∃ packet, s.sent.getLast? = some packet ∧ readInt packet 28 = .ok (30000 * 65536) ∧
      ¬ RightDelay 0xe8a1b2c3d4e5f607 30000 packet := by
  have hdlsr : ((run ReportThreads.step freshThreads (secondReport 60500)).bind fun s =>
      s.sent.getLast?.bind fun packet => (readInt packet 28).toOption) = some (30000 * 65536) := by
    decide +kernel
  obtain ⟨s, hs, hdlsr⟩ := Option.bind_eq_some_iff.mp hdlsr
  obtain ⟨packet, hpacket, hdlsr⟩ := Option.bind_eq_some_iff.mp hdlsr
  have hread : readInt packet 28 = .ok (30000 * 65536) := by
    cases hv : readInt packet 28 with
    | error e =>
        rw [hv] at hdlsr
        cases hdlsr
    | ok v =>
        rw [hv] at hdlsr
        rw [Option.some.inj hdlsr]
  refine ⟨s, hs, packet, hpacket, hread, ?_⟩
  rintro ⟨lsr, dlsr, -, hdlsr', -, hlow, -⟩
  cases hread.symm.trans hdlsr'
  exact absurd hlow (by decide)

end Vcu
