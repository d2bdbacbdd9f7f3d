import Mathlib.Data.Int.ModEq
import Vcu.Lib.Machine
import Vcu.Lib.Window
import Vcu.Rtp.Ring

namespace Vcu

open Machine Window

theorem slot_eq_iff {i j : Nat} : slot i = slot j ↔ i % 4096 = j % 4096 := Fin.ext_iff

-- An overflow of an int is not seen modulo a divisor of 2 ^ 32.
theorem wrap32_modEq {m : Int} (hm : m ∣ 0x100000000) (x : Int) : wrap32 x ≡ x [ZMOD m] := by
  have hmod : (x + 0x80000000) % 0x100000000 ≡ x + 0x80000000 [ZMOD m] := (Int.mod_modEq _ _).of_dvd hm
  have hsub := hmod.sub_right 0x80000000
  rwa [add_sub_cancel_right] at hsub

-- However often the sequence numbers have wrapped, and whether times counts the wraps or not,
-- the slot depends on the distance of the sequence numbers only.
theorem receivePos_emod (seq first : UInt16) (times : Int) :
    ((receivePos seq times first : Nat) : Int) = ((seq.toNat : Int) - first.toNat) % 4096 := by
  have hlaps : 65536 * times ≡ 0 [ZMOD 4096] :=
    Int.modEq_zero_iff_dvd.mpr (Dvd.dvd.mul_right (by decide) times)
  have hsum : wrap32 (seq.toNat + wrap32 (65536 * times)) ≡ seq.toNat [ZMOD 4096] := by
    refine (wrap32_modEq (by decide) _).trans ?_
    have hadd := (((wrap32_modEq (by decide) (65536 * times)).trans hlaps).add_left (seq.toNat : Int))
    rwa [add_zero] at hadd
  have hunsigned : (0 : Int) ≤
      (wrap32 (seq.toNat + wrap32 (65536 * times)) - first.toNat) % 0x10000000000000000 :=
    Int.emod_nonneg _ (by decide)
  show ((((wrap32 (seq.toNat + wrap32 (65536 * times)) - first.toNat) % 0x10000000000000000).toNat %
    BUFFER_SIZE : Nat) : Int) = _
  rw [Int.natCast_emod, Int.toNat_of_nonneg hunsigned, BUFFER_SIZE, Nat.cast_ofNat,
    Int.emod_emod_of_dvd _ (by decide)]
  exact hsum.sub_right _

theorem receivePos_eq {seq first : UInt16} {j : Nat} (times : Int)
    (hseq : seq.toNat = (first.toNat + j) % 65536) : receivePos seq times first = slot j := by
  have hpos := receivePos_emod seq first times
  refine Fin.ext ?_
  show (receivePos seq times first : Nat) = j % 4096
  omega

@[simp] theorem arrivals_nil : arrivals [] = [] := rfl

@[simp] theorem arrivals_append (es fs : List Turn) :
    arrivals (es ++ fs) = arrivals es ++ arrivals fs := List.filterMap_append

@[simp] theorem arrivals_receive (j : Nat) : arrivals [.receive j] = [j] := rfl

@[simp] theorem arrivals_parse : arrivals [.parse] = [] := rfl

-- The packet of offset `j` lies unread in its slot.
def Unread (pkt : Nat → List UInt8) (s : Ring) (j : Nat) : Prop :=
  (s.vecRtp (slot j)).isValid = true ∧ (s.vecRtp (slot j)).pdata = pkt j

section Receive

variable {pkt : Nat → List UInt8} {first : UInt16} {s u : Ring} {j k : Nat}

-- All that a datagram of the stream changes.
theorem receive_spec (hpkt : Numbered pkt first)
    (hf : s.firstSeq = none ∧ j = 0 ∨ s.firstSeq = some first) (h : ringTurn pkt s (.receive j) = some u) :
    ∃ m : RtpModel, m.isValid = true ∧ m.pdata = pkt j ∧
      u.vecRtp = Function.update s.vecRtp (slot j) m ∧ u.reads = s.reads ∧
      u.semBuffer = (if s.index + 1 > 30 then s.semBuffer + 1 else s.semBuffer) ∧
      u.index = s.index + 1 ∧ u.parserIndex = s.parserIndex ∧ u.firstSeq = some first := by
  obtain ⟨seq, hseq, hnum⟩ := hpkt j
  have hfirst : s.firstSeq.getD seq = first := by
    rcases hf with ⟨hn, rfl⟩ | hs
    · rw [hn, Option.getD_none]
      have hlt := first.toNat_lt
      exact UInt16.toNat_inj.mp (by omega)
    · rw [hs, Option.getD_some]
  have hpos := receivePos_eq s.times hnum
  simp only [ringTurn, Ring.receive, RtpModel.ofDatagram, hseq, bind, Except.bind, pure, Except.pure,
    hfirst, hpos, Except.toOption, Option.some.injEq] at h
  subst h
  exact ⟨_, rfl, rfl, rfl, rfl, rfl, rfl, rfl, rfl⟩

theorem parse_spec (h : ringTurn pkt s .parse = some u) :
    0 < s.semBuffer ∧ u.semBuffer = s.semBuffer - 1 ∧ u.index = s.index ∧
      u.firstSeq = s.firstSeq ∧ u.parserIndex = s.parserIndex + 1 ∧
      u.reads = s.reads ++ [s.vecRtp (slot s.parserIndex.toNat)] ∧
      u.vecRtp = Function.update s.vecRtp (slot s.parserIndex.toNat)
        { s.vecRtp (slot s.parserIndex.toNat) with isValid := false } := by
  simp only [ringTurn, Ring.parse] at h
  split at h
  · cases h
  rename_i hsem
  split at h
  · rename_i hvalid
    obtain rfl := Option.some.inj h
    exact ⟨Nat.pos_of_ne_zero hsem, rfl, rfl, rfl, rfl, rfl, rfl⟩
  · rename_i hvalid
    obtain rfl := Option.some.inj h
    refine ⟨Nat.pos_of_ne_zero hsem, rfl, rfl, rfl, rfl, rfl, ?_⟩
    have hsame : ({ s.vecRtp (slot s.parserIndex.toNat) with isValid := false } : RtpModel) =
        s.vecRtp (slot s.parserIndex.toNat) := by
      cases hm : s.vecRtp (slot s.parserIndex.toNat) with
      | mk pdata buffer len seq isValid =>
          rw [hm] at hvalid
          simp only [RtpModel.mk.injEq, true_and]
          exact ((Bool.not_eq_true _).mp hvalid).symm
    rw [hsame, Function.update_eq_self]

end Receive

-- How the counters of the two threads follow the arrivals and the reads. The semaphore is 30
-- posts short, so the parser stays that far behind.
structure Counted (first : UInt16) (arr : List Nat) (s : Ring) : Prop where
  lag : s.semBuffer + s.reads.length ≤ arr.length - 30
  index : s.index.toNat = arr.length % 2 ^ 64
  parserIndex : s.parserIndex.toNat = s.reads.length % 2 ^ 64
  firstSeq : s.firstSeq = none ∧ arr = [] ∨ s.firstSeq = some first

section Counted

variable {pkt : Nat → List UInt8} {first : UInt16} {arr : List Nat} {s u : Ring} {j : Nat}

theorem counted_init (first : UInt16) : Counted first [] {} :=
  ⟨Nat.le_refl 0, rfl, rfl, .inl ⟨rfl, rfl⟩⟩

theorem Counted.slot_parserIndex (h : Counted first arr s) :
    slot s.parserIndex.toNat = slot s.reads.length := by
  rw [slot_eq_iff, h.parserIndex]
  omega

theorem Counted.firstSeq_or (h : Counted first arr s) (h0 : ∀ i ∈ (arr ++ [j]).head?, i = 0) :
    s.firstSeq = none ∧ j = 0 ∨ s.firstSeq = some first := by
  rcases h.firstSeq with ⟨hn, rfl⟩ | hs
  · exact .inl ⟨hn, h0 j rfl⟩
  · exact .inr hs

theorem Counted.receive (h : Counted first arr s) (hpkt : Numbered pkt first)
    (h0 : ∀ i ∈ (arr ++ [j]).head?, i = 0) (hu : ringTurn pkt s (.receive j) = some u) :
    Counted first (arr ++ [j]) u := by
  obtain ⟨m, -, -, -, hreads, hsem, hindex, hp, hf⟩ := receive_spec hpkt (h.firstSeq_or h0) hu
  have hlag := h.lag
  have hi := h.index
  have hnext : (s.index + 1).toNat = (arr.length + 1) % 2 ^ 64 := by
    rw [UInt64.toNat_add, hi]
    simp
  refine ⟨?_, ?_, ?_, .inr hf⟩
  · rw [hsem, hreads, List.length_append, List.length_singleton]
    split
    · rename_i hgt
      have hgt : 30 < (s.index + 1).toNat := hgt
      rw [hnext] at hgt
      have := Nat.mod_le (arr.length + 1) (2 ^ 64)
      omega
    · omega
  · rw [hindex, hnext, List.length_append, List.length_singleton]
  · rw [hp, hreads]
    exact h.parserIndex

theorem Counted.parse (h : Counted first arr s) (hu : ringTurn pkt s .parse = some u) :
    Counted first arr u := by
  obtain ⟨hpos, hsem, hindex, hf, hp, hreads, -⟩ := parse_spec hu
  have hlag := h.lag
  refine ⟨?_, ?_, ?_, ?_⟩
  · rw [hsem, hreads, List.length_append, List.length_singleton]
    omega
  · rw [hindex]
    exact h.index
  · rw [hp, hreads, UInt64.toNat_add, h.parserIndex, List.length_append, List.length_singleton]
    simp
  · rw [hf]
    exact h.firstSeq

theorem Counted.read_lt (h : Counted first arr s) (hpos : 0 < s.semBuffer) :
    s.reads.length + 30 < arr.length := by
  have hlag := h.lag
  omega

end Counted

theorem toNat_short (high low : UInt8) :
    (high.toUInt16 <<< 8 ||| low.toUInt16).toNat = high.toNat * 256 + low.toNat := by
  have hh := high.toNat_lt
  have hl := low.toNat_lt
  rw [UInt16.toNat_or, UInt16.toNat_shiftLeft, UInt8.toNat_toUInt16, UInt8.toNat_toUInt16]
  rw [Nat.mod_eq_of_lt (by rw [Nat.shiftLeft_eq]; simp; omega)]
  rw [← Nat.shiftLeft_add_eq_or_of_lt (by simpa using hl), Nat.shiftLeft_eq]
  simp

-- The shortest stream there is, numbered from 0.
def bareStream (j : Nat) : List UInt8 := [0x80, 0x60, UInt8.ofNat (j / 256), UInt8.ofNat j]

theorem bareStream_numbered : Numbered bareStream 0 := by
  intro j
  refine ⟨_, rfl, ?_⟩
  rw [toNat_short, UInt8.toNat_ofNat', UInt8.toNat_ofNat']
  simp
  omega

end Vcu
