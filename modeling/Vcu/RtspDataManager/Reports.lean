import Mathlib.Data.List.Chain
import Mathlib.Data.List.Induction
import Vcu.Rtp.Model

namespace Vcu

def htons (x : UInt16) : List UInt8 := [(x >>> 8).toUInt8, x.toUInt8]

def htonl (x : UInt32) : List UInt8 := htons (x >>> 16).toUInt16 ++ htons x.toUInt16

-- The buffer of one turn of send_report_thread. `isReceived` is false in the first turn, and
-- a turn that knows no sender report leaves the last eight bytes zero.
def reportBuffer (m : RtspDataManager) (LSR : UInt32) (srTime currentTime : UInt64)
    (isReceived : Bool) : List UInt8 :=
  [m.VERSION <<< 6 ||| 0x01, 201] ++ htons 7 ++ htonl 1 ++ htonl m.SSRC ++
    [0, 0xff, 0xff, 0xff] ++ htons m.wrapAroundCount ++ htons m.SEQ ++ htonl 80 ++
    if isReceived && srTime != 0 then htonl LSR ++ htonl ((currentTime - srTime) * 65536).toUInt32
    else List.replicate 8 0

theorem htons_joined (x : UInt16) : (x >>> 8).toUInt8.toUInt16 <<< 8 ||| x.toUInt8.toUInt16 = x := by
  apply UInt16.toNat.inj
  have hx := x.toNat_lt
  have h8 : (8 : UInt16).toNat % 16 = 8 := rfl
  rw [UInt16.toNat_or, UInt16.toNat_shiftLeft, UInt8.toNat_toUInt16, UInt8.toNat_toUInt16,
    UInt16.toNat_toUInt8, UInt16.toNat_toUInt8, UInt16.toNat_shiftRight, h8, Nat.shiftLeft_eq,
    Nat.shiftRight_eq_div_pow, Nat.mod_eq_of_lt (by omega), Nat.mul_comm,
    ← Nat.two_pow_add_eq_or_of_lt (by omega)]
  omega

theorem shorts_joined (high low : UInt16) :
    (high.toUInt32 <<< 16 ||| low.toUInt32).toNat = high.toNat * 65536 + low.toNat := by
  have hhigh := high.toNat_lt
  have hlow := low.toNat_lt
  have h16 : (16 : UInt32).toNat % 32 = 16 := rfl
  rw [UInt32.toNat_or, UInt32.toNat_shiftLeft, UInt16.toNat_toUInt32, UInt16.toNat_toUInt32, h16,
    Nat.shiftLeft_eq, Nat.mod_eq_of_lt (by omega), Nat.mul_comm,
    ← Nat.two_pow_add_eq_or_of_lt (by omega)]

theorem readShort_htons {before after : List UInt8} {x : UInt16} {i : Nat} (hi : i = before.length) :
    readShort (before ++ (htons x ++ after)) i = .ok x := by
  have hhigh : (before ++ (htons x ++ after))[i]? = some (x >>> 8).toUInt8 := by
    rw [hi, List.getElem?_append_right (Nat.le_refl _), Nat.sub_self]
    rfl
  have hlow : (before ++ (htons x ++ after))[i + 1]? = some x.toUInt8 := by
    rw [hi, List.getElem?_append_right (Nat.le_add_right ..), Nat.add_sub_cancel_left]
    rfl
  rw [readShort, readByte, readByte, hhigh, hlow]
  exact congrArg Except.ok (htons_joined x)

-- What bytes 16 to 19 of the report say.
def extendedHighest (m : RtspDataManager) : Nat := m.wrapAroundCount.toNat * 65536 + m.SEQ.toNat

theorem readInt_reportBuffer (m : RtspDataManager) (LSR : UInt32) (srTime currentTime : UInt64)
    (isReceived : Bool) :
    ∃ v, readInt (reportBuffer m LSR srTime currentTime isReceived) 16 = .ok v ∧
      v.toNat = extendedHighest m := by
  refine ⟨_, ?_, shorts_joined m.wrapAroundCount m.SEQ⟩
  have hhigh : readShort (reportBuffer m LSR srTime currentTime isReceived) 16 =
      .ok m.wrapAroundCount := by
    rw [reportBuffer, List.append_assoc, List.append_assoc, List.append_assoc]
    exact readShort_htons rfl
  have hlow : readShort (reportBuffer m LSR srTime currentTime isReceived) 18 = .ok m.SEQ := by
    rw [reportBuffer, List.append_assoc, List.append_assoc]
    exact readShort_htons rfl
  rw [readInt, hhigh, hlow]
  rfl

-- The state after setSeq was called for each packet.
def received (packets : List Nat) : RtspDataManager :=
  packets.foldl (fun m e => m.setSeq (UInt16.ofNat e)) {}

-- The extended sequence numbers of packets in order. No gap holds the last number of a cycle.
def Follows (a b : Nat) : Prop := a < b ∧ ∀ k, a < k → k < b → k % 65536 ≠ 65535

-- At every moment the report is the same number of cycles away from the latest packet.
def ReportsKeepUp (packets : List Nat) : Prop :=
  ∃ cycles, ∀ before e after, packets = before ++ e :: after →
    ∀ LSR srTime currentTime isReceived, ∃ v,
      readInt (reportBuffer (received (before ++ [e])) LSR srTime currentTime isReceived) 16 = .ok v ∧
      v.toNat % 4294967296 = (e + 65536 * cycles) % 4294967296

theorem received_concat (packets : List Nat) (e : Nat) :
    received (packets ++ [e]) = (received packets).setSeq (UInt16.ofNat e) := by
  rw [received, List.foldl_concat]
  rfl

theorem setSeq_of_le {m : RtspDataManager} {seq : UInt16} (hseq : seq ≠ 65535) (hmax : m.max ≤ seq) :
    m.setSeq seq = { m with SEQ := seq, max := seq } := by
  have hkeep : (if seq ≤ m.max then m.max else seq) = seq := by
    split
    · exact UInt16.le_antisymm hmax ‹_›
    · rfl
  simp only [RtspDataManager.setSeq, if_neg hseq, hkeep]

theorem setSeq_last (m : RtspDataManager) :
    (m.setSeq 65535).wrapAroundCount = m.wrapAroundCount + 1 := rfl

-- Once the maximum has reached its last value, every report says it.
theorem setSeq_stuck {m : RtspDataManager} (hmax : m.max = 65535) (seq : UInt16) :
    (m.setSeq seq).SEQ = 65535 ∧ (m.setSeq seq).max = 65535 := by
  by_cases hseq : seq = 65535
  · rw [hseq]
    exact ⟨rfl, rfl⟩
  · have hle : seq ≤ 65535 := UInt16.le_iff_toNat_le.mpr (Nat.le_of_lt_succ seq.toNat_lt)
    simp only [RtspDataManager.setSeq, if_neg hseq, hmax, if_pos hle, and_self]

theorem ofNat_eq_last_iff (e : Nat) : UInt16.ofNat e = 65535 ↔ e % 65536 = 65535 := by
  rw [← UInt16.toNat_inj, UInt16.toNat_ofNat']
  rfl

section Run

variable {before after packets : List Nat} {first e : Nat}

theorem prefix_of_split (h : packets = before ++ e :: after) : before ++ [e] <+: packets := by
  rw [h]
  exact ⟨after, by rw [List.append_assoc, List.singleton_append]⟩

theorem follows_of_concat {a : Nat} (hchain : (before ++ [a] ++ [e]).IsChain Follows) :
    Follows a e := by
  rw [List.append_assoc] at hchain
  exact (List.isChain_cons_cons.mp hchain.right_of_append).1

theorem head?_of_concat {a : Nat} (hfirst : (before ++ [a] ++ [e]).head? = some first) :
    (before ++ [a]).head? = some first := by
  cases before with
  | nil => exact hfirst
  | cons b before => exact hfirst

theorem head?_of_split (h : packets = before ++ e :: after) :
    (before ++ [e]).head? = some (packets.headD 0) := by
  cases before with
  | nil => rw [h]; rfl
  | cons a before => rw [h]; rfl

-- In a run without the last number every packet is of the same cycle.
theorem received_of_none_last (hchain : (before ++ [e]).IsChain Follows)
    (hnone : ∀ x ∈ before ++ [e], x % 65536 ≠ 65535) (hfirst : (before ++ [e]).head? = some first) :
    received (before ++ [e]) = { SEQ := UInt16.ofNat e, max := UInt16.ofNat e } ∧
      e / 65536 = first / 65536 := by
  have he : UInt16.ofNat e ≠ 65535 :=
    mt (ofNat_eq_last_iff e).mp (hnone e (List.mem_append_right _ (List.mem_singleton_self e)))
  induction before using List.reverseRecOn generalizing e with
  | nil =>
      obtain rfl := Option.some.inj hfirst
      exact ⟨setSeq_of_le he (UInt16.le_iff_toNat_le.mpr (Nat.zero_le _)), rfl⟩
  | append_singleton before a ih =>
      have ha := hnone a (List.mem_append_left _ (List.mem_append_right _ (List.mem_singleton_self a)))
      obtain ⟨hlt, hgap⟩ := follows_of_concat hchain
      obtain ⟨hstate, hcycle⟩ := ih hchain.left_of_append
        (fun x hx => hnone x (List.mem_append_left _ hx)) (head?_of_concat hfirst)
        (mt (ofNat_eq_last_iff a).mp ha)
      have hsame : e / 65536 = a / 65536 := by
        by_contra hne
        exact hgap (a / 65536 * 65536 + 65535) (by omega) (by omega) (by omega)
      refine ⟨?_, hsame.trans hcycle⟩
      rw [received_concat, hstate]
      refine setSeq_of_le he (UInt16.le_iff_toNat_le.mpr ?_)
      rw [UInt16.toNat_ofNat', UInt16.toNat_ofNat']
      omega

-- A run of last numbers only goes through one cycle with each packet.
theorem received_of_all_last (hchain : (before ++ [e]).IsChain Follows)
    (hall : ∀ x ∈ before ++ [e], x % 65536 = 65535) (hfirst : (before ++ [e]).head? = some first) :
    (received (before ++ [e])).wrapAroundCount = UInt16.ofNat (2 + before.length) ∧
      e / 65536 = first / 65536 + before.length := by
  have he := hall e (List.mem_append_right _ (List.mem_singleton_self e))
  rw [received_concat, (ofNat_eq_last_iff e).mpr he]
  induction before using List.reverseRecOn generalizing e with
  | nil =>
      obtain rfl := Option.some.inj hfirst
      exact ⟨rfl, rfl⟩
  | append_singleton before a ih =>
      have ha := hall a (List.mem_append_left _ (List.mem_append_right _ (List.mem_singleton_self a)))
      obtain ⟨hlt, hgap⟩ := follows_of_concat hchain
      obtain ⟨hwraps, hcycle⟩ := ih hchain.left_of_append
        (fun x hx => hall x (List.mem_append_left _ hx)) (head?_of_concat hfirst) ha
      have hnext : e / 65536 = a / 65536 + 1 := by
        by_contra hne
        exact hgap (a + 65536) (by omega) (by omega) (by omega)
      rw [List.length_append, List.length_singleton, ← Nat.add_assoc]
      refine ⟨?_, by omega⟩
      rw [received_concat, (ofNat_eq_last_iff a).mpr ha, setSeq_last, hwraps]
      exact (UInt16.ofNat_add (2 + before.length) 1).symm

theorem received_of_mem_last {x : Nat} (hx : x ∈ packets) (hlast : x % 65536 = 65535) :
    (received packets).SEQ = 65535 ∧ (received packets).max = 65535 := by
  induction packets using List.reverseRecOn with
  | nil => cases hx
  | append_singleton packets e ih =>
      rw [received_concat]
      rcases List.mem_append.mp hx with hx | hx
      · exact setSeq_stuck (ih hx).2 _
      · obtain rfl := List.mem_singleton.mp hx
        rw [(ofNat_eq_last_iff x).mpr hlast]
        exact ⟨rfl, rfl⟩

theorem extendedHighest_mod (m : RtspDataManager) : extendedHighest m % 65536 = m.SEQ.toNat := by
  have hseq := m.SEQ.toNat_lt
  rw [extendedHighest]
  omega

theorem reportsKeepUp_of_cycles (cycles : Nat)
    (h : ∀ before e after, packets = before ++ e :: after →
      extendedHighest (received (before ++ [e])) % 4294967296 = (e + 65536 * cycles) % 4294967296) :
    ReportsKeepUp packets := by
  refine ⟨cycles, ?_⟩
  intro before e after hsplit LSR srTime currentTime isReceived
  obtain ⟨v, hread, hv⟩ := readInt_reportBuffer (received (before ++ [e])) LSR srTime currentTime
    isReceived
  exact ⟨v, hread, by rw [hv, h before e after hsplit]⟩

theorem ReportsKeepUp.cycles (h : ReportsKeepUp packets) :
    ∃ cycles, ∀ before e after, packets = before ++ e :: after →
      extendedHighest (received (before ++ [e])) % 4294967296 =
        (e + 65536 * cycles) % 4294967296 := by
  obtain ⟨cycles, hcycles⟩ := h
  refine ⟨cycles, ?_⟩
  intro before e after hsplit
  obtain ⟨v, hread, hv⟩ := hcycles before e after hsplit 0 0 0 false
  obtain ⟨w, hread', hw⟩ := readInt_reportBuffer (received (before ++ [e])) 0 0 0 false
  obtain rfl := Except.ok.inj (hread.symm.trans hread')
  rw [← hw, hv]

theorem reportsKeepUp_of_none_last (hchain : packets.IsChain Follows)
    (hnone : ∀ x ∈ packets, x % 65536 ≠ 65535) : ReportsKeepUp packets := by
  apply reportsKeepUp_of_cycles (1 + 65535 * (packets.headD 0 / 65536))
  intro before e after hsplit
  have hpre := prefix_of_split hsplit
  have hfirst := head?_of_split hsplit
  have hbefore := List.IsChain.prefix hchain hpre
  obtain ⟨hstate, hcycle⟩ := received_of_none_last hbefore
    (fun x hx => hnone x (hpre.subset hx)) hfirst
  have hwraps : (received (before ++ [e])).wrapAroundCount = 1 := by rw [hstate]
  have hseq : (received (before ++ [e])).SEQ = UInt16.ofNat e := by rw [hstate]
  rw [extendedHighest, hwraps, hseq, UInt16.toNat_ofNat']
  have hone : (1 : UInt16).toNat = 1 := rfl
  omega

theorem reportsKeepUp_of_all_last (hchain : packets.IsChain Follows)
    (hall : ∀ x ∈ packets, x % 65536 = 65535) : ReportsKeepUp packets := by
  apply reportsKeepUp_of_cycles (2 + 65535 * (packets.headD 0 / 65536))
  intro before e after hsplit
  have hpre := prefix_of_split hsplit
  have hfirst := head?_of_split hsplit
  have hbefore := List.IsChain.prefix hchain hpre
  obtain ⟨hwraps, hcycle⟩ := received_of_all_last hbefore
    (fun x hx => hall x (hpre.subset hx)) hfirst
  have hmem : e ∈ before ++ [e] := List.mem_append_right _ (List.mem_singleton_self e)
  have he := hall e (hpre.subset hmem)
  rw [extendedHighest, hwraps, (received_of_mem_last hmem he).1, UInt16.toNat_ofNat']
  have hlast : (65535 : UInt16).toNat = 65535 := rfl
  omega

theorem exists_first_last {x : Nat} (hx : x ∈ packets) (hlast : x % 65536 = 65535) :
    ∃ before y after, packets = before ++ y :: after ∧ y % 65536 = 65535 ∧
      ∀ z ∈ before, z % 65536 ≠ 65535 := by
  have hfound : (packets.find? fun z => z % 65536 = 65535).isSome :=
    List.find?_isSome.mpr ⟨x, hx, decide_eq_true hlast⟩
  obtain ⟨y, hy⟩ := Option.isSome_iff_exists.mp hfound
  obtain ⟨hy, before, after, hsplit, hbefore⟩ := List.find?_eq_some_iff_append.mp hy
  refine ⟨before, y, after, hsplit, of_decide_eq_true hy, ?_⟩
  intro z hz
  have hne := hbefore z hz
  rw [Bool.not_eq_true', decide_eq_false_iff_not] at hne
  exact hne

-- Before the last number the report counts one cycle less, and behind it the report stays at it.
theorem ReportsKeepUp.uniform (hchain : packets.IsChain Follows) (h : ReportsKeepUp packets)
    {x : Nat} (hx : x ∈ packets) (hlast : x % 65536 = 65535) :
    ∀ y ∈ packets, y % 65536 = 65535 := by
  obtain ⟨cycles, hcycles⟩ := h.cycles
  obtain ⟨before, y, after, rfl, hy, hnone⟩ := exists_first_last hx hlast
  have hhere := hcycles before y after rfl
  cases before using List.reverseRecOn with
  | nil =>
      intro z hz
      rcases List.mem_cons.mp hz with rfl | hz
      · exact hy
      · obtain ⟨mid, rest, rfl⟩ := List.append_of_mem hz
        have hthere := hcycles (y :: mid) z rest rfl
        have hmod := extendedHighest_mod (received (y :: mid ++ [z]))
        rw [(received_of_mem_last (List.mem_append_left _ (List.mem_cons_self ..)) hy).1] at hmod
        have h65535 : (65535 : UInt16).toNat = 65535 := rfl
        omega
  | append_singleton before a =>
      exfalso
      have hpre : before ++ [a] ++ [y] <+: before ++ [a] ++ y :: after := prefix_of_split rfl
      have hchain' := List.IsChain.prefix hchain hpre
      obtain ⟨hlt, hgap⟩ := follows_of_concat hchain'
      have ha := hnone a (List.mem_append_right _ (List.mem_singleton_self a))
      have hbefore := hcycles before a (y :: after) (by rw [List.append_assoc]; rfl)
      have hsplit : before ++ [a] = before ++ a :: [] := rfl
      obtain ⟨hstate, -⟩ := received_of_none_last hchain'.left_of_append hnone (head?_of_split hsplit)
      have hsame : y / 65536 = a / 65536 := by
        by_contra hne
        exact hgap (a / 65536 * 65536 + 65535) (by omega) (by omega) (by omega)
      have hreport : extendedHighest (received (before ++ [a] ++ [y])) = 2 * 65536 + 65535 := by
        rw [received_concat, hstate, (ofNat_eq_last_iff y).mpr hy]
        rfl
      have hreport' : extendedHighest (received (before ++ [a])) = 1 * 65536 + a % 65536 := by
        rw [hstate, extendedHighest, UInt16.toNat_ofNat']
        rfl
      omega

-- The reports keep up exactly if the last number of a cycle never arrives, or nothing else does.
theorem reportsKeepUp_iff (hchain : packets.IsChain Follows) :
    ReportsKeepUp packets ↔
      (∀ x ∈ packets, x % 65536 ≠ 65535) ∨ ∀ x ∈ packets, x % 65536 = 65535 := by
  constructor
  · intro h
    by_cases hnone : ∀ x ∈ packets, x % 65536 ≠ 65535
    · exact .inl hnone
    · obtain ⟨x, hx⟩ := not_forall.mp hnone
      obtain ⟨hx, hlast⟩ := Classical.not_imp.mp hx
      exact .inr (h.uniform hchain hx (not_not.mp hlast))
  · rintro (hnone | hall)
    · exact reportsKeepUp_of_none_last hchain hnone
    · exact reportsKeepUp_of_all_last hchain hall

end Run

theorem follows_of_same_cycle {a b : Nat} (hlt : a < b) (hb : b / 65536 * 65536 ≤ a) : Follows a b :=
  ⟨hlt, fun k hk hk' => by omega⟩

theorem reportsKeepUp_iff_gap : ReportsKeepUp [5, 6, 65534] := by
  have hchain : [5, 6, 65534].IsChain Follows :=
    .cons_cons (follows_of_same_cycle (by decide) (by decide))
      (.cons_cons (follows_of_same_cycle (by decide) (by decide)) (.singleton _))
  exact (reportsKeepUp_iff hchain).mpr (.inl (by decide))

-- Four packets over the end of a cycle. The last report still says 65535 for packet 65537.
theorem not_reportsKeepUp_wrap :
    [65534, 65535, 65536, 65537].IsChain Follows ∧
      extendedHighest (received [65534, 65535, 65536, 65537]) = 2 * 65536 + 65535 ∧
      ¬ ReportsKeepUp [65534, 65535, 65536, 65537] := by
  have hwrap : Follows 65535 65536 := ⟨by decide, fun k hk hk' => by omega⟩
  refine ⟨.cons_cons (follows_of_same_cycle (by decide) (by decide)) (.cons_cons hwrap
    (.cons_cons (follows_of_same_cycle (by decide) (by decide)) (.singleton _))), by decide, ?_⟩
  · intro h
    obtain ⟨cycles, hcycles⟩ := h.cycles
    have hlast := hcycles [65534, 65535, 65536] 65537 [] rfl
    have hvalue : extendedHighest (received ([65534, 65535, 65536] ++ [65537])) = 196607 := by decide
    omega

end Vcu
