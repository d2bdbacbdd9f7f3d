import Mathlib.Data.List.Nodup
import Vcu.Lib.History
import Vcu.Lib.Reorder
import Vcu.Rtp.Ring.Lemmas

namespace Vcu

open Machine Window Reorder History

-- The parser takes every post before the next packet arrives.
def Eager : List Turn → Ring → Turn → Prop :=
  fun _ s e => ∀ j, e = .receive j → s.semBuffer = 0

-- The slots that the parser meets from packet `j` to the end of its lap are free.
def Ring.freeFrom (s : Ring) (j : Nat) : Prop :=
  ∀ d, (j - s.reads.length) % 4096 ≤ d → d < 4096 →
    (s.vecRtp (slot (s.reads.length + d))).isValid = false

-- A packet that fits. A repeated packet comes while its first copy is unread. A new one comes
-- after at most 30 arrivals more than its offset, and behind everything unread.
def Fits : List Turn → Ring → Turn → Prop := fun before s e =>
  ∀ j, e = .receive j →
    if (arrivals before).getLast? = some j then (s.vecRtp (slot j)).isValid = true
    else (arrivals before).length ≤ j + 30 ∧ s.freeFrom j

-- What must hold when packet `j` arrives. The parser has not passed it, and no other packet is
-- overwritten unread.
def Undisturbed (pkt : Nat → List UInt8) : List Turn → Ring → Turn → Prop := fun _ s e =>
  ∀ j, e = .receive j → s.reads.length ≤ j ∧
    ((s.vecRtp (slot j)).isValid = true → (s.vecRtp (slot j)).pdata = pkt j)

-- The packets handed on, in order.
def Ring.handed (s : Ring) : List (List UInt8) :=
  (s.reads.filter RtpModel.isValid).map RtpModel.pdata

-- The offsets of the packets read and of the packets unread, in one increasing list. Those read
-- were read no later than at their own position, and those unread wait to be read in order.
structure Kept (pkt : Nat → List UInt8) (arr : List Nat) (s : Ring) (out pending : List Nat) :
    Prop where
  sorted : (out ++ pending).Pairwise (· < ·)
  mem : ∀ j, j ∈ out ++ pending ↔ j ∈ arr
  handed : s.handed = out.map pkt
  timely : ∀ k m, s.reads[k]? = some m → m.isValid = true →
    ∃ j ∈ out, k ≤ j ∧ k % 4096 = j % 4096 ∧ m.pdata = pkt j
  ahead : ∀ j ∈ pending, s.reads.length ≤ j
  inLine : pending.Pairwise fun i j => reach 4096 s.reads.length i < reach 4096 s.reads.length j
  unread : ∀ j ∈ pending, Unread pkt s j
  only : ∀ q, (s.vecRtp q).isValid = true → ∃ j ∈ pending, slot j = q

section Step

variable {pkt : Nat → List UInt8} {first : UInt16} {arr out pending : List Nat} {s u : Ring}
  {j : Nat}

-- Two pending packets never share a slot.
theorem Kept.slot_inj (h : Kept pkt arr s out pending) {i : Nat} (hi : i ∈ pending)
    (hj : j ∈ pending) (he : slot i = slot j) : i = j := by
  have hr := reach_eq_of_mod_eq (by decide) (h.ahead i hi) (h.ahead j hj) (slot_eq_iff.mp he)
  have hn : (pending.map (reach 4096 s.reads.length)).Nodup :=
    List.pairwise_map.mpr (h.inLine.imp fun hlt => Nat.ne_of_lt hlt)
  exact List.inj_on_of_nodup_map hn hi hj hr

-- The last arrival is the greatest of all.
theorem le_last (ha : Thinned arr) (hl : arr.getLast? = some j) {i : Nat} (hi : i ∈ arr) :
    i ≤ j := by
  obtain ⟨ys, rfl⟩ := List.getLast?_eq_some_iff.mp hl
  rcases List.mem_append.mp hi with hi | hi
  · exact (List.pairwise_append.mp ha.sorted).2.2 i hi j (by simp)
  · exact Nat.le_of_eq (List.mem_singleton.mp hi)

theorem lt_of_new (ha : Thinned (arr ++ [j])) (hl : arr.getLast? ≠ some j) {i : Nat}
    (hi : i ∈ arr) : i < j := by
  have hle : ∀ x ∈ arr, x ≤ j := fun x hx => (List.pairwise_append.mp ha.sorted).2.2 x hx j (by simp)
  rcases Nat.lt_or_eq_of_le (hle i hi) with hlt | rfl
  · exact hlt
  · cases hlast : arr.getLast? with
    | none => rw [List.getLast?_eq_none_iff.mp hlast] at hi; cases hi
    | some l =>
        have h1 := le_last ha.of_append hlast hi
        have h2 := hle l (List.mem_of_getLast? hlast)
        exact absurd (hlast.trans (congrArg some (Nat.le_antisymm h2 h1))) hl

theorem Kept.repeated (h : Kept pkt arr s out pending) (ha : Thinned arr)
    (hl : arr.getLast? = some j) (hv : (s.vecRtp (slot j)).isValid = true) : j ∈ pending := by
  obtain ⟨i, hi, he⟩ := h.only (slot j) hv
  have hij : i ≤ j := le_last ha hl ((h.mem i).mp (List.mem_append_right _ hi))
  have hj : j ∈ out ++ pending := (h.mem j).mpr (List.mem_of_getLast? hl)
  rcases List.mem_append.mp hj with hj | hj
  · have := (List.pairwise_append.mp h.sorted).2.2 j hj i hi
    omega
  · exact hj

theorem Kept.receive_repeated (h : Kept pkt arr s out pending) (hc : Counted first arr s)
    (hpkt : Numbered pkt first) (ha : Thinned (arr ++ [j])) (hj : j ∈ pending)
    (hu : ringTurn pkt s (.receive j) = some u) : Kept pkt (arr ++ [j]) u out pending := by
  obtain ⟨m, hvalid, hdata, hvec, hreads, -⟩ := receive_spec hpkt (hc.firstSeq_or ha.first) hu
  have hmem : j ∈ arr := (h.mem j).mp (List.mem_append_right _ hj)
  refine ⟨h.sorted, ?_, ?_, ?_, ?_, ?_, ?_, ?_⟩
  · intro i
    rw [h.mem, List.mem_append, List.mem_singleton]
    constructor
    · exact .inl
    · rintro (hi | rfl)
      · exact hi
      · exact hmem
  · rw [Ring.handed, hreads]
    exact h.handed
  · rw [hreads]
    exact h.timely
  · rw [hreads]
    exact h.ahead
  · rw [hreads]
    exact h.inLine
  · intro i hi
    rw [Unread, hvec]
    by_cases he : slot i = slot j
    · rw [he, Function.update_self, h.slot_inj hi hj he]
      exact ⟨hvalid, hdata⟩
    · rw [Function.update_of_ne he]
      exact h.unread i hi
  · intro q hq
    rw [hvec] at hq
    by_cases he : q = slot j
    · exact ⟨j, hj, he.symm⟩
    · rw [Function.update_of_ne he] at hq
      exact h.only q hq

theorem Kept.receive_new (h : Kept pkt arr s out pending) (hc : Counted first arr s)
    (hpkt : Numbered pkt first) (ha : Thinned (arr ++ [j])) (hl : arr.getLast? ≠ some j)
    (hn : arr.length ≤ j + 30) (hfree : s.freeFrom j)
    (hu : ringTurn pkt s (.receive j) = some u) :
    Kept pkt (arr ++ [j]) u out (pending ++ [j]) := by
  obtain ⟨m, hvalid, hdata, hvec, hreads, -⟩ := receive_spec hpkt (hc.firstSeq_or ha.first) hu
  have hlag := hc.lag
  have hp : s.reads.length ≤ j := by omega
  -- Everything unread is met before packet j, since from its slot on all are free.
  have hbefore : ∀ i ∈ pending, reach 4096 s.reads.length i < reach 4096 s.reads.length j := by
    intro i hi
    by_contra hge
    have hd := hfree ((i - s.reads.length) % 4096) (by unfold reach at hge; omega)
      (Nat.mod_lt _ (by decide))
    have hslot : slot (s.reads.length + (i - s.reads.length) % 4096) = slot i :=
      slot_eq_iff.mpr (reach_mod (h.ahead i hi))
    rw [hslot, (h.unread i hi).1] at hd
    cases hd
  have hne : ∀ i ∈ pending, slot i ≠ slot j := by
    intro i hi he
    have := reach_eq_of_mod_eq (by decide) (h.ahead i hi) hp (slot_eq_iff.mp he)
    have := hbefore i hi
    omega
  refine ⟨?_, ?_, ?_, ?_, ?_, ?_, ?_, ?_⟩
  · rw [← List.append_assoc]
    refine List.pairwise_append.mpr ⟨h.sorted, List.pairwise_singleton _ _, ?_⟩
    intro i hi k hk
    rw [List.mem_singleton.mp hk]
    exact lt_of_new ha hl ((h.mem i).mp hi)
  · intro i
    rw [← List.append_assoc, List.mem_append, h.mem, List.mem_append]
  · rw [Ring.handed, hreads]
    exact h.handed
  · rw [hreads]
    exact h.timely
  · rw [hreads]
    intro i hi
    rcases List.mem_append.mp hi with hi | hi
    · exact h.ahead i hi
    · rwa [List.mem_singleton.mp hi]
  · rw [hreads]
    refine List.pairwise_append.mpr ⟨h.inLine, List.pairwise_singleton _ _, ?_⟩
    intro i hi k hk
    rw [List.mem_singleton.mp hk]
    exact hbefore i hi
  · intro i hi
    rw [Unread, hvec]
    rcases List.mem_append.mp hi with hi | hi
    · rw [Function.update_of_ne (hne i hi)]
      exact h.unread i hi
    · rw [List.mem_singleton.mp hi, Function.update_self]
      exact ⟨hvalid, hdata⟩
  · intro q hq
    rw [hvec] at hq
    by_cases he : q = slot j
    · exact ⟨j, by simp, he.symm⟩
    · rw [Function.update_of_ne he] at hq
      obtain ⟨i, hi, hiq⟩ := h.only q hq
      exact ⟨i, List.mem_append_left _ hi, hiq⟩

theorem handed_append (l : List RtpModel) (m : RtpModel) :
    ((l ++ [m]).filter RtpModel.isValid).map RtpModel.pdata =
      (l.filter RtpModel.isValid).map RtpModel.pdata ++ if m.isValid then [m.pdata] else [] := by
  rw [List.filter_append, List.map_append]
  cases hv : m.isValid <;> simp [hv]

-- What a step of the parser keeps of the pending packets that lie in other slots, and what it adds
-- to the packets read.
structure ParseKeeps (pkt : Nat → List UInt8) (s u : Ring) (out pending : List Nat) : Prop where
  handed : u.handed = s.handed ++
    if (s.vecRtp (slot s.reads.length)).isValid then [(s.vecRtp (slot s.reads.length)).pdata] else []
  ahead : ∀ i ∈ pending, slot i ≠ slot s.reads.length → u.reads.length ≤ i
  reach : ∀ i ∈ pending, slot i ≠ slot s.reads.length →
    reach 4096 u.reads.length i = reach 4096 s.reads.length i
  unread : ∀ i ∈ pending, slot i ≠ slot s.reads.length → Unread pkt u i
  only : ∀ q, (u.vecRtp q).isValid = true → q ≠ slot s.reads.length ∧ ∃ i ∈ pending, slot i = q
  timely : ∀ out' : List Nat, (∀ i ∈ out, i ∈ out') →
    ((s.vecRtp (slot s.reads.length)).isValid = true → ∃ j ∈ out', s.reads.length ≤ j ∧
      s.reads.length % 4096 = j % 4096 ∧ (s.vecRtp (slot s.reads.length)).pdata = pkt j) →
    ∀ k m, u.reads[k]? = some m → m.isValid = true →
      ∃ j ∈ out', k ≤ j ∧ k % 4096 = j % 4096 ∧ m.pdata = pkt j

theorem Kept.parseKeeps (h : Kept pkt arr s out pending) (hc : Counted first arr s)
    (hu : ringTurn pkt s .parse = some u) : ParseKeeps pkt s u out pending := by
  obtain ⟨-, -, -, -, -, hreads, hvec⟩ := parse_spec hu
  rw [hc.slot_parserIndex] at hreads hvec
  have hlen : u.reads.length = s.reads.length + 1 := by
    rw [hreads, List.length_append, List.length_singleton]
  refine ⟨?_, ?_, ?_, ?_, ?_, ?_⟩
  · rw [Ring.handed, hreads, handed_append]
    rfl
  · intro i hi hne
    have := h.ahead i hi
    rw [hlen]
    rcases Nat.lt_or_eq_of_le this with hlt | rfl
    · exact hlt
    · exact absurd rfl hne
  · intro i hi hne
    rw [hlen]
    exact reach_succ (by decide) (h.ahead i hi) fun he => hne (slot_eq_iff.mpr he)
  · intro i hi hne
    rw [Unread, hvec, Function.update_of_ne hne]
    exact h.unread i hi
  · intro q hq
    rw [hvec] at hq
    by_cases he : q = slot s.reads.length
    · rw [he, Function.update_self] at hq
      cases hq
    · rw [Function.update_of_ne he] at hq
      exact ⟨he, h.only q hq⟩
  · intro out' hsub hnew k m hm hv
    rw [hreads] at hm
    rcases getElem?_concat_eq_some.mp hm with hm | ⟨rfl, rfl⟩
    · obtain ⟨i, hi, hrest⟩ := h.timely k m hm hv
      exact ⟨i, hsub i hi, hrest⟩
    · exact hnew hv

theorem Kept.parse_free (h : Kept pkt arr s out pending) (hk : ParseKeeps pkt s u out pending)
    (hv : (s.vecRtp (slot s.reads.length)).isValid = false) : Kept pkt arr u out pending := by
  have hne : ∀ i ∈ pending, slot i ≠ slot s.reads.length := by
    intro i hi he
    have := (h.unread i hi).1
    rw [he, hv] at this
    cases this
  refine ⟨h.sorted, h.mem, ?_, ?_, ?_, ?_, ?_, ?_⟩
  · rw [hk.handed, hv, h.handed]
    simp
  · exact hk.timely out (fun i hi => hi) fun ht => by rw [hv] at ht; cases ht
  · exact fun i hi => hk.ahead i hi (hne i hi)
  · refine h.inLine.imp_of_mem fun {i k} hi hj hik => ?_
    rwa [hk.reach i hi (hne i hi), hk.reach k hj (hne k hj)]
  · exact fun i hi => hk.unread i hi (hne i hi)
  · exact fun q hq => (hk.only q hq).2

-- The packet in the slot is the first one in the line, since no other can come before it.
theorem Kept.head_of_slot (h : Kept pkt arr s out pending) (hj : j ∈ pending)
    (hslot : slot j = slot s.reads.length) : ∃ rest, pending = j :: rest := by
  have hreach : reach 4096 s.reads.length j = s.reads.length := by
    rw [reach_eq_of_mod_eq (by decide) (h.ahead j hj) (Nat.le_refl _) (slot_eq_iff.mp hslot)]
    exact reach_eq_self (Nat.le_refl _) (by omega)
  cases pending with
  | nil => cases hj
  | cons i rest =>
      rcases List.mem_cons.mp hj with rfl | hjr
      · exact ⟨rest, rfl⟩
      · have hlt := (List.pairwise_cons.mp h.inLine).1 j hjr
        have hle : s.reads.length ≤ reach 4096 s.reads.length i := le_reach
        omega

theorem Kept.parse_head {rest : List Nat} (h : Kept pkt arr s out (j :: rest))
    (hk : ParseKeeps pkt s u out (j :: rest)) (hslot : slot j = slot s.reads.length) :
    Kept pkt arr u (out ++ [j]) rest := by
  have hj : j ∈ j :: rest := List.mem_cons_self
  obtain ⟨hv, hdata⟩ := h.unread j hj
  rw [hslot] at hv hdata
  have hline := List.pairwise_cons.mp h.inLine
  have hmem : ∀ i ∈ rest, i ∈ j :: rest := fun i hi => List.mem_cons_of_mem _ hi
  have hne : ∀ i ∈ rest, slot i ≠ slot s.reads.length := by
    intro i hi he
    have hij := h.slot_inj (hmem i hi) hj (he.trans hslot.symm)
    have := hline.1 i hi
    rw [hij] at this
    exact Nat.lt_irrefl _ this
  have hsplit : (out ++ [j]) ++ rest = out ++ j :: rest := by simp
  refine ⟨?_, ?_, ?_, ?_, ?_, ?_, ?_, ?_⟩
  · rw [hsplit]
    exact h.sorted
  · rw [hsplit]
    exact h.mem
  · rw [hk.handed, hv, h.handed, hdata]
    simp
  · refine hk.timely _ (fun i hi => List.mem_append_left _ hi) fun _ => ?_
    exact ⟨j, by simp, h.ahead j hj, (slot_eq_iff.mp hslot).symm, hdata⟩
  · exact fun i hi => hk.ahead i (hmem i hi) (hne i hi)
  · refine hline.2.imp_of_mem fun {i k} hi hl hik => ?_
    rwa [hk.reach i (hmem i hi) (hne i hi), hk.reach k (hmem k hl) (hne k hl)]
  · exact fun i hi => hk.unread i (hmem i hi) (hne i hi)
  · intro q hq
    obtain ⟨hqne, i, hi, hiq⟩ := hk.only q hq
    rcases List.mem_cons.mp hi with rfl | hi
    · exact absurd (hiq.symm.trans hslot) hqne
    · exact ⟨i, hi, hiq⟩

-- The parser goes one slot on. The packet there, if any, is the first of those pending.
theorem Kept.parse (h : Kept pkt arr s out pending) (hc : Counted first arr s)
    (hu : ringTurn pkt s .parse = some u) : ∃ out' pending', Kept pkt arr u out' pending' := by
  have hk := h.parseKeeps hc hu
  cases hv : (s.vecRtp (slot s.reads.length)).isValid with
  | false => exact ⟨out, pending, h.parse_free hk hv⟩
  | true =>
      obtain ⟨j, hj, hslot⟩ := h.only _ hv
      obtain ⟨rest, rfl⟩ := h.head_of_slot hj hslot
      exact ⟨out ++ [j], rest, h.parse_head hk hslot⟩

end Step

theorem Kept.receive {pkt : Nat → List UInt8} {first : UInt16} {es : List Turn} {s u : Ring}
    {out pending : List Nat} {j : Nat} (h : Kept pkt (arrivals es) s out pending)
    (hc : Counted first (arrivals es) s) (hpkt : Numbered pkt first)
    (ha : Thinned (arrivals es ++ [j])) (hfit : Fits es s (.receive j))
    (hu : ringTurn pkt s (.receive j) = some u) :
    ∃ out pending, Kept pkt (arrivals es ++ [j]) u out pending := by
  have hfit := hfit j rfl
  split at hfit
  · rename_i hl
    exact ⟨_, _, h.receive_repeated hc hpkt ha (h.repeated ha.of_append hl hfit) hu⟩
  · rename_i hl
    exact ⟨_, _, h.receive_new hc hpkt ha hl hfit.1 hfit.2 hu⟩

theorem kept_run {pkt : Nat → List UInt8} {first : UInt16} (hpkt : Numbered pkt first)
    {es : List Turn} {s : Ring} (ha : Thinned (arrivals es))
    (hf : Along (ringTurn pkt) Fits {} es) (hr : run (ringTurn pkt) {} es = some s) :
    Counted first (arrivals es) s ∧ ∃ out pending, Kept pkt (arrivals es) s out pending := by
  refine run_invariant_along Fits
    (fun es s => Thinned (arrivals es) → Counted first (arrivals es) s ∧
      ∃ out pending, Kept pkt (arrivals es) s out pending) ?_ ?_ hf hr ha
  · intro _
    exact ⟨counted_init first, [], [], by simp, by simp, rfl, by simp, by simp, by simp, by simp,
      by simp⟩
  · intro es t e u ih hg hu ha
    rw [arrivals_append] at ha ⊢
    obtain ⟨hc, out, pending, hk⟩ := ih ha.of_append
    cases e with
    | receive j =>
        rw [arrivals_receive] at ha ⊢
        exact ⟨hc.receive hpkt ha.first hu, hk.receive hc hpkt ha hg hu⟩
    | parse =>
        rw [arrivals_parse, List.append_nil] at ha ⊢
        exact ⟨hc.parse hu, hk.parse hc hu⟩

theorem Kept.undisturbed {pkt : Nat → List UInt8} {first : UInt16} {es : List Turn} {s : Ring}
    {out pending : List Nat} {e : Turn} (h : Kept pkt (arrivals es) s out pending)
    (hc : Counted first (arrivals es) s) (ha : Thinned (arrivals es)) (hfit : Fits es s e) :
    Undisturbed pkt es s e := by
  rintro j rfl
  have hfit := hfit j rfl
  split at hfit
  · rename_i hl
    have hj := h.repeated ha hl hfit
    exact ⟨h.ahead j hj, fun _ => (h.unread j hj).2⟩
  · have hlag := hc.lag
    have hp : s.reads.length ≤ j := by omega
    refine ⟨hp, fun hv => ?_⟩
    have hfree := hfit.2 _ (Nat.le_refl _) (Nat.mod_lt _ (by decide))
    have hslot : slot (s.reads.length + (j - s.reads.length) % 4096) = slot j :=
      slot_eq_iff.mpr (reach_mod hp)
    rw [hslot, hv] at hfree
    cases hfree

-- A new packet that is less than a lap ahead of the parser has everything unread before it.
theorem Kept.freeFrom {pkt : Nat → List UInt8} {arr out pending : List Nat} {s : Ring} {j : Nat}
    (h : Kept pkt arr s out pending) (ha : Thinned (arr ++ [j])) (hl : arr.getLast? ≠ some j)
    (hp : s.reads.length ≤ j) (hj : j < s.reads.length + 4096) : s.freeFrom j := by
  intro d hd hlt
  rw [Nat.mod_eq_of_lt (by omega)] at hd
  by_contra hv
  obtain ⟨i, hi, hslot⟩ := h.only _ (by simpa using hv)
  have hij : i < j := lt_of_new ha hl ((h.mem i).mp (List.mem_append_right _ hi))
  have hie := eq_of_mod_eq (h.ahead i hi) (by omega) (Nat.le_add_right _ d) (by omega)
    (slot_eq_iff.mp hslot)
  omega

-- In a run whose packets all fit, losses and repetitions do no harm.
theorem thinned_stream_kept (pkt : Nat → List UInt8) (first : UInt16) (es : List Turn) (s : Ring)
    (hpkt : Numbered pkt first) (ha : Thinned (arrivals es))
    (hf : Along (ringTurn pkt) Fits {} es) (hr : run (ringTurn pkt) {} es = some s) :
    Along (ringTurn pkt) (Undisturbed pkt) {} es ∧
      ∃ out pending, Kept pkt (arrivals es) s out pending := by
  refine ⟨?_, (kept_run hpkt ha hf hr).2⟩
  rintro before e after t rfl ht
  rw [arrivals_append] at ha
  obtain ⟨hc, out, pending, hk⟩ := kept_run hpkt ha.of_append hf.of_append ht
  exact hk.undisturbed hc ha.of_append (hf before e after t rfl ht)

theorem thinned_stream_kept_gap :
    ∃ s, run (ringTurn bareStream) {} [.receive 0, .receive 2] = some s ∧
      ∃ out pending, Kept bareStream [0, 2] s out pending := by
  have hr : (run (ringTurn bareStream) {} [.receive 0, .receive 2]).isSome = true := by
    decide +kernel
  obtain ⟨s, hr⟩ := Option.isSome_iff_exists.mp hr
  have hf0 : Along (ringTurn bareStream) Fits {} [.receive 0] := by
    refine along_cons.mpr ⟨?_, fun _ _ => along_nil⟩
    rintro j ⟨⟩
    exact ⟨Nat.zero_le _, fun _ _ _ => rfl⟩
  have hf : Along (ringTurn bareStream) Fits {} [.receive 0, .receive 2] := by
    refine along_cons.mpr ⟨hf0 [] _ [] _ rfl rfl, fun t ht => along_cons.mpr ⟨?_, fun _ _ => along_nil⟩⟩
    rintro j ⟨⟩
    have ht : run (ringTurn bareStream) {} [.receive 0] = some t := by rw [run_cons, ht]; rfl
    obtain ⟨hc, out, pending, hk⟩ := kept_run bareStream_numbered ⟨by decide, by decide⟩ hf0 ht
    have hp : t.semBuffer + t.reads.length ≤ 0 := hc.lag
    exact ⟨by decide, hk.freeFrom (j := 2) ⟨by decide, by decide⟩ (by decide) (by omega) (by omega)⟩
  exact ⟨s, hr, (thinned_stream_kept bareStream 0 [.receive 0, .receive 2] s bareStream_numbered
    ⟨by decide, by decide⟩ hf hr).2⟩

-- Packet 0 comes 32 times, and packet 1 finds that the parser has passed it.
def repeatedTurns : List Turn :=
  List.replicate 31 (.receive 0) ++ [.parse, .receive 0, .parse]

def eagerCheck (s : Ring) : Turn → Bool
  | .receive _ => s.semBuffer == 0
  | .parse => true

theorem repeats_overtaken :
    ¬ ∀ (pkt : Nat → List UInt8) (first : UInt16) (es : List Turn) (s : Ring),
      Numbered pkt first → Thinned (arrivals es) → Along (ringTurn pkt) Eager {} es →
      run (ringTurn pkt) {} es = some s →
      Along (ringTurn pkt) (Undisturbed pkt) {} es ∧
        ∃ out pending, Kept pkt (arrivals es) s out pending := by
  intro h
  have he : Along (ringTurn bareStream) Eager {} (repeatedTurns ++ [.receive 1]) := by
    refine along_of_check eagerCheck ?_ (by decide +kernel)
    rintro before t e he j rfl
    exact eq_of_beq he
  have hr : (run (ringTurn bareStream) {} (repeatedTurns ++ [.receive 1])).isSome = true := by
    decide +kernel
  obtain ⟨s, hr⟩ := Option.isSome_iff_exists.mp hr
  have hu := (h bareStream 0 _ s bareStream_numbered ⟨by decide, by decide⟩ he hr).1
  obtain ⟨t, ht, -⟩ := run_concat_eq_some hr
  have hlen : (run (ringTurn bareStream) {} repeatedTurns).map (·.reads.length) = some 2 := by
    decide +kernel
  rw [ht] at hlen
  have hlen : t.reads.length = 2 := Option.some.inj hlen
  have := (hu.last ht 1 rfl).1
  omega

end Vcu
