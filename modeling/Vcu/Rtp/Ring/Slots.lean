import Vcu.Rtp.Ring.Buffers
import Vcu.Rtp.Ring.Lemmas

namespace Vcu

open Machine

-- The datagrams that read() has returned, in the order of their arrival.
def datagrams (es : List RingEvent) : List (List UInt8) :=
  es.filterMap fun
    | .datagram d => some d
    | .receiver => none
    | .parser => none

@[simp] theorem datagrams_nil : datagrams [] = [] := rfl

@[simp] theorem datagrams_append (es fs : List RingEvent) :
    datagrams (es ++ fs) = datagrams es ++ datagrams fs := List.filterMap_append

@[simp] theorem datagrams_datagram (d : List UInt8) : datagrams [.datagram d] = [d] := rfl

@[simp] theorem datagrams_receiver : datagrams [.receiver] = [] := rfl

@[simp] theorem datagrams_parse : datagrams [.parser] = [] := rfl

-- Arrival `k` carries the low 16 bits of its extended sequence number `ext k`.
def Extended (ext : Nat → Int) (arrived : List (List UInt8)) : Prop :=
  ∀ k d, arrived[k]? = some d → ∃ seq, readShort d 2 = .ok seq ∧ (seq.toNat : Int) = ext k % 65536

theorem Extended.of_append {ext : Nat → Int} {arrived more : List (List UInt8)}
    (h : Extended ext (arrived ++ more)) : Extended ext arrived := by
  intro k d hd
  have hlt : k < arrived.length := (List.getElem?_eq_some_iff.mp hd).1
  exact h k d (by rw [List.getElem?_append_left hlt, hd])

theorem Extended.last {ext : Nat → Int} {arrived : List (List UInt8)} {d : List UInt8}
    (h : Extended ext (arrived ++ [d])) :
    ∃ seq, readShort d 2 = .ok seq ∧ (seq.toNat : Int) = ext arrived.length % 65536 :=
  h arrived.length d List.getElem?_concat_length

-- Where an iteration will put its datagram.
theorem arrive_store {s u : RingThreads} {d : List UInt8} (h : s.arrive d = .ok u) :
    ∃ m seq, readShort d 2 = .ok seq ∧ m.pdata = d ∧
      u.storePc = .store m (receivePos seq s.ring.times (s.ring.firstSeq.getD seq)) ∧
      u.ring.firstSeq = some (s.ring.firstSeq.getD seq) := by
  cases hs : readShort d 2 with
  | error f => simp [RingThreads.arrive, RtpModel.ofDatagram, hs, bind, Except.bind] at h
  | ok seq =>
      simp only [RingThreads.arrive, RtpModel.ofDatagram, hs, bind, Except.bind, pure, Except.pure,
        Except.ok.injEq] at h
      subst h
      exact ⟨_, seq, rfl, rfl, rfl, rfl⟩

section Run

variable {s t u : RingThreads} {e : RingEvent} {es : List RingEvent} {ext : Nat → Int} {first : Int}
  {d : List UInt8}

-- first_seq is static. It is set by the first datagram and never changes.
structure Anchored (ext : Nat → Int) (first : Int) (arrived : List (List UInt8)) (s : RingThreads) :
    Prop where
  set : ∀ seq, s.ring.firstSeq = some seq → (seq.toNat : Int) = first % 65536
  unset : s.ring.firstSeq = none → arrived = [] ∧ ext 0 = first

theorem receiver_firstSeq (h : s.receiver = some u) : u.ring.firstSeq = s.ring.firstSeq := by
  rw [RingThreads.receiver] at h
  split at h
  · cases h
  · cases h
    rfl
  · cases h
    rfl

theorem parser_firstSeq (h : s.parser = some u) : u.ring.firstSeq = s.ring.firstSeq := by
  rw [RingThreads.parser] at h
  dsimp only at h
  repeat' split at h
  all_goals cases h
  all_goals rfl

-- The number of the packet that first_seq was taken from, for the arrival that takes it as well.
theorem Anchored.getD_firstSeq (h : Anchored ext first (datagrams es) s) {seq : UInt16}
    (hseq : (seq.toNat : Int) = ext (datagrams es).length % 65536) :
    ((s.ring.firstSeq.getD seq).toNat : Int) = first % 65536 := by
  cases hfirst : s.ring.firstSeq with
  | none =>
      obtain ⟨hnil, hext⟩ := h.unset hfirst
      rw [hnil, List.length_nil, hext] at hseq
      exact hseq
  | some seq' => exact h.set seq' hfirst

theorem Anchored.of_firstSeq {arrived : List (List UInt8)} (h : Anchored ext first arrived s)
    (hsame : u.ring.firstSeq = s.ring.firstSeq) : Anchored ext first arrived u :=
  ⟨fun seq hseq => h.set seq (hsame ▸ hseq), fun hunset => h.unset (hsame ▸ hunset)⟩

theorem Anchored.step (h : Anchored ext first (datagrams es) s)
    (hext : Extended ext (datagrams (es ++ [e]))) (hu : RingThreads.step s e = some u) :
    Anchored ext first (datagrams (es ++ [e])) u := by
  cases e with
  | datagram d =>
      rw [datagrams_append, datagrams_datagram] at hext ⊢
      obtain ⟨m, seq, hread, -, -, hfirst⟩ := arrive_store (step_datagram hu).2
      obtain ⟨seq', hread', hseq⟩ := hext.last
      obtain rfl := Except.ok.inj (hread.symm.trans hread')
      refine ⟨fun seq' hset => ?_, fun hunset => ?_⟩
      · obtain rfl := Option.some.inj (hfirst.symm.trans hset)
        exact h.getD_firstSeq hseq
      · rw [hfirst] at hunset
        cases hunset
  | receiver =>
      rw [datagrams_append, datagrams_receiver, List.append_nil]
      exact h.of_firstSeq (receiver_firstSeq hu)
  | parser =>
      rw [datagrams_append, datagrams_parse, List.append_nil]
      exact h.of_firstSeq (parser_firstSeq hu)

theorem Anchored.run (h : Anchored ext first [] s) (hext : Extended ext (datagrams es))
    (hu : run RingThreads.step s es = some u) : Anchored ext first (datagrams es) u := by
  refine run_invariant (fun es u => Extended ext (datagrams es) → Anchored ext first (datagrams es) u)
    (fun _ => h) ?_ hu hext
  intro es t e u ih hstep hext
  have hbefore : Extended ext (datagrams es) := by
    rw [datagrams_append] at hext
    exact hext.of_append
  exact (ih hbefore).step hext hstep

-- Whatever arrived before and whatever times has come to, also in an earlier run of the thread, a packet
-- goes to the slot of its distance from the first one.
theorem store_slot_of_distance
    (hset : ∀ seq, s.ring.firstSeq = some seq → (seq.toNat : Int) = first % 65536)
    (hunset : s.ring.firstSeq = none → ext 0 = first)
    (hext : Extended ext (datagrams (es ++ [.datagram d])))
    (hu : run RingThreads.step s (es ++ [.datagram d]) = some u) :
    ∃ m pos, u.storePc = .store m pos ∧ m.pdata = d ∧
      ((pos : Nat) : Int) = (ext (datagrams es).length - first) % 4096 := by
  obtain ⟨t, ht, hstep⟩ := run_concat_eq_some hu
  rw [datagrams_append, datagrams_datagram] at hext
  have hstart : Anchored ext first [] s := ⟨hset, fun h => ⟨rfl, hunset h⟩⟩
  have hanchored := hstart.run hext.of_append ht
  obtain ⟨m, seq, hread, hdata, hstore, -⟩ := arrive_store (step_datagram hstep).2
  obtain ⟨seq', hread', hseq⟩ := hext.last
  obtain rfl := Except.ok.inj (hread.symm.trans hread')
  have hfirst := hanchored.getD_firstSeq hseq
  refine ⟨m, _, hstore, hdata, ?_⟩
  rw [receivePos_emod]
  omega

end Run

theorem bareStream_extended (ns : List Nat) :
    Extended (fun k => (ns.getD k 0 : Nat)) (ns.map bareStream) := by
  intro k d hd
  rw [List.getElem?_map, Option.map_eq_some_iff] at hd
  obtain ⟨n, hn, rfl⟩ := hd
  obtain ⟨seq, hread, hseq⟩ := bareStream_numbered n
  rw [show (0 : UInt16).toNat = 0 from rfl, Nat.zero_add] at hseq
  refine ⟨seq, hread, ?_⟩
  show (seq.toNat : Int) = ((ns.getD k 0 : Nat) : Int) % 65536
  rw [List.getD_eq_getElem?_getD, hn, Option.getD_some]
  omega

-- Packet 65535 arrives twice, so that times is 2, and the packet before the first one arrives late.
def repeatedLast : List RingEvent :=
  [.datagram (bareStream 65534), .receiver, .receiver, .datagram (bareStream 65535), .receiver, .receiver,
    .datagram (bareStream 65535), .receiver, .receiver]

theorem store_slot_of_distance_late :
    ∃ u, run RingThreads.step {} (repeatedLast ++ [.datagram (bareStream 65533)]) = some u ∧
      u.ring.times = 2 ∧ ∃ m, u.storePc = .store m (slot 4095) := by
  have htimes : (run RingThreads.step {} (repeatedLast ++ [.datagram (bareStream 65533)])).map
      (fun u => u.ring.times) = some 2 := by decide +kernel
  obtain ⟨u, hu, htimes⟩ := Option.map_eq_some_iff.mp htimes
  have harrived : datagrams (repeatedLast ++ [.datagram (bareStream 65533)]) =
      [65534, 65535, 65535, 65533].map bareStream := rfl
  have hext := bareStream_extended [65534, 65535, 65535, 65533]
  rw [← harrived] at hext
  have hunset : ({} : RingThreads).ring.firstSeq = none := rfl
  obtain ⟨m, pos, hstore, -, hpos⟩ := store_slot_of_distance
    (fun seq hset => nomatch hunset.symm.trans hset) (fun _ => rfl) hext hu
  have hdistance : ((pos : Nat) : Int) = 4095 := hpos
  have hlast : pos = slot 4095 := Fin.ext (Int.ofNat.inj hdistance)
  exact ⟨u, hu, htimes, m, by rw [hstore, hlast]⟩

end Vcu
