import Vcu.Rtp.Ring.Order
import Vcu.Rtp.RoundTrip

namespace Vcu

open Machine Reorder NalFragment

-- The ring with both of its threads, the parser's packet buffer and what pf_callback has got so far.
structure RtpPath where
  ring : Ring := {}
  thread : ParserThread := {}
  calls : List Callback := []

-- A packet that the parser takes from the ring goes through the depacketizer before the next one.
-- A failed check or a read outside the datagram ends the program.
def pathTurn (type : CodecType) (pkt : Nat → List UInt8) (s : RtpPath) : Turn → Option RtpPath
  | .receive j => (ringTurn pkt s.ring (.receive j)).map fun ring => { s with ring := ring }
  | .parse =>
      match s.ring.parse with
      | none => none
      | some ring =>
          match ring.reads.getLast? with
          | none => none
          | some data =>
              if data.isValid then
                match parserThreadParse type true data s.thread with
                | .ok (call, thread) => some ⟨ring, thread, s.calls ++ call.toList⟩
                | .error _ => none
              else some { s with ring := ring }

-- Units whose header the depacketizer can rebuild. With H.265 the top bit of the layer id does not
-- fit into fragments.
def Intact : (type : CodecType) → Sending (NalHeader type) → Prop
  | .H264, _ => True
  | .H265, x => x.fragmented = true → x.header.1 &&& 1 = 0

theorem Intact.emitted {type : CodecType} {x : Sending (NalHeader type)} (h : Intact type x) :
    (wire type).emitted x = (wire type).expected x := by
  cases type with
  | H264 => exact emitted_264 x
  | H265 => exact (emitted_265 x).mpr h

-- The copy that a slot holds is as long as it says.
def SlotsSized (s : Ring) : Prop := ∀ p, (s.vecRtp p).isValid = true →
  (s.vecRtp p).len = (s.vecRtp p).pdata.length

-- As long as the counter of the packets does not wrap, no post is lost.
def PostsCounted (arr : List Nat) (s : Ring) : Prop :=
  arr.length < 2 ^ 64 → s.semBuffer + s.reads.length = arr.length - 30

section Ring

variable {pkt : Nat → List UInt8} {first : UInt16} {arr : List Nat} {s u : Ring} {j : Nat}

theorem SlotsSized.receive (h : SlotsSized s) (hu : ringTurn pkt s (.receive j) = some u) :
    SlotsSized u := by
  simp only [ringTurn, Ring.receive, RtpModel.ofDatagram] at hu
  cases hseq : readShort (pkt j) 2 with
  | error f =>
      rw [hseq] at hu
      cases hu
  | ok seq =>
      simp only [hseq, ok_bind, pure_eq_ok, Except.toOption, Option.some.injEq] at hu
      obtain rfl := hu
      intro p hp
      simp only [Function.update_apply] at hp ⊢
      split at hp
      · rename_i heq
        rw [if_pos heq]
      · rename_i hne
        rw [if_neg hne]
        exact h p hp

theorem SlotsSized.parse (h : SlotsSized s) (hu : ringTurn pkt s .parse = some u) :
    SlotsSized u := by
  obtain ⟨-, -, -, -, -, -, hvec⟩ := parse_spec hu
  intro p hp
  rw [hvec, Function.update_apply] at hp ⊢
  split at hp
  · cases hp
  · rename_i hne
    rw [if_neg hne]
    exact h p hp

theorem PostsCounted.receive (h : PostsCounted arr s) (hc : Counted first arr s)
    (hpkt : Numbered pkt first) (h0 : ∀ i ∈ (arr ++ [j]).head?, i = 0)
    (hu : ringTurn pkt s (.receive j) = some u) : PostsCounted (arr ++ [j]) u := by
  obtain ⟨m, -, -, -, hreads, hsem, -, -, -⟩ := receive_spec hpkt (hc.firstSeq_or h0) hu
  intro hlt
  rw [List.length_append, List.length_singleton] at hlt ⊢
  have hold := h (by omega)
  have hindex : (s.index + 1).toNat = arr.length + 1 := by
    rw [UInt64.toNat_add, hc.index]
    simp
    omega
  rw [hreads, hsem]
  split
  · rename_i hgt
    have hgt : 30 < (s.index + 1).toNat := hgt
    omega
  · rename_i hle
    have hle : ¬ 30 < (s.index + 1).toNat := hle
    omega

theorem PostsCounted.parse (h : PostsCounted arr s) (hu : ringTurn pkt s .parse = some u) :
    PostsCounted arr u := by
  obtain ⟨hpos, hsem, -, -, -, hreads, -⟩ := parse_spec hu
  intro hlt
  have hold := h hlt
  rw [hsem, hreads, List.length_append, List.length_singleton]
  omega

end Ring

section Parser

variable {type : CodecType} {t : ParserThread} {m m' : RtpModel}

-- The parser looks at nothing but the bytes and their number.
theorem parserThreadParse_congr {needBox : Bool} (hdata : m.pdata = m'.pdata) (hlen : m.len = m'.len) :
    parserThreadParse type needBox m t = parserThreadParse type needBox m' t := by
  obtain ⟨pdata, buffer, len, seq, isValid⟩ := m
  obtain ⟨pdata', buffer', len', seq', isValid'⟩ := m'
  obtain rfl := hdata
  obtain rfl := hlen
  cases type <;> rfl

theorem parserThreadParse_eq_handle {p : List UInt8} (hp : 4 ≤ p.length) (hdata : m.pdata = p)
    (hlen : m.len = m.pdata.length) :
    parserThreadParse type true m t = handleDatagram type true p t := by
  obtain ⟨m', hdata', hlen', hhandle⟩ := handleDatagram_eq type true t hp
  rw [hhandle]
  exact parserThreadParse_congr (hdata.trans hdata'.symm) (by rw [hlen, hlen', hdata])

-- What comes before does not depend on what comes after.
theorem feed_of_append {es fs : List (Bool × List UInt8)} {calls : List Callback} {v : ParserThread}
    (h : feed type (es ++ fs) t = .ok (calls, v)) :
    ∃ before u after, feed type es t = .ok (before, u) ∧ feed type fs u = .ok (after, v) ∧
      calls = before ++ after := by
  rw [feed_append] at h
  cases hes : feed type es t with
  | error f =>
      rw [hes] at h
      cases h
  | ok r =>
      simp only [hes, ok_bind] at h
      cases hfs : feed type fs r.2 with
      | error f =>
          rw [hfs] at h
          cases h
      | ok q =>
          simp only [hfs, ok_bind, pure_eq_ok, Except.ok.injEq, Prod.mk.injEq] at h
          exact ⟨r.1, r.2, q.1, rfl, by rw [hfs, ← h.2], h.1.symm⟩

theorem feed_singleton {needBox : Bool} {p : List UInt8} :
    feed type [(needBox, p)] t = (handleDatagram type needBox p t).map
      fun r => (r.1.toList, r.2) := by
  simp only [feed]
  cases handleDatagram type needBox p t with
  | error f => rfl
  | ok r => simp only [ok_bind, pure_eq_ok, List.append_nil, Except.map]

end Parser

-- After any interleaving the parser has been fed the first packets of the stream.
structure Delivered (type : CodecType) (pkt : Nat → List UInt8) (first : UInt16)
    (stream : List (Bool × List UInt8)) (arr : List Nat) (s : RtpPath) : Prop where
  counted : Counted first arr s.ring
  inOrder : InOrder pkt arr s.ring
  sized : SlotsSized s.ring
  posts : PostsCounted arr s.ring
  fed : feed type (stream.take s.ring.reads.length) {} = .ok (s.calls, s.thread)

section Delivered

variable {type : CodecType} {pkt : Nat → List UInt8} {first : UInt16}
  {stream : List (Bool × List UInt8)} {arr : List Nat} {s u : RtpPath} {j : Nat}

theorem delivered_init : Delivered type pkt first stream [] {} where
  counted := counted_init first
  inOrder := ⟨by simp, by simp, by simp⟩
  sized := nofun
  posts := fun _ => rfl
  fed := rfl

theorem Delivered.receive (h : Delivered type pkt first stream arr s) (hpkt : Numbered pkt first)
    (ha : Reordered 30 (arr ++ [j])) (hw : j < s.ring.reads.length + 4096)
    (hu : pathTurn type pkt s (.receive j) = some u) :
    Delivered type pkt first stream (arr ++ [j]) u := by
  obtain ⟨ring, hring, rfl⟩ := Option.map_eq_some_iff.mp hu
  obtain ⟨m, -, -, -, hreads, -⟩ := receive_spec hpkt (h.counted.firstSeq_or ha.first) hring
  refine ⟨h.counted.receive hpkt ha.first hring, h.inOrder.receive h.counted hpkt ha hw hring,
    h.sized.receive hring, h.posts.receive h.counted hpkt ha.first hring, ?_⟩
  show feed type (stream.take ring.reads.length) {} = _
  rw [hreads]
  exact h.fed

-- The next packet of the stream, as the parser finds it in its slot.
structure Next (type : CodecType) (pkt : Nat → List UInt8) (stream : List (Bool × List UInt8))
    (s : RtpPath) (ring : Ring) (data : RtpModel) : Prop where
  turn : ringTurn pkt s.ring .parse = some ring
  reads : ring.reads = s.ring.reads ++ [data]
  valid : data.isValid = true
  entry : stream[s.ring.reads.length]? = some (true, pkt s.ring.reads.length)
  parsed : parserThreadParse type true data s.thread =
    handleDatagram type true (pkt s.ring.reads.length) s.thread

theorem Delivered.next (h : Delivered type pkt first stream arr s) (ha : Reordered 30 arr)
    (hstream : ∀ j ∈ arr, stream[j]? = some (true, pkt j))
    (hlong : ∀ e ∈ stream, 4 ≤ e.2.length) {ring : Ring} (hring : s.ring.parse = some ring) :
    ∃ data, Next type pkt stream s ring data := by
  have hturn : ringTurn pkt s.ring .parse = some ring := hring
  obtain ⟨hpos, -, -, -, -, hreads, -⟩ := parse_spec hturn
  rw [h.counted.slot_parserIndex] at hreads
  have hmem := ha.mem (h.counted.read_lt hpos)
  obtain ⟨hvalid, hdata⟩ := h.inOrder.unread _ hmem (Nat.le_refl _)
  have hentry := hstream _ hmem
  refine ⟨_, hturn, hreads, hvalid, hentry, ?_⟩
  exact parserThreadParse_eq_handle (hlong _ (List.mem_of_getElem? hentry)) hdata (h.sized _ hvalid)

theorem feed_take_succ {k : Nat} {p : List UInt8} {calls : List Callback} {t : ParserThread}
    {call : Option Callback} {v : ParserThread} (hentry : stream[k]? = some (true, p))
    (hfed : feed type (stream.take k) {} = .ok (calls, t))
    (hp : handleDatagram type true p t = .ok (call, v)) :
    feed type (stream.take (k + 1)) {} = .ok (calls ++ call.toList, v) := by
  rw [List.take_add_one, hentry, Option.toList_some]
  refine feed_append_ok hfed ?_
  rw [feed_singleton, hp]
  rfl

theorem Delivered.parse (h : Delivered type pkt first stream arr s) (ha : Reordered 30 arr)
    (hstream : ∀ j ∈ arr, stream[j]? = some (true, pkt j))
    (hlong : ∀ e ∈ stream, 4 ≤ e.2.length) (hu : pathTurn type pkt s .parse = some u) :
    Delivered type pkt first stream arr u := by
  simp only [pathTurn] at hu
  cases hring : s.ring.parse with
  | none =>
      rw [hring] at hu
      cases hu
  | some ring =>
      obtain ⟨data, hnext⟩ := h.next ha hstream hlong hring
      simp only [hring, hnext.reads, List.getLast?_concat, hnext.valid, if_true, hnext.parsed] at hu
      cases hp : handleDatagram type true (pkt s.ring.reads.length) s.thread with
      | error f =>
          rw [hp] at hu
          cases hu
      | ok r =>
          obtain ⟨call, v⟩ := r
          rw [hp] at hu
          obtain rfl := Option.some.inj hu
          refine ⟨h.counted.parse hnext.turn, h.inOrder.parse h.counted ha hnext.turn,
            h.sized.parse hnext.turn, h.posts.parse hnext.turn, ?_⟩
          show feed type (stream.take ring.reads.length) {} = _
          rw [hnext.reads, List.length_append, List.length_singleton]
          exact feed_take_succ hnext.entry h.fed hp

-- A stream that goes through the depacketizer never stops the parser.
theorem Delivered.parse_enabled (h : Delivered type pkt first stream arr s) (ha : Reordered 30 arr)
    (hstream : ∀ j ∈ arr, stream[j]? = some (true, pkt j))
    (hlong : ∀ e ∈ stream, 4 ≤ e.2.length) {calls : List Callback} {v : ParserThread}
    (hfeed : feed type stream {} = .ok (calls, v)) (hpost : s.ring.semBuffer ≠ 0) :
    ∃ u, pathTurn type pkt s .parse = some u := by
  obtain ⟨ring, hring⟩ : ∃ ring, s.ring.parse = some ring := by
    simp only [Ring.parse, if_neg hpost]
    split
    · exact ⟨_, rfl⟩
    · exact ⟨_, rfl⟩
  obtain ⟨data, hnext⟩ := h.next ha hstream hlong hring
  rw [← List.take_append_drop (s.ring.reads.length + 1) stream] at hfeed
  obtain ⟨before, t, -, hbefore, -, -⟩ := feed_of_append hfeed
  rw [List.take_add_one, hnext.entry, Option.toList_some] at hbefore
  obtain ⟨done, t', more, hdone, hmore, -⟩ := feed_of_append hbefore
  obtain ⟨-, rfl⟩ := Prod.mk.inj (Except.ok.inj (h.fed.symm.trans hdone))
  rw [feed_singleton] at hmore
  simp only [pathTurn, hring, hnext.reads, List.getLast?_concat, hnext.valid, if_true, hnext.parsed]
  cases hp : handleDatagram type true (pkt s.ring.reads.length) s.thread with
  | error f =>
      rw [hp] at hmore
      cases hmore
  | ok r => exact ⟨_, rfl⟩

end Delivered

-- No packet is stored before the parser has passed the packet one lap earlier.
def PathWindowed : List Turn → RtpPath → Turn → Prop := fun _ s e =>
  ∀ j, e = .receive j → j < s.ring.reads.length + 4096

theorem delivered_run {type : CodecType} {pkt : Nat → List UInt8} {first : UInt16}
    {stream : List (Bool × List UInt8)} (hpkt : Numbered pkt first)
    (hstream : ∀ j, j < stream.length → stream[j]? = some (true, pkt j))
    (hlong : ∀ e ∈ stream, 4 ≤ e.2.length) {es : List Turn} {s : RtpPath}
    (harr : ∀ j ∈ arrivals es, j < stream.length) (ha : Reordered 30 (arrivals es))
    (hw : Along (pathTurn type pkt) PathWindowed {} es)
    (hr : run (pathTurn type pkt) {} es = some s) : Delivered type pkt first stream (arrivals es) s := by
  refine run_invariant_along PathWindowed
    (fun es s => (∀ j ∈ arrivals es, j < stream.length) → Reordered 30 (arrivals es) →
      Delivered type pkt first stream (arrivals es) s) (fun _ _ => delivered_init) ?_ hw hr harr ha
  intro es t e u ih hg hu harr ha
  rw [arrivals_append] at harr ha ⊢
  have hold := ih (fun j hj => harr j (List.mem_append_left _ hj)) ha.of_append
  cases e with
  | receive j =>
      rw [arrivals_receive] at ha ⊢
      exact hold.receive hpkt ha (hg j rfl) hu
  | parse =>
      rw [arrivals_parse, List.append_nil] at harr ha ⊢
      exact hold.parse ha (fun j hj => hstream j (harr j hj)) hlong hu

-- From the socket to the decoder: packets that are at most 30 places late come out as the units
-- they were made of, in order. No interleaving of the two threads stops the parser, and once it
-- waits it is only the last 30 packets behind.
theorem rtp_path (type : CodecType) (x : Sending (NalHeader type))
    (units : List (Sending (NalHeader type))) (hx : (wire type).starts x = true)
    (hv : ∀ y ∈ x :: units, (wire type).Valid y) (hm : ∀ y ∈ units, y.EndsMarked)
    (hi : ∀ y ∈ x :: units, Intact type y) (pkt : Nat → List UInt8) (first : UInt16)
    (hpkt : Numbered pkt first)
    (hstream : ∀ j, j < ((wire type).stream (x :: units)).length →
      ((wire type).stream (x :: units))[j]? = some (true, pkt j))
    (es : List Turn) (s : RtpPath)
    (harr : ∀ j ∈ arrivals es, j < ((wire type).stream (x :: units)).length)
    (ha : Reordered 30 (arrivals es)) (hw : Along (pathTurn type pkt) PathWindowed {} es)
    (hr : run (pathTurn type pkt) {} es = some s) :
    s.calls.flatMap Callback.pdata <+: (x :: units).flatMap (wire type).expected ∧
      (s.ring.semBuffer ≠ 0 → ∃ u, pathTurn type pkt s .parse = some u) ∧
      (s.ring.semBuffer = 0 → (arrivals es).length < 2 ^ 64 →
        feed type (((wire type).stream (x :: units)).take ((arrivals es).length - 30)) {} =
          .ok (s.calls, s.thread)) := by
  have hlong : ∀ e ∈ (wire type).stream (x :: units), 4 ≤ e.2.length := fun e he => by
    have := (wire type).stream_length he
    omega
  have h := delivered_run hpkt hstream hlong harr ha hw hr
  obtain ⟨calls, v, hfeed, -, hcalls⟩ := (wire type).feed_stream hx hv hm (t := {}) rfl
  refine ⟨?_, h.parse_enabled ha (fun j hj => hstream j (harr j hj)) hlong hfeed, ?_⟩
  · have hsplit := hfeed
    rw [← List.take_append_drop s.ring.reads.length ((wire type).stream (x :: units))] at hsplit
    obtain ⟨before, t, after, hbefore, -, rfl⟩ := feed_of_append hsplit
    obtain ⟨rfl, -⟩ := Prod.mk.inj (Except.ok.inj (h.fed.symm.trans hbefore))
    have hexpected : (x :: units).flatMap (wire type).expected =
        (x :: units).flatMap (wire type).emitted := by
      refine (flatMap_eq_iff fun y _ => ((wire type).length_emitted y).symm).mpr ?_
      exact fun y hy => (hi y hy).emitted.symm
    rw [hexpected, ← hcalls, List.flatMap_append]
    exact List.prefix_append _ _
  · intro hpost hlt
    have hposts := h.posts hlt
    rw [hpost, Nat.zero_add] at hposts
    rw [← hposts]
    exact h.fed

def numberedRtp (j : Nat) : FixedHeader :=
  #v[0x80, 0x60, UInt8.ofNat (j / 256), UInt8.ofNat j, 0, 0, 0, 0, 0, 0, 0, 0]

-- An SPS and slices of one byte.
def numberedUnit (j : Nat) : Sending UInt8 := .whole (numberedRtp j) (if j = 0 then 0x67 else 0x41) []

def numberedPacket (j : Nat) : List UInt8 := (numberedRtp j).toList ++ [if j = 0 then 0x67 else 0x41]

theorem numberedPacket_numbered : Numbered numberedPacket 0 := by
  intro j
  refine ⟨_, rfl, ?_⟩
  rw [toNat_short, UInt8.toNat_ofNat', UInt8.toNat_ofNat']
  simp
  omega

def numberedUnits : List (Sending UInt8) := (List.range 30).map fun j => numberedUnit (j + 1)

theorem numberedUnits_valid : ∀ y ∈ numberedUnit 0 :: numberedUnits, wire264.Valid y := by
  intro y hy
  rcases List.mem_cons.mp hy with rfl | hy
  · exact .inr (by decide)
  · obtain ⟨j, -, rfl⟩ := List.mem_map.mp hy
    have hslice : 1 ≤ (0x41 : UInt8) &&& 0x1f ∧ (0x41 : UInt8) &&& 0x1f ≤ 23 := by decide
    exact .inr hslice

-- Packets 1 and 2 change places, and the parser runs as soon as it can.
theorem rtp_path_swapped :
    ∃ s, run (pathTurn .H264 numberedPacket) {} swappedTurns = some s ∧
      s.calls.flatMap Callback.pdata = [0, 0, 0, 1, 0x67] ∧
      s.calls.flatMap Callback.pdata <+:
        (numberedUnit 0 :: numberedUnits).flatMap wire264.expected := by
  have hs : (run (pathTurn .H264 numberedPacket) {} swappedTurns).map
      (fun s => s.calls.flatMap Callback.pdata) = some [0, 0, 0, 1, 0x67] := by
    decide +kernel
  obtain ⟨s, hr, hcalls⟩ := Option.map_eq_some_iff.mp hs
  have hm : ∀ y ∈ numberedUnits, y.EndsMarked := by
    intro y hy
    obtain ⟨j, -, rfl⟩ := List.mem_map.mp hy
    exact trivial
  have hw : Along (pathTurn .H264 numberedPacket) PathWindowed {} swappedTurns := by
    refine along_of_check (fun s e => windowedCheck s.ring e) ?_ (by decide +kernel)
    rintro before t e he j rfl
    exact of_decide_eq_true he
  have ha : Reordered 30 (arrivals swappedTurns) :=
    reordered_of_perm (n := 31) (by decide) (by decide) (by decide)
  exact ⟨s, hr, hcalls, (rtp_path .H264 (numberedUnit 0) numberedUnits rfl numberedUnits_valid hm
    (fun _ _ => trivial) numberedPacket 0 numberedPacket_numbered (by decide +kernel) swappedTurns s
    (by decide +kernel) ha hw hr).1⟩

end Vcu
