import Vcu.Lib.Custody
import Vcu.Lib.Machine
import Vcu.Rtp.Ring

namespace Vcu

open Machine Custody

-- Where receive_thread stands in an iteration, with its locals.
inductive StorePc where
  | read
  | store (rtpData : RtpModel) (pos : Fin BUFFER_SIZE)
  | post

-- Where parser_thread stands. From its locked section on it keeps a copy of the slot.
inductive TakePc where
  | wait
  | take
  | delete (data : RtpModel)

-- The ring with both threads between their locked sections. `Ring.receive` and `Ring.parse` run
-- these sections in one go.
structure RingThreads where
  ring : Ring := {}
  storePc : StorePc := .read
  takePc : TakePc := .wait

inductive RingEvent where
  | datagram (datagram : List UInt8)
  | receiver
  | parser

namespace RingThreads

-- read() has returned a datagram. The constructor of RtpModel allocates the copy.
def arrive (s : RingThreads) (datagram : List UInt8) : Except Fault RingThreads := do
  let rtpData ← RtpModel.ofDatagram s.ring.buffers datagram
  let seq ← readShort datagram 2
  let firstSeq := s.ring.firstSeq.getD seq
  return {
    ring := { s.ring with
      times := if seq == 65535 then wrap32 (s.ring.times + 1) else s.ring.times
      firstSeq := some firstSeq
      buffers := s.ring.buffers + 1 }
    storePc := .store rtpData (receivePos seq s.ring.times firstSeq)
    takePc := s.takePc }

def receiver (s : RingThreads) : Option RingThreads :=
  match s.storePc with
  | .read => none
  | .store rtpData pos =>
      let old := s.ring.vecRtp pos
      some { s with
        ring := { s.ring with
          vecRtp := Function.update s.ring.vecRtp pos rtpData
          deleted :=
            if old.isValid then s.ring.deleted ++ old.buffer.toList else s.ring.deleted }
        storePc := .post }
  | .post =>
      let index := s.ring.index + 1
      some { s with
        ring := { s.ring with
          index := index
          semBuffer := if index > 30 then s.ring.semBuffer + 1 else s.ring.semBuffer }
        storePc := .read }

def parser (s : RingThreads) : Option RingThreads :=
  match s.takePc with
  | .wait =>
      if s.ring.semBuffer = 0 then none
      else some { s with
        ring := { s.ring with semBuffer := s.ring.semBuffer - 1 }
        takePc := .take }
  | .take =>
      let pos := slot s.ring.parserIndex.toNat
      let data := s.ring.vecRtp pos
      let reads := s.ring.reads ++ [data]
      if data.isValid then
        some { s with
          ring := { s.ring with
            vecRtp := Function.update s.ring.vecRtp pos { data with isValid := false }
            reads := reads }
          takePc := .delete data }
      else
        some { s with
          ring := { s.ring with parserIndex := s.ring.parserIndex + 1, reads := reads }
          takePc := .wait }
  | .delete data =>
      some { s with
        ring := { s.ring with
          deleted := s.ring.deleted ++ data.buffer.toList
          parserIndex := s.ring.parserIndex + 1 }
        takePc := .wait }

def step (s : RingThreads) : RingEvent → Option RingThreads
  | .datagram datagram =>
      match s.storePc with
      | .read => (s.arrive datagram).toOption
      | .store _ _ => none
      | .post => none
  | .receiver => s.receiver
  | .parser => s.parser

end RingThreads

-- Who has to free a buffer. Slots keep their pointer after the parser has taken the packet, so
-- that only a valid slot counts.
inductive BufferOwner where
  | slot (pos : Fin BUFFER_SIZE)
  | receiver
  | parser
  | freed
  deriving DecidableEq

def RtpModel.owned (m : RtpModel) : List Nat := if m.isValid then m.buffer.toList else []

def StorePc.owned : StorePc → List Nat
  | .read => []
  | .store rtpData _ => rtpData.buffer.toList
  | .post => []

def TakePc.owned : TakePc → List Nat
  | .wait => []
  | .take => []
  | .delete data => data.buffer.toList

def RingThreads.owned (s : RingThreads) : BufferOwner → List Nat
  | .slot pos => (s.ring.vecRtp pos).owned
  | .receiver => s.storePc.owned
  | .parser => s.takePc.owned
  | .freed => s.ring.deleted

-- A packet that receive_thread is about to store is valid, as the constructor left it.
def StorePc.Fresh : StorePc → Prop
  | .read => True
  | .store rtpData _ => rtpData.isValid = true
  | .post => True

structure Conserved (s : RingThreads) : Prop where
  located : Located s.owned s.ring.buffers
  fresh : s.storePc.Fresh

-- The atomic turns of the ring are these sections run without a break.
theorem receive_sections {r u : Ring} {datagram : List UInt8} (takePc : TakePc)
    (h : r.receive datagram = .ok u) :
    run RingThreads.step { ring := r, takePc := takePc } [.datagram datagram, .receiver, .receiver] =
      some { ring := u, takePc := takePc } := by
  cases hm : RtpModel.ofDatagram r.buffers datagram with
  | error f => simp [Ring.receive, hm, bind, Except.bind] at h
  | ok m =>
      cases hs : readShort datagram 2 with
      | error f => simp [Ring.receive, hm, hs, bind, Except.bind] at h
      | ok seq =>
          simp only [Ring.receive, hm, hs, bind, Except.bind, pure, Except.pure, Except.ok.injEq] at h
          subst h
          simp [RingThreads.step, RingThreads.arrive, RingThreads.receiver, hm, hs, bind, Except.bind,
            pure, Except.pure, Except.toOption]

theorem parse_sections {r u : Ring} (storePc : StorePc) (h : r.parse = some u) :
    ∃ es, (∀ e ∈ es, e = .parser) ∧
      run RingThreads.step { ring := r, storePc := storePc } es =
        some { ring := u, storePc := storePc } := by
  simp only [Ring.parse] at h
  split at h
  · cases h
  rename_i hsem
  split at h
  · rename_i hvalid
    obtain rfl := Option.some.inj h
    refine ⟨[.parser, .parser, .parser], by simp, ?_⟩
    simp [RingThreads.step, RingThreads.parser, hsem, hvalid]
  · rename_i hvalid
    obtain rfl := Option.some.inj h
    refine ⟨[.parser, .parser], by simp, ?_⟩
    simp [RingThreads.step, RingThreads.parser, hsem, hvalid]

section Step

variable {s u : RingThreads}

theorem ofDatagram_spec {buffer : Nat} {datagram : List UInt8} {m : RtpModel}
    (h : RtpModel.ofDatagram buffer datagram = .ok m) : m.buffer = some buffer ∧ m.isValid = true := by
  cases hs : readShort datagram 2 with
  | error f => simp [RtpModel.ofDatagram, hs, bind, Except.bind] at h
  | ok seq =>
      simp only [RtpModel.ofDatagram, hs, bind, Except.bind, pure, Except.pure, Except.ok.injEq] at h
      subst h
      exact ⟨rfl, rfl⟩

theorem arrive_spec {datagram : List UInt8} (h : s.arrive datagram = .ok u) :
    ∃ m pos, u.storePc = .store m pos ∧ m.buffer = some s.ring.buffers ∧ m.isValid = true ∧
      u.takePc = s.takePc ∧ u.ring.vecRtp = s.ring.vecRtp ∧ u.ring.deleted = s.ring.deleted ∧
      u.ring.buffers = s.ring.buffers + 1 := by
  cases hm : RtpModel.ofDatagram s.ring.buffers datagram with
  | error f => simp [RingThreads.arrive, hm, bind, Except.bind] at h
  | ok m =>
      cases hs : readShort datagram 2 with
      | error f => simp [RingThreads.arrive, hm, hs, bind, Except.bind] at h
      | ok seq =>
          simp only [RingThreads.arrive, hm, hs, bind, Except.bind, pure, Except.pure,
            Except.ok.injEq] at h
          subst h
          obtain ⟨hb, hv⟩ := ofDatagram_spec hm
          exact ⟨m, _, rfl, hb, hv, rfl, rfl, rfl, rfl⟩

theorem Conserved.arrive {datagram : List UInt8} (h : Conserved s) (hpc : s.storePc = .read)
    (hu : s.arrive datagram = .ok u) : Conserved u := by
  obtain ⟨m, pos, hstore, hbuffer, hvalid, htake, hvec, hdel, hn⟩ := arrive_spec hu
  refine ⟨?_, by rw [hstore]; exact hvalid⟩
  rw [hn]
  refine h.located.add (p := .receiver) ?_ ?_
  · show u.storePc.owned = s.storePc.owned ++ [s.ring.buffers]
    rw [hstore, hpc]
    simp only [StorePc.owned, hbuffer, Option.toList, List.nil_append]
  · intro o ho
    cases o with
    | slot p => simp only [RingThreads.owned, hvec]
    | receiver => exact absurd rfl ho
    | parser => simp only [RingThreads.owned, htake]
    | freed => simp only [RingThreads.owned, hdel]

-- What the packet in the slot still owned is freed first, then the new packet takes its place.
theorem Conserved.store {rtpData : RtpModel} {pos : Fin BUFFER_SIZE} (h : Conserved s)
    (hpc : s.storePc = .store rtpData pos) (hu : s.receiver = some u) : Conserved u := by
  have hvalid : rtpData.isValid = true := by
    have := h.fresh
    rwa [hpc] at this
  simp only [RingThreads.receiver, hpc, Option.some.injEq] at hu
  have hdel : u.ring.deleted = s.ring.deleted ++ (s.ring.vecRtp pos).owned := by
    subst hu
    unfold RtpModel.owned
    split
    · rfl
    · exact (List.append_nil _).symm
  have hvec : u.ring.vecRtp = Function.update s.ring.vecRtp pos rtpData := by rw [← hu]
  have hstore : u.storePc = .post := by rw [← hu]
  have htake : u.takePc = s.takePc := by rw [← hu]
  have hn : u.ring.buffers = s.ring.buffers := by rw [← hu]
  refine ⟨?_, by rw [hstore]; trivial⟩
  let mid := Function.update (Function.update s.owned (.slot pos) []) .freed u.ring.deleted
  have hmid : Located mid s.ring.buffers := by
    refine h.located.move (p := .slot pos) (q := .freed) (by simp) ?_ ?_
    · simp only [mid, Function.update_self, hdel]
      rw [Function.update_of_ne (by simp), Function.update_self, List.nil_append]
      exact List.perm_append_comm
    · intro o hp hq
      simp only [mid]
      rw [Function.update_of_ne hq, Function.update_of_ne hp]
  rw [hn]
  refine hmid.move (p := .receiver) (q := .slot pos) (by simp) ?_ ?_
  · have hslot : u.owned (.slot pos) = s.storePc.owned := by
      simp only [RingThreads.owned, hvec, Function.update_self, RtpModel.owned, hvalid, if_true, hpc,
        StorePc.owned]
    have hrec : u.owned .receiver = [] := by simp only [RingThreads.owned, hstore, StorePc.owned]
    have hmslot : mid (.slot pos) = [] := by
      simp only [mid]
      rw [Function.update_of_ne (by simp), Function.update_self]
    have hmrec : mid .receiver = s.storePc.owned := by
      simp only [mid]
      rw [Function.update_of_ne (by simp), Function.update_of_ne (by simp)]
      rfl
    rw [hslot, hrec, hmslot, hmrec, List.nil_append, List.append_nil]
  · intro o hp hq
    cases o with
    | slot p =>
        have hne : p ≠ pos := fun he => hq (he ▸ rfl)
        simp only [mid]
        rw [Function.update_of_ne (by simp), Function.update_of_ne hq]
        simp only [RingThreads.owned, hvec, Function.update_of_ne hne]
    | receiver => exact absurd rfl hp
    | parser =>
        simp only [mid]
        rw [Function.update_of_ne (by simp), Function.update_of_ne (by simp)]
        simp only [RingThreads.owned, htake]
    | freed =>
        simp only [mid]
        rw [Function.update_self]
        rfl

-- The steps that touch counters only.
theorem Conserved.of_eq (h : Conserved s) (hvec : u.ring.vecRtp = s.ring.vecRtp)
    (hdel : u.ring.deleted = s.ring.deleted) (hn : u.ring.buffers = s.ring.buffers)
    (hstore : u.storePc.owned = s.storePc.owned) (htake : u.takePc.owned = s.takePc.owned)
    (hfresh : u.storePc.Fresh) : Conserved u := by
  have howned : u.owned = s.owned := by
    funext o
    cases o with
    | slot p => simp only [RingThreads.owned, hvec]
    | receiver => exact hstore
    | parser => exact htake
    | freed => exact hdel
  exact ⟨by rw [howned, hn]; exact h.located, hfresh⟩

theorem Conserved.receiver (h : Conserved s) (hu : s.receiver = some u) : Conserved u := by
  cases hpc : s.storePc with
  | read => simp [RingThreads.receiver, hpc] at hu
  | store rtpData pos => exact h.store hpc hu
  | post =>
      simp only [RingThreads.receiver, hpc, Option.some.injEq] at hu
      subst hu
      exact h.of_eq rfl rfl rfl (by rw [hpc]; rfl) rfl trivial

theorem Conserved.take (h : Conserved s) (hpc : s.takePc = .take) (hu : s.parser = some u) :
    Conserved u := by
  simp only [RingThreads.parser, hpc] at hu
  split at hu
  · rename_i hvalid
    obtain rfl := Option.some.inj hu
    refine ⟨h.located.move (p := .slot (slot s.ring.parserIndex.toNat)) (q := .parser)
      (by simp) ?_ ?_, h.fresh⟩
    · simp [RingThreads.owned, RtpModel.owned, TakePc.owned, hvalid, hpc]
    · intro o hp hq
      cases o with
      | slot p =>
          have hne : p ≠ slot s.ring.parserIndex.toNat := fun he => hp (he ▸ rfl)
          simp only [RingThreads.owned, Function.update_of_ne hne]
      | receiver => rfl
      | parser => exact absurd rfl hq
      | freed => rfl
  · obtain rfl := Option.some.inj hu
    exact h.of_eq rfl rfl rfl rfl (by rw [hpc]; rfl) h.fresh

theorem Conserved.parser (h : Conserved s) (hu : s.parser = some u) : Conserved u := by
  cases hpc : s.takePc with
  | wait =>
      simp only [RingThreads.parser, hpc] at hu
      split at hu
      · cases hu
      · obtain rfl := Option.some.inj hu
        exact h.of_eq rfl rfl rfl rfl (by rw [hpc]; rfl) h.fresh
  | take => exact h.take hpc hu
  | delete data =>
      simp only [RingThreads.parser, hpc, Option.some.injEq] at hu
      subst hu
      refine ⟨h.located.move (p := .parser) (q := .freed) (by simp) ?_ ?_, h.fresh⟩
      · simp only [RingThreads.owned, hpc, TakePc.owned, List.nil_append]
        exact List.perm_append_comm
      · intro o hp hq
        cases o with
        | slot p => rfl
        | receiver => rfl
        | parser => exact absurd rfl hp
        | freed => exact absurd rfl hq

-- read() is called only between two iterations.
theorem step_datagram {datagram : List UInt8} (hu : s.step (.datagram datagram) = some u) :
    s.storePc = .read ∧ s.arrive datagram = .ok u := by
  cases hpc : s.storePc with
  | read =>
      simp only [RingThreads.step, hpc] at hu
      cases ha : s.arrive datagram with
      | error f => simp [ha, Except.toOption] at hu
      | ok t =>
          simp only [ha, Except.toOption, Option.some.injEq] at hu
          exact ⟨rfl, by rw [hu]⟩
  | store m pos => simp [RingThreads.step, hpc] at hu
  | post => simp [RingThreads.step, hpc] at hu

theorem Conserved.step {e : RingEvent} (h : Conserved s) (hu : s.step e = some u) : Conserved u := by
  cases e with
  | datagram datagram =>
      obtain ⟨hpc, ha⟩ := step_datagram hu
      exact h.arrive hpc ha
  | receiver => exact h.receiver hu
  | parser => exact h.parser hu

end Step

theorem conserved_init : Conserved {} := by
  refine ⟨located_nil ?_, trivial⟩
  intro o
  cases o with
  | slot p => rfl
  | receiver => rfl
  | parser => rfl
  | freed => rfl

-- At every moment each buffer has exactly one owner, the freed ones were freed once, and no valid
-- slot points to one of them.
theorem buffers_conserved (es : List RingEvent) (s : RingThreads)
    (hr : run RingThreads.step {} es = some s) :
    (∀ b < s.ring.buffers, ∃! o, b ∈ s.owned o) ∧ (∀ o, ∀ b ∈ s.owned o, b < s.ring.buffers) ∧
      s.ring.deleted.Nodup ∧
      ∀ pos b, (s.ring.vecRtp pos).isValid = true → (s.ring.vecRtp pos).buffer = some b →
        b ∉ s.ring.deleted := by
  have h : Conserved s :=
    run_invariant (fun _ s => Conserved s) conserved_init (fun _ t e u ht hu => ht.step hu) hr
  refine ⟨fun b hb => h.located.existsUnique hb, h.located.bound, h.located.nodup .freed, ?_⟩
  intro pos b hvalid hbuffer hdel
  have hslot : b ∈ s.owned (.slot pos) := by
    simp [RingThreads.owned, RtpModel.owned, hvalid, hbuffer]
  have := h.located.unique (.slot pos) .freed b hslot hdel
  cases this

-- A packet arrives twice before the parser has seen it.
def duplicateTurns : List RingEvent :=
  [.datagram [0x80, 0x60, 0, 0], .receiver, .receiver, .datagram [0x80, 0x60, 0, 0], .receiver]

theorem buffers_conserved_duplicate :
    ∃ s, run RingThreads.step {} duplicateTurns = some s ∧ s.ring.deleted = [0] ∧
      ∃! o, 1 ∈ s.owned o := by
  have hs : (run RingThreads.step {} duplicateTurns).map
      (fun s => (s.ring.deleted, s.ring.buffers)) = some ([0], 2) := by decide +kernel
  obtain ⟨s, hr, hs⟩ := Option.map_eq_some_iff.mp hs
  obtain ⟨hdel, hn⟩ := Prod.mk.inj hs
  exact ⟨s, hr, hdel, (buffers_conserved duplicateTurns s hr).1 1 (by omega)⟩

end Vcu
