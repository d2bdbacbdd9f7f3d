import Vcu.Lib.Machine
import Vcu.Main

namespace Vcu

open Machine

-- rtp_callback and vcu_callback with a decoder between them. `pending` holds the mark and the time
-- of a call of rtp_callback that has pushed its data only. `marked` are the timestamps of the
-- access units pushed, `given` those that the pictures got, in order.
structure Pairing where
  globals : Globals
  pending : Option (Bool × UInt32) := none
  marked : List UInt32 := []
  given : List UInt32 := []
  aborted : Bool := false

-- The decoder shows no picture of the first access unit of H.264.
def shown : CodecType → List UInt32 → List UInt32
  | .H264, marked => marked.tail
  | .H265, marked => marked

def Pairing.decodable (s : Pairing) : List UInt32 := shown s.globals.codecType s.marked

inductive PairingEvent where
  | pushData (data : List UInt8) (mark : Bool) (time : UInt32)
  | pushTimestamp
  | emit

-- A failed assertion ends the process. The decoder emits one picture for each access unit it has
-- got in full, at any time.
def Pairing.step (s : Pairing) (e : PairingEvent) : Option Pairing :=
  if s.aborted then none
  else
    match e with
    | .pushData data mark time =>
        if s.pending.isSome then none
        else some { s with
          globals := s.globals.pushData data
          pending := some (mark, time)
          marked := if mark then s.marked ++ [time] else s.marked }
    | .pushTimestamp =>
        match s.pending with
        | none => none
        | some (mark, time) =>
            some { s with globals := s.globals.pushTimestamp mark time, pending := none }
    | .emit =>
        if s.given.length < s.decodable.length then
          match s.globals.popTimestamp with
          | .ok (time, globals) => some { s with globals := globals, given := s.given ++ [time] }
          | .error _ => some { s with aborted := true }
        else none

def Pairing.init (type : CodecType) : Pairing := { globals := { codecType := type } }

-- Every picture so far got the timestamp of its access unit.
def Pairing.Paired (s : Pairing) : Prop :=
  s.aborted = false ∧ s.given = s.decodable.take s.given.length

-- No picture comes out between the last push of its access unit and the push of the timestamp.
def StampedFirst : List PairingEvent → Pairing → PairingEvent → Prop := fun _ s e =>
  e = .emit → ∀ time, s.pending = some (true, time) → s.given.length + 1 < s.decodable.length

def pendingTimes : Option (Bool × UInt32) → List UInt32
  | some (true, time) => [time]
  | _ => []

-- The access units whose call of rtp_callback is over have their timestamps in the queue or given
-- out. `isfirst` is set until there is such a unit.
structure Stamped (s : Pairing) (done : List UInt32) : Prop where
  marked : s.marked = done ++ pendingTimes s.pending
  first : s.globals.codecType = .H264 → (s.globals.isfirst = true ↔ done = [])
  queue : shown s.globals.codecType done = s.given ++ s.globals.queTimestamp

section Step

variable {s u : Pairing} {e : PairingEvent} {done : List UInt32}

-- What the second half of rtp_callback does for a marked access unit.
theorem pushTimestamp_marked (g : Globals) (time : UInt32) :
    g.pushTimestamp true time =
      if g.codecType = .H264 ∧ g.isfirst = true then { g with isfirst := false }
      else { g with queTimestamp := g.queTimestamp ++ [time] } := by
  unfold Globals.pushTimestamp
  cases hc : g.codecType <;> cases hf : g.isfirst <;> simp

theorem shown_append (type : CodecType) (time : UInt32) :
    shown type (done ++ [time]) = if type = .H264 ∧ done = [] then [] else shown type done ++ [time] := by
  cases type with
  | H264 =>
      cases done with
      | nil => rfl
      | cons first rest => simp [shown]
  | H265 => simp [shown]

theorem shown_nil (type : CodecType) : shown type [] = [] := by
  cases type <;> rfl

theorem Stamped.pushTimestamp {mark : Bool} {time : UInt32} (h : Stamped s done)
    (hp : s.pending = some (mark, time)) :
    ∃ done, Stamped { s with globals := s.globals.pushTimestamp mark time, pending := none } done := by
  have hm := h.marked
  rw [hp] at hm
  cases mark with
  | false => exact ⟨done, hm, h.first, h.queue⟩
  | true =>
      rw [pushTimestamp_marked]
      refine ⟨done ++ [time], hm.trans (List.append_nil _).symm, ?_, ?_⟩
      · intro hc
        by_cases hf : s.globals.codecType = .H264 ∧ s.globals.isfirst = true
        · simp [hf]
        · have hfirst : s.globals.isfirst = false := by
            have hc : s.globals.codecType = .H264 := by
              rwa [if_neg hf] at hc
            simpa [hc] using hf
          simp [hfirst]
      · by_cases hf : s.globals.codecType = .H264 ∧ s.globals.isfirst = true
        · have hd : done = [] := (h.first hf.1).mp hf.2
          have hq := h.queue
          rw [hd, shown_nil] at hq
          rw [if_pos hf]
          show shown s.globals.codecType (done ++ [time]) = _
          rw [shown_append, if_pos ⟨hf.1, hd⟩]
          exact hq
        · rw [if_neg hf]
          show shown s.globals.codecType (done ++ [time]) = s.given ++ (s.globals.queTimestamp ++ [time])
          have hd : ¬ (s.globals.codecType = .H264 ∧ done = []) := fun hd =>
            hf ⟨hd.1, (h.first hd.1).mpr hd.2⟩
          rw [shown_append, if_neg hd, h.queue, List.append_assoc]

-- Beyond the timestamps in the queue the decoder can show the pending access unit at most.
theorem Stamped.decodable (h : Stamped s done) :
    (s.decodable = s.given ++ s.globals.queTimestamp ∧ ∀ time, s.pending ≠ some (true, time)) ∨
      (∃ time, s.pending = some (true, time) ∧
        s.decodable = s.given ++ s.globals.queTimestamp ++ [time]) ∨
      s.decodable = [] ∧ s.given = [] := by
  rw [Pairing.decodable, h.marked]
  cases hp : s.pending with
  | none =>
      left
      rw [pendingTimes, List.append_nil, h.queue]
      · exact ⟨rfl, nofun⟩
      · nofun
  | some call =>
      obtain ⟨mark, time⟩ := call
      cases mark with
      | false =>
          left
          rw [← h.queue]
          exact ⟨by simp [pendingTimes], nofun⟩
      | true =>
          right
          rw [pendingTimes, shown_append]
          split
          · rename_i hd
            have hq := h.queue
            rw [hd.2, shown_nil] at hq
            exact .inr ⟨rfl, (List.append_eq_nil_iff.mp hq.symm).1⟩
          · exact .inl ⟨time, rfl, by rw [h.queue]⟩

theorem Stamped.paired (h : Stamped s done) (ha : s.aborted = false) : s.Paired := by
  refine ⟨ha, ?_⟩
  rcases h.decodable with ⟨hd, -⟩ | ⟨time, -, hd⟩ | ⟨hd, hg⟩
  · rw [hd, List.take_left]
  · rw [hd, List.append_assoc, List.take_left]
  · rw [hd, hg]
    rfl

-- A picture of a unit whose timestamp is missing finds an empty queue, and any other one does not.
theorem Stamped.emit (h : Stamped s done) (ha : s.aborted = false) (hu : s.step .emit = some u) :
    (StampedFirst [] s .emit → u.aborted = false ∧ Stamped u done) ∧
      (¬ StampedFirst [] s .emit → u.aborted = true) := by
  simp only [Pairing.step] at hu
  rw [if_neg (by simp [ha])] at hu
  split at hu
  swap
  · cases hu
  rename_i hlt
  cases hq : s.globals.queTimestamp with
  | nil =>
      simp only [Globals.popTimestamp, hq] at hu
      obtain rfl := Option.some.inj hu
      refine ⟨fun hf => ?_, fun _ => rfl⟩
      rcases h.decodable with ⟨hd, -⟩ | ⟨time, hp, hd⟩ | ⟨hd, -⟩
      · rw [hd, hq, List.append_nil] at hlt
        exact absurd hlt (Nat.lt_irrefl _)
      · have := hf rfl time hp
        rw [hd, hq, List.append_nil, List.length_append, List.length_singleton] at this
        exact absurd this (Nat.lt_irrefl _)
      · rw [hd] at hlt
        cases hlt
  | cons time rest =>
      simp only [Globals.popTimestamp, hq] at hu
      obtain rfl := Option.some.inj hu
      refine ⟨fun _ => ⟨ha, h.marked, h.first, ?_⟩, fun hf => ?_⟩
      · show shown s.globals.codecType done = (s.given ++ [time]) ++ rest
        rw [h.queue, hq, List.append_assoc]
        rfl
      · refine absurd (fun _ time' hp => ?_) hf
        rcases h.decodable with ⟨-, hd⟩ | ⟨_, -, hd⟩ | ⟨hd, -⟩
        · exact absurd hp (hd time')
        · rw [hd, hq]
          simp
        · rw [hd] at hlt
          cases hlt

theorem Stamped.pushData {data : List UInt8} {mark : Bool} {time : UInt32} (h : Stamped s done)
    (hp : s.pending = none) :
    Stamped { s with
      globals := s.globals.pushData data
      pending := some (mark, time)
      marked := if mark then s.marked ++ [time] else s.marked } done := by
  refine ⟨?_, h.first, h.queue⟩
  have hm := h.marked
  rw [hp] at hm
  simp only [pendingTimes, List.append_nil] at hm
  cases mark with
  | false => simp [hm, pendingTimes]
  | true => simp [hm, pendingTimes]

-- One step. Only the picture of a unit whose timestamp is missing does harm.
theorem Stamped.step (h : Stamped s done) (ha : s.aborted = false) (hu : s.step e = some u) :
    (StampedFirst [] s e → u.aborted = false ∧ ∃ done, Stamped u done) ∧
      (¬ StampedFirst [] s e → u.aborted = true) := by
  cases e with
  | pushData data mark time =>
      simp only [Pairing.step] at hu
      rw [if_neg (by simp [ha])] at hu
      split at hu
      · cases hu
      rename_i hp
      obtain rfl := Option.some.inj hu
      exact ⟨fun _ => ⟨ha, done, h.pushData (by simpa using hp)⟩, fun hf => absurd nofun hf⟩
  | pushTimestamp =>
      simp only [Pairing.step] at hu
      rw [if_neg (by simp [ha])] at hu
      split at hu
      · cases hu
      rename_i mark time hp
      obtain rfl := Option.some.inj hu
      exact ⟨fun _ => ⟨ha, h.pushTimestamp hp⟩, fun hf => absurd nofun hf⟩
  | emit =>
      obtain ⟨hok, hbad⟩ := h.emit ha hu
      exact ⟨fun hf => ⟨(hok hf).1, done, (hok hf).2⟩, hbad⟩

theorem aborted_stuck (ha : s.aborted = true) (e : PairingEvent) : s.step e = none := by
  unfold Pairing.step
  rw [if_pos ha]

theorem live_of_step (hu : s.step e = some u) : s.aborted = false := by
  cases ha : s.aborted with
  | false => rfl
  | true =>
      rw [aborted_stuck ha] at hu
      cases hu

end Step

theorem stamped_init (type : CodecType) : Stamped (Pairing.init type) [] :=
  ⟨rfl, fun _ => by simp [Pairing.init], shown_nil type⟩

-- A run that has not been aborted has kept the timestamps in order.
theorem stamped_run {type : CodecType} {es : List PairingEvent} {s : Pairing}
    (hr : run Pairing.step (Pairing.init type) es = some s) (ha : s.aborted = false) :
    ∃ done, Stamped s done := by
  refine run_invariant (fun _ s => s.aborted = false → ∃ done, Stamped s done)
    (fun _ => ⟨[], stamped_init type⟩) ?_ hr ha
  intro es t e u ih hu hau
  obtain ⟨done, h⟩ := ih (live_of_step hu)
  obtain ⟨hok, hbad⟩ := h.step (live_of_step hu) hu
  by_cases hf : StampedFirst [] t e
  · exact (hok hf).2
  · rw [hbad hf] at hau
    cases hau

-- The assertion holds and every picture gets its timestamp exactly in the runs where no picture
-- comes out before the timestamp of its access unit is pushed.
theorem paired_iff (type : CodecType) (es : List PairingEvent) (s : Pairing)
    (hr : run Pairing.step (Pairing.init type) es = some s) :
    s.Paired ↔ Along Pairing.step StampedFirst (Pairing.init type) es := by
  constructor
  · rintro ⟨ha, -⟩ before e after t rfl ht
    obtain ⟨_, hstep⟩ := step_of_run hr ht
    have hat := live_of_step hstep
    obtain ⟨done, h⟩ := stamped_run ht hat
    rw [run_append, ht, Option.bind_some, run_cons] at hr
    obtain ⟨u, hu, hr⟩ := Option.bind_eq_some_iff.mp hr
    by_contra hf
    have hau := (h.step hat hu).2 hf
    -- Nothing can follow an abort, so the run would end aborted.
    cases after with
    | nil =>
        obtain rfl := Option.some.inj hr
        rw [hau] at ha
        cases ha
    | cons e after =>
        rw [run_cons, aborted_stuck hau] at hr
        cases hr
  · intro hf
    have ha : s.aborted = false ∧ ∃ done, Stamped s done := by
      refine run_invariant_along StampedFirst
        (fun _ s => s.aborted = false ∧ ∃ done, Stamped s done) ⟨rfl, [], stamped_init type⟩ ?_ hf hr
      rintro es t e u ⟨hat, done, h⟩ hs hu
      exact (h.step hat hu).1 hs
    obtain ⟨ha, done, h⟩ := ha
    exact h.paired ha

def stampedFirst : Pairing → PairingEvent → Bool
  | s, .emit => (pendingTimes s.pending).isEmpty || s.given.length + 1 < s.decodable.length
  | _, _ => true

theorem stampedFirst_of_check (before : List PairingEvent) (s : Pairing) (e : PairingEvent)
    (h : stampedFirst s e = true) : StampedFirst before s e := by
  rintro rfl time hp
  simpa [stampedFirst, hp, pendingTimes] using h

-- Three access units of H.264. The picture of the second comes while the third is half done.
def timelyPicture : List PairingEvent :=
  [.pushData [] true 90000, .pushTimestamp, .pushData [] true 93600, .pushTimestamp,
    .pushData [] true 97200, .emit]

theorem paired_iff_timely :
    ∃ s, run Pairing.step (Pairing.init .H264) timelyPicture = some s ∧ s.given = [93600] ∧ s.Paired :=
  ⟨_, rfl, rfl, (paired_iff .H264 timelyPicture _ rfl).mpr
    (along_of_check stampedFirst stampedFirst_of_check (by decide))⟩

-- One marked access unit of H.265, whose picture comes before its timestamp.
def earlyPicture : List PairingEvent := [.pushData [] true 90000, .emit]

theorem early_picture_aborts :
    ¬ ∀ (type : CodecType) (es : List PairingEvent) (s : Pairing),
      run Pairing.step (Pairing.init type) es = some s → s.Paired := by
  intro h
  have ha : (run Pairing.step (Pairing.init .H265) earlyPicture).map (·.aborted) = some true := by
    decide
  obtain ⟨s, hr, ha⟩ := Option.map_eq_some_iff.mp ha
  have := (h .H265 earlyPicture s hr).1
  rw [this] at ha
  cases ha

end Vcu
