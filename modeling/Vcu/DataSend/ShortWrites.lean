import Vcu.DataSend.BoxStream
import Vcu.DataSend.RoundTrip

namespace Vcu

open Machine

-- The bytes of a write that have reached the client.
def Write.taken (w : Write) : List UInt8 := w.packet.take w.count

-- Whole packets that were sent before, and then a beginning of the present one.
def Framed (sent : List (List UInt8)) (packet received : List UInt8) : Prop :=
  ∃ (whole : List (List UInt8)) (part : List UInt8), whole.Sublist sent ∧
    part <+: packet ∧ received = whole.flatten ++ part

-- What the client has stays framed at every byte of every write.
def FramedThroughout (writes : List Write) : Prop :=
  ∀ before w after, writes = before ++ w :: after → ∀ m ≤ w.count,
    Framed (before.map (·.packet)) w.packet (before.flatMap Write.taken ++ w.packet.take m)

-- A write has transferred nothing or all of its packet.
def Write.Uncut (w : Write) : Prop := w.count = 0 ∨ w.count = w.packet.length

instance (w : Write) : Decidable w.Uncut := inferInstanceAs (Decidable (_ ∨ _))

-- No write begins behind a packet that was cut off.
def NothingCut : List BoxEvent → BoxStream → BoxEvent → Prop := fun _ s e =>
  ∀ ret, e = .write ret → ∀ w ∈ s.writes, w.Uncut

section Framed

variable {writes : List Write} {w : Write}

theorem taken_uncut (h : w.Uncut) : w.taken = [] ∨ w.taken = w.packet := by
  rcases h with h | h
  · exact .inl (by rw [Write.taken, h, List.take_zero])
  · exact .inr (by rw [Write.taken, h, List.take_length])

-- The client has exactly the packets of the writes that did not fail.
theorem taken_eq_flatten (h : ∀ w ∈ writes, w.Uncut) :
    ∃ whole : List (List UInt8), whole.Sublist (writes.map (·.packet)) ∧
      writes.flatMap Write.taken = whole.flatten := by
  induction writes with
  | nil => exact ⟨[], .slnil, rfl⟩
  | cons w writes ih =>
      obtain ⟨whole, hsub, heq⟩ := ih fun v hv => h v (List.mem_cons_of_mem _ hv)
      rcases taken_uncut (h w List.mem_cons_self) with hnone | hall
      · exact ⟨whole, hsub.cons _, by rw [List.flatMap_cons, hnone, heq, List.nil_append]⟩
      · refine ⟨w.packet :: whole, hsub.cons_cons _, ?_⟩
        rw [List.flatMap_cons, hall, heq, List.flatten_cons]

theorem framedThroughout_concat (h : FramedThroughout writes) (huncut : ∀ w ∈ writes, w.Uncut) :
    FramedThroughout (writes ++ [w]) := by
  intro before v after heq m hm
  rcases List.eq_nil_or_concat after with rfl | ⟨after, last, rfl⟩
  · obtain ⟨rfl, hv⟩ := List.append_inj' heq rfl
    obtain rfl := (List.cons.inj hv).1
    obtain ⟨whole, hsub, htaken⟩ := taken_eq_flatten huncut
    exact ⟨whole, w.packet.take m, hsub, List.take_prefix _ _, by rw [htaken]⟩
  · rw [List.concat_eq_append, ← List.cons_append, ← List.append_assoc] at heq
    exact h before v after (List.append_inj' heq rfl).1 m hm

end Framed

section Run

variable {s u : BoxStream} {e : BoxEvent}

-- One client, and a stream that is framed.
structure OneStream (c : Nat) (s : BoxStream) : Prop where
  connection : s.connection = c
  writes : ∀ w ∈ s.writes, w.connection = c
  framed : FramedThroughout s.writes

theorem OneStream.step {c : Nat} (hs : OneStream c s) (hstay : ∀ r, e ≠ .receive r)
    (hcut : ∀ ret, e = .write ret → ∀ w ∈ s.writes, w.Uncut) (h : s.step e = some u) :
    OneStream c u := by
  have hc := (BoxStream.step_connection hstay h).trans hs.connection
  rcases BoxStream.step_writes h with hw | ⟨packet, count, -, hw, ret, rfl⟩
  · exact ⟨hc, by rw [hw]; exact hs.writes, by rw [hw]; exact hs.framed⟩
  · refine ⟨hc, ?_, ?_⟩
    · intro w hmem
      rw [hw] at hmem
      rcases List.mem_append.mp hmem with hmem | hmem
      · exact hs.writes w hmem
      · rw [List.mem_singleton.mp hmem]
        exact hs.connection
    · rw [hw]
      exact framedThroughout_concat hs.framed (hcut ret rfl)

-- While no write follows a packet that was cut off, the stream to the client stays framed,
-- whatever the calls of sendBox and the results of the writes.
theorem boxStream_framed (d : DataSend) (c : Nat) (es : List BoxEvent) (s : BoxStream)
    (hstay : ∀ r, .receive r ∉ es)
    (hcut : Along BoxStream.step NothingCut { data := d, connection := c } es)
    (hr : run BoxStream.step { data := d, connection := c } es = some s) :
    (∀ w ∈ s.writes, w.connection = c) ∧ FramedThroughout s.writes := by
  have hinv := run_invariant_along NothingCut (fun es s => (∀ r, .receive r ∉ es) → OneStream c s)
    ?_ ?_ hcut hr hstay
  · exact ⟨hinv.writes, hinv.framed⟩
  · intro _
    refine ⟨rfl, nofun, ?_⟩
    intro before w after heq
    cases before <;> cases heq
  · intro es t e u ih hcut hstep hstay
    have hbefore : OneStream c t := ih fun r hr => hstay r (List.mem_append_left _ hr)
    have hlast : ∀ r, e ≠ .receive r := by
      rintro r rfl
      exact hstay r (List.mem_append_right _ List.mem_cons_self)
    exact hbefore.step hlast hcut hstep

end Run

def nothingCutCheck (s : BoxStream) : BoxEvent → Bool
  | .write _ => s.writes.all fun w => decide w.Uncut
  | .sendBox _ => true
  | .leave => true
  | .receive _ => true

theorem nothingCut_of_check (before : List BoxEvent) (s : BoxStream) (e : BoxEvent)
    (h : nothingCutCheck s e = true) : NothingCut before s e := by
  rintro ret rfl w hw
  exact of_decide_eq_true (List.all_eq_true.mp h w hw)

-- A failed write in front, and a short one at the end.
def shortEnd : List BoxEvent :=
  [.sendBox spillOver, .write (some 1091), .write none, .sendBox spillOver, .write (some 1091),
    .write (some 20)]

theorem boxStream_framed_short : ∃ s : BoxStream,
    run BoxStream.step { data := { canSendBox := true }, connection := 1 } shortEnd = some s ∧
      s.writes.map (·.count) = [1091, 0, 1091, 20] ∧ FramedThroughout s.writes := by
  have hrun : (run BoxStream.step { data := { canSendBox := true }, connection := 1 } shortEnd).map
      (fun s => s.writes.map (·.count)) = some [1091, 0, 1091, 20] := by decide +kernel
  obtain ⟨s, hs, hcounts⟩ := Option.map_eq_some_iff.mp hrun
  refine ⟨s, hs, hcounts, (boxStream_framed _ 1 shortEnd s ?_ ?_ hs).2⟩
  · simp [shortEnd]
  · exact along_of_check nothingCutCheck nothingCut_of_check (by decide +kernel)

-- After a write of one byte the next call begins a packet behind that byte.
theorem boxStream_cut : ∃ s : BoxStream,
    run BoxStream.step { data := { canSendBox := true }, connection := 1 }
      [.sendBox spillOver, .write (some 1), .sendBox spillOver, .write (some 1091)] = some s ∧
      ¬ FramedThroughout s.writes := by
  have hrun : (run BoxStream.step { data := { canSendBox := true }, connection := 1 }
      [.sendBox spillOver, .write (some 1), .sendBox spillOver, .write (some 1091)]).map
        BoxStream.writes = some [⟨1, spillOver.packet 0, 1⟩, ⟨1, spillOver.packet 0, 1091⟩] := by
    decide +kernel
  obtain ⟨s, hs, hw⟩ := Option.map_eq_some_iff.mp hrun
  refine ⟨s, hs, ?_⟩
  rw [hw]
  intro h
  obtain ⟨whole, part, hsub, hpart, heq⟩ := h [⟨1, spillOver.packet 0, 1⟩] _ [] rfl 1 (by decide)
  have hreceived : whole.flatten ++ part = [0x55, 0x55] := heq.symm.trans (by decide +kernel)
  rcases List.sublist_cons_iff.mp hsub with hnil | ⟨rest, rfl, -⟩
  · rw [List.sublist_nil.mp hnil, List.flatten_nil, List.nil_append] at hreceived
    rw [hreceived] at hpart
    exact absurd hpart (by decide +kernel)
  · have hlen : (spillOver.packet 0).length = 1091 := by decide +kernel
    have := congrArg List.length hreceived
    simp only [List.flatten_cons, List.length_append, hlen, List.length_cons, List.length_nil] at this
    omega

end Vcu
