import Vcu.Lib.History
import Vcu.Lib.Reorder
import Vcu.Rtp.Ring.Lemmas

namespace Vcu

open Machine Window Reorder History

-- No packet is stored before the parser has passed the packet one lap earlier.
def Windowed : List Turn → Ring → Turn → Prop :=
  fun _ s e => ∀ j, e = .receive j → j < s.reads.length + 4096

-- The reads so far are the first packets of the stream, and every packet that has arrived since
-- then waits in its own slot.
structure InOrder (pkt : Nat → List UInt8) (arr : List Nat) (s : Ring) : Prop where
  window : ∀ j ∈ arr, j < s.reads.length + 4096
  read : ∀ k m, s.reads[k]? = some m → m.isValid = true ∧ m.pdata = pkt k
  unread : ∀ j ∈ arr, s.reads.length ≤ j → Unread pkt s j

section Step

variable {pkt : Nat → List UInt8} {first : UInt16} {arr : List Nat} {s u : Ring} {j : Nat}

theorem InOrder.receive (h : InOrder pkt arr s) (hc : Counted first arr s)
    (hpkt : Numbered pkt first) (ha : Reordered 30 (arr ++ [j])) (hw : j < s.reads.length + 4096)
    (hu : ringTurn pkt s (.receive j) = some u) : InOrder pkt (arr ++ [j]) u := by
  obtain ⟨m, hvalid, hdata, hvec, hreads, -⟩ := receive_spec hpkt (hc.firstSeq_or ha.first) hu
  have hnew : j ∉ arr := fun hj => (List.nodup_append.mp ha.nodup).2.2 j hj j (by simp) rfl
  refine ⟨?_, ?_, ?_⟩
  · intro i hi
    rw [hreads]
    rcases List.mem_append.mp hi with hi | hi
    · exact h.window i hi
    · rwa [List.mem_singleton.mp hi]
  · rw [hreads]
    exact h.read
  · intro i hi hp
    rw [hreads] at hp
    rw [Unread, hvec]
    rcases List.mem_append.mp hi with hi | hi
    · -- Both offsets lie in one lap of the parser, so the new packet goes to another slot.
      have hne : slot i ≠ slot j := by
        intro he
        by_cases hj : s.reads.length ≤ j
        · have := eq_of_mod_eq hp (h.window i hi) hj hw (slot_eq_iff.mp he)
          exact hnew (this ▸ hi)
        · have hlag := hc.lag
          exact hnew (ha.of_append.mem (by omega))
      rw [Function.update_of_ne hne]
      exact h.unread i hi hp
    · rw [List.mem_singleton.mp hi, Function.update_self]
      exact ⟨hvalid, hdata⟩

theorem InOrder.parse (h : InOrder pkt arr s) (hc : Counted first arr s) (ha : Reordered 30 arr)
    (hu : ringTurn pkt s .parse = some u) : InOrder pkt arr u := by
  obtain ⟨hpos, -, -, -, -, hreads, hvec⟩ := parse_spec hu
  rw [hc.slot_parserIndex] at hreads hvec
  have hread := hc.read_lt hpos
  have hnext := h.unread s.reads.length (ha.mem hread) (Nat.le_refl _)
  have hlen : u.reads.length = s.reads.length + 1 := by
    rw [hreads, List.length_append, List.length_singleton]
  refine ⟨?_, ?_, ?_⟩
  · intro i hi
    have := h.window i hi
    omega
  · intro k m hm
    rw [hreads] at hm
    rcases getElem?_concat_eq_some.mp hm with hm | ⟨rfl, rfl⟩
    · exact h.read k m hm
    · exact hnext
  · intro i hi hp
    rw [hlen] at hp
    have hne : slot i ≠ slot s.reads.length := by
      intro he
      have := eq_of_mod_eq (p := s.reads.length) (by omega) (h.window i hi) (Nat.le_refl _)
        (by omega) (slot_eq_iff.mp he)
      omega
    rw [Unread, hvec, Function.update_of_ne hne]
    exact h.unread i hi (by omega)

end Step

theorem inOrder_run {pkt : Nat → List UInt8} {first : UInt16} (hpkt : Numbered pkt first)
    {es : List Turn} {s : Ring} (ha : Reordered 30 (arrivals es))
    (hw : Along (ringTurn pkt) Windowed {} es) (hr : run (ringTurn pkt) {} es = some s) :
    Counted first (arrivals es) s ∧ InOrder pkt (arrivals es) s := by
  refine run_invariant_along Windowed
    (fun es s => Reordered 30 (arrivals es) → Counted first (arrivals es) s ∧
      InOrder pkt (arrivals es) s) ?_ ?_ hw hr ha
  · intro _
    exact ⟨counted_init first, ⟨by simp, by simp, by simp⟩⟩
  · intro es t e u ih hg hu ha
    rw [arrivals_append] at ha ⊢
    obtain ⟨hc, ho⟩ := ih ha.of_append
    cases e with
    | receive j =>
        rw [arrivals_receive] at ha ⊢
        exact ⟨hc.receive hpkt ha.first hu, ho.receive hc hpkt ha (hg j rfl) hu⟩
    | parse =>
        rw [arrivals_parse, List.append_nil] at ha ⊢
        exact ⟨hc.parse hu, ho.parse hc ha hu⟩

-- The parser's k-th read finds the k-th packet of the stream.
theorem reads_in_order (pkt : Nat → List UInt8) (first : UInt16) (es : List Turn) (s : Ring)
    (hpkt : Numbered pkt first) (ha : Reordered 30 (arrivals es))
    (hw : Along (ringTurn pkt) Windowed {} es) (hr : run (ringTurn pkt) {} es = some s) (k : Nat)
    (m : RtpModel) (hm : s.reads[k]? = some m) : m.isValid = true ∧ m.pdata = pkt k :=
  (inOrder_run hpkt ha hw hr).2.read k m hm

-- Packets 1 and 2 change places, and the parser runs as soon as it can.
def swappedTurns : List Turn :=
  [.receive 0, .receive 2, .receive 1] ++ (List.range 28).map (fun j => .receive (j + 3)) ++ [.parse]

def windowedCheck (s : Ring) : Turn → Bool
  | .receive j => j < s.reads.length + 4096
  | .parse => true

theorem reads_in_order_swapped :
    ∃ s m, run (ringTurn bareStream) {} swappedTurns = some s ∧ s.reads[0]? = some m ∧
      m.isValid = true ∧ m.pdata = [0x80, 0x60, 0, 0] := by
  have hw : Along (ringTurn bareStream) Windowed {} swappedTurns := by
    refine along_of_check windowedCheck ?_ (by decide +kernel)
    rintro before t e he j rfl
    exact of_decide_eq_true he
  have ha : Reordered 30 (arrivals swappedTurns) :=
    reordered_of_perm (n := 31) (by decide) (by decide) (by decide)
  have hs : ((run (ringTurn bareStream) {} swappedTurns).bind (·.reads[0]?)).isSome = true := by
    decide +kernel
  obtain ⟨m, hm⟩ := Option.isSome_iff_exists.mp hs
  obtain ⟨s, hr, hm⟩ := Option.bind_eq_some_iff.mp hm
  exact ⟨s, m, hr, hm, reads_in_order bareStream 0 swappedTurns s bareStream_numbered ha hw hr 0 m hm⟩

end Vcu
