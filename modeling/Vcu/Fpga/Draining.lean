import Vcu.Fpga.Matching
import Vcu.Lib.Progress

namespace Vcu

open Machine

namespace InputPc

-- The frame of a call to FPGAControl::input that is not in the queue yet.
def pending : InputPc → List FPGAInput
  | .acquire input => [input]
  | .push input => [input]
  | _ => []

-- The steps that the call has left.
def rank : InputPc → Nat
  | .idle => 0
  | .acquire _ => 5
  | .push _ => 4
  | .write _ => 3
  | .release => 2
  | .increment => 1

end InputPc

namespace OutputPc

-- A post taken for a callback that has not begun, also by a thread that has given up.
def held : OutputPc → Nat
  | .poll _ => 1
  | .pop => 1
  | .release _ _ => 1
  | .call _ _ => 1
  | .exited => 1
  | .undefined => 1
  | _ => 0

-- The steps up to the next callback, at most.
def rank : OutputPc → Nat
  | .increment => 106
  | .delete _ => 107
  | .calling _ _ => 108
  | .loop => 105
  | .acquire => 104
  | .poll readCount => 103 - readCount
  | .pop => 3
  | .release _ _ => 2
  | .call _ _ => 1
  | .returned => 0
  | .exited => 0
  | .undefined => 0

-- The hundredth poll gives up before it reads the register.
def GivenUp (pc : OutputPc) : Prop := pc = .exited ∨ pc = .poll 99

end OutputPc

-- The frames that the threads have been given.
def Fpga.given (s : Fpga) : List FPGAInput := s.submitted ++ s.inputPc.pending

-- The steps that are left until every frame given so far has had its callback, at most.
def Fpga.remaining (s : Fpga) : Nat :=
  108 * (s.given.length - s.calls.length) + s.outputPc.rank + (2 * s.given.length - s.stored - s.counted) +
    s.inputPc.rank

-- The threads and the device work on what they have. No new frame comes, and no stop.
def FpgaEvent.Working : FpgaEvent → Prop
  | .input _ => False
  | .stop => False
  | _ => True

-- While the threads run, every post stands for a frame that is written and not called back.
structure Posts (s : Fpga) : Prop where
  posted : s.isStop = false →
    s.sem_input + s.calls.length + s.outputPc.held + s.inputPc.unposted = s.writes.length
  polls : ∀ n, s.outputPc = .poll n → n < 100
  returned : s.outputPc = .returned → s.isStop = true

section Posts

variable {s u : Fpga}

theorem posts_init (para : FpgaPara) (regStart : UInt32) : Posts (Fpga.initIndex para regStart) :=
  ⟨fun _ => rfl, by rintro n ⟨⟩, by rintro ⟨⟩⟩

theorem Posts.inputStep (h : Posts s) (hu : s.inputStep = some u) : Posts u := by
  obtain ⟨h1, h2, h3⟩ := h
  cases inputStep_rule hu with
  | acquire input before permit =>
      refine ⟨fun hs => ?_, h2, h3⟩
      have := h1 hs
      simp only [before, InputPc.unposted] at this ⊢
      exact this
  | push input before =>
      refine ⟨fun hs => ?_, h2, h3⟩
      have := h1 hs
      simp only [before, InputPc.unposted] at this ⊢
      exact this
  | write input before =>
      refine ⟨fun hs => ?_, h2, h3⟩
      have := h1 hs
      simp only [before, InputPc.unposted, List.length_append, List.length_singleton] at this ⊢
      omega
  | release before =>
      refine ⟨fun hs => ?_, h2, h3⟩
      have := h1 hs
      simp only [before, InputPc.unposted] at this ⊢
      omega
  | increment before =>
      refine ⟨fun hs => ?_, h2, h3⟩
      have := h1 hs
      simp only [before, InputPc.unposted] at this ⊢
      exact this

-- A thread returns when it is stopped only, and gives up after the hundredth poll.
theorem outputStep_limits (hpolls : ∀ n, s.outputPc = .poll n → n < 100)
    (hu : s.outputStep = some u) :
    (u.outputPc = .returned → s.isStop = true) ∧ ∀ n, u.outputPc = .poll n → n < 100 := by
  cases outputStep_rule hu with
  | loop pc before after =>
      simp only [Fpga.outputStep, before] at hu
      obtain hpc := congrArg Fpga.outputPc (Option.some.inj hu)
      simp only at hpc
      rw [← hpc]
      split
      · rename_i hstop
        exact ⟨fun _ => hstop, by simp⟩
      · exact ⟨by simp, by simp⟩
  | acquire before post =>
      refine ⟨by simp, ?_⟩
      rintro n ⟨⟩
      decide
  | wait n pc before after =>
      have hn := hpolls n before
      simp only [Fpga.outputStep, before] at hu
      split at hu
      · rename_i hstop
        exact ⟨fun _ => hstop, by rw [← Option.some.inj hu]; simp⟩
      split at hu
      · rw [← Option.some.inj hu]
        exact ⟨by simp, by simp⟩
      split at hu
      · rw [← Option.some.inj hu]
        exact ⟨by simp, by simp⟩
      · rw [← Option.some.inj hu]
        refine ⟨by simp, ?_⟩
        rintro k ⟨⟩
        omega
  | ready n before counted => exact ⟨by simp, by simp⟩
  | underflow before empty => exact ⟨by simp, by simp⟩
  | pop input rest before queue => exact ⟨by simp, by simp⟩
  | release outData input before => exact ⟨by simp, by simp⟩
  | call outData input before => exact ⟨by simp, by simp⟩
  | calling outData input before => exact ⟨by simp, by simp⟩
  | delete input before => exact ⟨by simp, by simp⟩
  | increment before => exact ⟨by simp, by simp⟩

theorem isStop_outputStep (hu : s.outputStep = some u) : u.isStop = s.isStop := by
  cases outputStep_rule hu <;> rfl

theorem Posts.outputStep (h : Posts s) (hu : s.outputStep = some u) : Posts u := by
  obtain ⟨hreturned, hpolls⟩ := outputStep_limits h.polls hu
  refine ⟨fun hs => ?_, hpolls, fun hpc => (isStop_outputStep hu).trans (hreturned hpc)⟩
  have h1 := h.posted ((isStop_outputStep hu).symm.trans hs)
  cases outputStep_rule hu with
  | loop pc before after =>
      simp only [before, OutputPc.held] at h1
      rcases after with rfl | rfl
      · exact h1
      · exact h1
  | acquire before post =>
      simp only [before, OutputPc.held] at h1 ⊢
      omega
  | wait n pc before after =>
      simp only [before, OutputPc.held] at h1
      rcases after with rfl | rfl | rfl
      · rw [← isStop_outputStep hu, hs] at hreturned
        cases hreturned rfl
      · exact h1
      · exact h1
  | ready n before counted =>
      simp only [before, OutputPc.held] at h1
      exact h1
  | underflow before empty =>
      simp only [before, OutputPc.held] at h1
      exact h1
  | pop input rest before queue =>
      simp only [before, OutputPc.held] at h1
      exact h1
  | release outData input before =>
      simp only [before, OutputPc.held] at h1
      exact h1
  | call outData input before =>
      simp only [before, OutputPc.held, List.length_append, List.length_singleton] at h1 ⊢
      omega
  | calling outData input before =>
      simp only [before, OutputPc.held] at h1
      exact h1
  | delete input before =>
      simp only [before, OutputPc.held] at h1
      exact h1
  | increment before =>
      simp only [before, OutputPc.held] at h1
      exact h1

theorem Posts.step {e : FpgaEvent} (h : Posts s) (hu : s.step e = some u) : Posts u := by
  cases e with
  | input input =>
      simp only [Fpga.step] at hu
      split at hu
      · rename_i hpc
        obtain rfl := Option.some.inj hu
        refine ⟨fun hs => ?_, h.polls, h.returned⟩
        have h1 := h.posted hs
        simp only [hpc, InputPc.unposted] at h1 ⊢
        exact h1
      · cases hu
  | inputStep => exact h.inputStep hu
  | outputStep => exact h.outputStep hu
  | store =>
      simp only [Fpga.step, Fpga.store] at hu
      split at hu
      · obtain rfl := Option.some.inj hu
        exact ⟨h.posted, h.polls, h.returned⟩
      · cases hu
  | count =>
      simp only [Fpga.step, Fpga.count] at hu
      split at hu
      · obtain rfl := Option.some.inj hu
        exact ⟨h.posted, h.polls, h.returned⟩
      · cases hu
  | stop =>
      obtain rfl := Option.some.inj hu
      exact ⟨by simp, h.polls, fun _ => rfl⟩

end Posts

-- Everything that is known of a state that a run reaches.
structure Reached (s : Fpga) : Prop where
  size : s.para.outputSize.toNat < 536870912
  counts : Counts s
  fifo : Fifo s
  contents : Contents s
  posts : Posts s

section Reached

variable {s u : Fpga} {e : FpgaEvent}

theorem Reached.step (h : Reached s) (hu : s.step e = some u) : Reached u := by
  obtain ⟨hfifo, hcontents⟩ := contents_step h.contents h.fifo h.counts h.size hu
  refine ⟨?_, h.counts.step hu, hfifo, hcontents, h.posts.step hu⟩
  rw [para_step hu]
  exact h.size

theorem reached_run {para : FpgaPara} {regStart : UInt32}
    (hsize : para.outputSize.toNat < 536870912) {es : List FpgaEvent}
    (hr : run Fpga.step (Fpga.initIndex para regStart) es = some s) : Reached s := by
  refine run_invariant (fun _ s => Reached s) ?_ (fun _ _ _ _ h hu => h.step hu) hr
  exact ⟨hsize, counts_init para regStart, fifo_init para regStart, contents_init para regStart,
    posts_init para regStart⟩

-- Every step of the two threads and of the device brings the last callback nearer.
theorem remaining_inputStep (hu : s.inputStep = some u) : u.remaining < s.remaining := by
  cases inputStep_rule hu with
  | acquire input before permit =>
      simp only [Fpga.remaining, Fpga.given, List.length_append, before, InputPc.pending, InputPc.rank]
      omega
  | push input before =>
      simp only [Fpga.remaining, Fpga.given, before, InputPc.pending, InputPc.rank,
        List.length_append, List.length_singleton, List.length_nil]
      omega
  | write input before =>
      simp only [Fpga.remaining, Fpga.given, List.length_append, before, InputPc.pending, InputPc.rank]
      omega
  | release before =>
      simp only [Fpga.remaining, Fpga.given, List.length_append, before, InputPc.pending, InputPc.rank]
      omega
  | increment before =>
      simp only [Fpga.remaining, Fpga.given, List.length_append, before, InputPc.pending, InputPc.rank]
      omega

theorem remaining_outputStep (h : Reached s) (hu : s.outputStep = some u) :
    u.remaining < s.remaining := by
  have hlimits := (outputStep_limits h.posts.polls hu).2
  have hposted := h.counts.posted
  have hwritten := h.counts.written
  cases outputStep_rule hu with
  | loop pc before after =>
      simp only [Fpga.remaining, Fpga.given, List.length_append, before]
      rcases after with rfl | rfl
      · simp only [OutputPc.rank]
        omega
      · simp only [OutputPc.rank]
        omega
  | acquire before post =>
      simp only [Fpga.remaining, Fpga.given, List.length_append, before, OutputPc.rank]
      omega
  | wait n pc before after =>
      have hn := h.posts.polls n before
      simp only [Fpga.remaining, Fpga.given, List.length_append, before]
      rcases after with rfl | rfl | rfl
      · simp only [OutputPc.rank]
        omega
      · simp only [OutputPc.rank]
        omega
      · have hn1 := hlimits (n + 1) rfl
        simp only [OutputPc.rank]
        omega
  | ready n before counted =>
      have hn := h.posts.polls n before
      simp only [Fpga.remaining, Fpga.given, List.length_append, before, OutputPc.rank]
      omega
  | underflow before empty =>
      simp only [Fpga.remaining, Fpga.given, List.length_append, before, OutputPc.rank]
      omega
  | pop input rest before queue =>
      simp only [Fpga.remaining, Fpga.given, List.length_append, before, OutputPc.rank]
      omega
  | release outData input before =>
      simp only [Fpga.remaining, Fpga.given, List.length_append, before, OutputPc.rank]
      omega
  | call outData input before =>
      -- A callback is worth more than all the steps that follow it.
      simp only [before, OutputPc.taken] at hposted
      simp only [Fpga.remaining, Fpga.given, before, OutputPc.rank, List.length_append,
        List.length_singleton]
      omega
  | calling outData input before =>
      simp only [Fpga.remaining, Fpga.given, List.length_append, before, OutputPc.rank]
      omega
  | delete input before =>
      simp only [Fpga.remaining, Fpga.given, List.length_append, before, OutputPc.rank]
      omega
  | increment before =>
      simp only [Fpga.remaining, Fpga.given, List.length_append, before, OutputPc.rank]
      omega

theorem remaining_store (h : Reached s) (hu : s.store = some u) : u.remaining < s.remaining := by
  have hcounted := h.counts.counted
  have hwritten := h.counts.written
  simp only [Fpga.store] at hu
  split at hu
  · obtain rfl := Option.some.inj hu
    simp only [Fpga.remaining, Fpga.given, List.length_append]
    omega
  · cases hu

theorem remaining_count (h : Reached s) (hu : s.count = some u) : u.remaining < s.remaining := by
  have hstored := h.counts.stored
  have hwritten := h.counts.written
  simp only [Fpga.count] at hu
  split at hu
  · obtain rfl := Option.some.inj hu
    simp only [Fpga.remaining, Fpga.given, List.length_append]
    omega
  · cases hu

theorem working_lowers : Lowers Fpga.step FpgaEvent.Working Reached Fpga.remaining := by
  intro s e u h hworking hu
  refine ⟨h.step hu, ?_⟩
  cases e with
  | input input => cases hworking
  | inputStep => exact remaining_inputStep hu
  | outputStep => exact remaining_outputStep h hu
  | store => exact remaining_store h hu
  | count => exact remaining_count h hu
  | stop => cases hworking

theorem given_step (hworking : e.Working) (hu : s.step e = some u) : u.given = s.given := by
  cases e with
  | input input => cases hworking
  | inputStep =>
      cases inputStep_rule hu with
      | acquire input before permit => simp only [Fpga.given, before, InputPc.pending]
      | push input before => simp only [Fpga.given, before, InputPc.pending, List.append_nil]
      | write input before => simp only [Fpga.given, before, InputPc.pending]
      | release before => simp only [Fpga.given, before, InputPc.pending]
      | increment before => simp only [Fpga.given, before, InputPc.pending]
  | outputStep => cases outputStep_rule hu <;> rfl
  | store =>
      simp only [Fpga.step, Fpga.store] at hu
      split at hu
      · cases hu; rfl
      · cases hu
  | count =>
      simp only [Fpga.step, Fpga.count] at hu
      split at hu
      · cases hu; rfl
      · cases hu
  | stop => cases hworking

theorem isStop_step (hworking : e.Working) (hu : s.step e = some u) : u.isStop = s.isStop := by
  cases e with
  | input input => cases hworking
  | inputStep => cases inputStep_rule hu <;> rfl
  | outputStep => exact isStop_outputStep hu
  | store =>
      simp only [Fpga.step, Fpga.store] at hu
      split at hu
      · cases hu; rfl
      · cases hu
  | count =>
      simp only [Fpga.step, Fpga.count] at hu
      split at hu
      · cases hu; rfl
      · cases hu
  | stop => cases hworking

-- Working steps take in no frame and do not stop the threads.
theorem given_run {es : List FpgaEvent} (hes : ∀ e ∈ es, e.Working)
    (hr : run Fpga.step s es = some u) : u.given = s.given ∧ u.isStop = s.isStop := by
  induction es generalizing s with
  | nil =>
      obtain rfl := Option.some.inj hr
      exact ⟨rfl, rfl⟩
  | cons e es ih =>
      obtain ⟨t, ht, hr⟩ := Option.bind_eq_some_iff.mp hr
      obtain ⟨hgiven, hstop⟩ := ih (fun d hd => hes d (List.mem_cons_of_mem e hd)) hr
      have he := hes e List.mem_cons_self
      exact ⟨hgiven.trans (given_step he ht), hstop.trans (isStop_step he ht)⟩

-- Every frame given so far has had its callback, and they came in order.
def Fpga.Drained (s : Fpga) : Prop := s.inputPc = .idle ∧ s.calls.map Prod.fst = s.given

theorem calls_eq_take (h : Contents s) : s.calls.map Prod.fst = s.submitted.take s.calls.length := by
  apply List.ext_getElem?
  intro k
  rw [List.getElem?_map, List.getElem?_take]
  cases hk : s.calls[k]? with
  | none => rw [if_neg (Nat.not_lt.mpr (List.getElem?_eq_none_iff.mp hk)), Option.map_none]
  | some c =>
      rw [if_pos (List.getElem?_eq_some_iff.mp hk).1, (h.calls k c hk).1, Option.map_some]

-- Without new frames both threads rest only once everything is delivered.
theorem Reached.drained (h : Reached s) (hstop : s.isStop = false) (hin : s.inputStep = none)
    (hpc : s.outputPc = .acquire) (hsem : s.sem_input = 0) : s.Drained := by
  have h1 := h.counts.permits
  have h2 := h.counts.written
  have h3 := h.posts.posted hstop
  simp only [hpc, hsem, OutputPc.held, OutputPc.released] at h1 h3
  have hidle : s.inputPc = .idle := by
    cases hi : s.inputPc with
    | idle => rfl
    | acquire input =>
        simp only [hi, InputPc.acquired, InputPc.unwritten, InputPc.unposted] at h1 h2 h3
        simp only [Fpga.inputStep, hi] at hin
        split at hin
        · omega
        · cases hin
    | push input => simp [Fpga.inputStep, hi] at hin
    | write input => simp [Fpga.inputStep, hi] at hin
    | release => simp [Fpga.inputStep, hi] at hin
    | increment => simp [Fpga.inputStep, hi] at hin
  simp only [hidle, InputPc.unwritten, InputPc.unposted] at h2 h3
  refine ⟨hidle, ?_⟩
  rw [calls_eq_take h.contents, Fpga.given, hidle, List.take_of_length_le (by omega)]
  exact (List.append_nil _).symm

-- Once the device has counted all that is written, the next poll finds its result.
theorem Reached.result_counted (h : Reached s) (hstop : s.isStop = false)
    (hcounted : s.counted = s.writes.length) {n : Nat} (hpc : s.outputPc = .poll n) :
    s.reg - s.startIndex - s.outputIndex > 0 := by
  have h1 := h.counts.permits
  have h2 := h.counts.written
  have h3 := h.posts.posted hstop
  have h4 := h.counts.outputIndex
  simp only [hpc, OutputPc.held, OutputPc.released, OutputPc.opened, Nat.sub_zero] at h1 h3 h4
  obtain ⟨d, hd, hd0, hd2⟩ : ∃ d, s.counted = d + s.calls.length ∧ 0 < d ∧ d ≤ 2 :=
    ⟨s.counted - s.calls.length, by omega, by omega, by omega⟩
  rw [Fpga.reg, h.counts.start, h4, UInt32.add_comm, UInt32.add_sub_cancel, hd, UInt32.ofNat_add,
    UInt32.add_sub_cancel]
  have hcases : d = 1 ∨ d = 2 := by omega
  rcases hcases with rfl | rfl
  · decide
  · decide

theorem outputPc_inputStep (hu : s.inputStep = some u) : u.outputPc = s.outputPc := by
  cases inputStep_rule hu <;> rfl

-- The output thread rests at its semaphore, or for good.
theorem outputPc_of_rest (h : s.outputStep = none) :
    s.outputPc = .acquire ∧ s.sem_input = 0 ∨ s.outputPc = .returned ∨ s.outputPc = .exited ∨
      s.outputPc = .undefined := by
  cases hpc : s.outputPc with
  | acquire =>
      simp only [Fpga.outputStep, hpc] at h
      split at h
      · rename_i hsem
        exact .inl ⟨rfl, hsem⟩
      · cases h
  | poll n =>
      simp only [Fpga.outputStep, hpc] at h
      split at h
      · cases h
      split at h
      · cases h
      split at h
      · cases h
      · cases h
  | pop =>
      simp only [Fpga.outputStep, hpc] at h
      split at h
      · cases h
      · cases h
  | loop => simp [Fpga.outputStep, hpc] at h
  | release outData input => simp [Fpga.outputStep, hpc] at h
  | call outData input => simp [Fpga.outputStep, hpc] at h
  | calling outData input => simp [Fpga.outputStep, hpc] at h
  | delete input => simp [Fpga.outputStep, hpc] at h
  | increment => simp [Fpga.outputStep, hpc] at h
  | returned => exact .inr (.inl rfl)
  | exited => exact .inr (.inr (.inl rfl))
  | undefined => exact .inr (.inr (.inr rfl))

-- A thread that runs rests at its semaphore only, or it has given up.
theorem Reached.rest (h : Reached s) (hstop : s.isStop = false) (hout : s.outputStep = none) :
    s.outputPc = .acquire ∧ s.sem_input = 0 ∨ s.outputPc = .exited := by
  rcases outputPc_of_rest hout with hpc | hpc | hpc | hpc
  · exact .inl hpc
  · have := h.posts.returned hpc
    rw [hstop] at this
    cases this
  · exact .inr hpc
  · exact absurd hpc h.fifo.defined

-- With every result counted the thread does not poll again.
theorem Reached.outputStep_keeps (h : Reached s) (hstop : s.isStop = false)
    (hcounted : s.counted = s.writes.length) (hpc : ¬ s.outputPc.GivenUp)
    (hu : s.outputStep = some u) : ¬ u.outputPc.GivenUp := by
  have keep : ∀ pc : OutputPc, pc ≠ .exited → pc ≠ .poll 99 → ¬ pc.GivenUp :=
    fun pc h1 h2 h3 => h3.elim h1 h2
  cases outputStep_rule hu with
  | loop pc before after =>
      rcases after with rfl | rfl
      · exact keep _ (by simp) (by simp)
      · exact keep _ (by simp) (by simp)
  | acquire before post => exact keep _ (by simp) (by simp)
  | wait n pc before after =>
      have hready := h.result_counted hstop hcounted before
      have hn : n + 1 ≠ 100 := by
        rintro hn
        exact hpc (.inr (by rw [before]; congr 1; omega))
      simp only [Fpga.outputStep, before, hstop, Bool.false_eq_true, if_false, hn, hready,
        if_true] at hu
      obtain rfl : OutputPc.pop = pc := congrArg Fpga.outputPc (Option.some.inj hu)
      exact keep _ (by simp) (by simp)
  | ready n before counted => exact keep _ (by simp) (by simp)
  | underflow before empty => exact keep _ (by simp) (by simp)
  | pop input rest before queue => exact keep _ (by simp) (by simp)
  | release outData input before => exact keep _ (by simp) (by simp)
  | call outData input before => exact keep _ (by simp) (by simp)
  | calling outData input before => exact keep _ (by simp) (by simp)
  | delete input before => exact keep _ (by simp) (by simp)
  | increment before => exact keep _ (by simp) (by simp)

-- The device goes first, then the thread that brings frames, then the one that waits for results.
theorem Reached.progress (h : Reached s) (hstop : s.isStop = false) (hpc : ¬ s.outputPc.GivenUp)
    (hd : ¬ s.Drained) :
    ∃ e u, FpgaEvent.Working e ∧ s.step e = some u ∧ ¬ u.outputPc.GivenUp := by
  by_cases hstore : s.stored < s.writes.length
  · exact ⟨.store, _, trivial, if_pos hstore, hpc⟩
  by_cases hcount : s.counted < s.stored
  · exact ⟨.count, _, trivial, if_pos hcount, hpc⟩
  cases hin : s.inputStep with
  | some u => exact ⟨.inputStep, u, trivial, hin, by rwa [outputPc_inputStep hin]⟩
  | none =>
      have hcounted : s.counted = s.writes.length := by
        have h1 := h.counts.counted
        have h2 := h.counts.stored
        omega
      cases hout : s.outputStep with
      | some u => exact ⟨.outputStep, u, trivial, hout, h.outputStep_keeps hstop hcounted hpc hout⟩
      | none =>
          rcases h.rest hstop hout with ⟨hacquire, hsem⟩ | hexited
          · exact absurd (h.drained hstop hin hacquire hsem) hd
          · exact absurd (.inl hexited) hpc

-- Whoever gives up holds a post, so the frame of that post is never called back.
theorem Reached.calls_lt (h : Reached s) (hstop : s.isStop = false) (hpc : s.outputPc.GivenUp) :
    s.calls.length < s.given.length := by
  have h2 := h.counts.written
  have h3 := h.posts.posted hstop
  rw [Fpga.given, List.length_append]
  rcases hpc with hpc | hpc
  · simp only [hpc, OutputPc.held] at h3
    omega
  · simp only [hpc, OutputPc.held] at h3
    omega

theorem givenUp_step {e : FpgaEvent} (hworking : e.Working) (hstop : s.isStop = false)
    (hpc : s.outputPc.GivenUp) (hu : s.step e = some u) : u.outputPc.GivenUp := by
  cases e with
  | input input => cases hworking
  | inputStep => rwa [outputPc_inputStep hu]
  | outputStep =>
      rcases hpc with hpc | hpc
      · simp [Fpga.step, Fpga.outputStep, hpc] at hu
      · simp only [Fpga.step, Fpga.outputStep, hpc, hstop, Bool.false_eq_true, if_false,
          if_true] at hu
        obtain rfl := Option.some.inj hu
        exact .inl rfl
  | store =>
      simp only [Fpga.step, Fpga.store] at hu
      split at hu
      · cases hu; exact hpc
      · cases hu
  | count =>
      simp only [Fpga.step, Fpga.count] at hu
      split at hu
      · cases hu; exact hpc
      · cases hu
  | stop => cases hworking

theorem givenUp_run {es : List FpgaEvent} (hes : ∀ e ∈ es, e.Working) (hstop : s.isStop = false)
    (hpc : s.outputPc.GivenUp) (hr : run Fpga.step s es = some u) : u.outputPc.GivenUp := by
  induction es generalizing s with
  | nil =>
      obtain rfl := Option.some.inj hr
      exact hpc
  | cons e es ih =>
      obtain ⟨t, ht, hr⟩ := Option.bind_eq_some_iff.mp hr
      have he := hes e List.mem_cons_self
      exact ih (fun d hd => hes d (List.mem_cons_of_mem e hd)) ((isStop_step he ht).trans hstop)
        (givenUp_step he hstop hpc ht) hr

end Reached

-- Without new frames the threads and the device come to rest, whatever their order, and they rest
-- only once every frame has had its callback in order, or once the output thread has given up.
theorem fpga_settles (para : FpgaPara) (regStart : UInt32)
    (hsize : para.outputSize.toNat < 536870912) (es fs : List FpgaEvent) (s u : Fpga)
    (hr : run Fpga.step (Fpga.initIndex para regStart) es = some s)
    (hworking : ∀ e ∈ fs, e.Working) (hu : run Fpga.step s fs = some u) :
    u.remaining + fs.length ≤ s.remaining ∧
      (s.isStop = false → (∀ e : FpgaEvent, e.Working → u.step e = none) →
        u.outputPc = .exited ∨ u.inputPc = .idle ∧ u.calls.map Prod.fst = s.given) := by
  obtain ⟨h, hlength⟩ := working_lowers.run (reached_run hsize hr) hworking hu
  obtain ⟨hgiven, hstopped⟩ := given_run hworking hu
  refine ⟨hlength, fun hstop hrest => ?_⟩
  have hstop := hstopped.trans hstop
  rcases h.rest hstop (hrest .outputStep trivial) with ⟨hacquire, hsem⟩ | hexited
  · rw [← hgiven]
    exact .inr (h.drained hstop (hrest .inputStep trivial) hacquire hsem)
  · exact .inl hexited

-- One frame, from its input up to the rest of both threads.
def restingEvents : List FpgaEvent :=
  List.replicate 5 .inputStep ++ [.store, .count] ++ List.replicate 10 .outputStep

def Fpga.rests (s : Fpga) : Bool :=
  s.inputStep.isNone && s.outputStep.isNone && s.store.isNone && s.count.isNone

theorem step_of_rests {s : Fpga} (h : s.rests = true) (e : FpgaEvent) (he : e.Working) :
    s.step e = none := by
  simp only [Fpga.rests, Bool.and_eq_true, Option.isNone_iff_eq_none] at h
  obtain ⟨⟨⟨hin, hout⟩, hstore⟩, hcount⟩ := h
  cases e with
  | input input => cases he
  | inputStep => exact hin
  | outputStep => exact hout
  | store => exact hstore
  | count => exact hcount
  | stop => cases he

theorem fpga_settles_frame :
    ∃ s u, run Fpga.step (Fpga.initIndex samplePara 0xFFFFFFFF) [.input sampleFrame] = some s ∧
      run Fpga.step s restingEvents = some u ∧
      (u.outputPc = .exited ∨ u.inputPc = .idle ∧ u.calls.map Prod.fst = s.given) := by
  have hs : (run Fpga.step (Fpga.initIndex samplePara 0xFFFFFFFF) [.input sampleFrame]).isSome =
      true := by
    decide +kernel
  obtain ⟨s, hr⟩ := Option.isSome_iff_exists.mp hs
  have hu : ((run Fpga.step (Fpga.initIndex samplePara 0xFFFFFFFF) [.input sampleFrame]).bind
      fun s => run Fpga.step s restingEvents).any (fun u => u.rests && !u.isStop) = true := by
    decide +kernel
  rw [hr, Option.bind_some, Option.any_eq_true] at hu
  obtain ⟨u, hu, hrests⟩ := hu
  rw [Bool.and_eq_true, Bool.not_eq_true'] at hrests
  have hworking : ∀ e ∈ restingEvents, e.Working := by
    simp [restingEvents, FpgaEvent.Working]
  exact ⟨s, u, hr, hu, (fpga_settles samplePara 0xFFFFFFFF (by decide) _ _ s u hr hworking hu).2
    ((given_run hworking hu).2.symm.trans hrests.2) (step_of_rests hrests.1)⟩

-- As long as no poll has timed out, every frame given so far can still get its callback.
theorem fpga_drains_iff (para : FpgaPara) (regStart : UInt32)
    (hsize : para.outputSize.toNat < 536870912) (es : List FpgaEvent) (s : Fpga)
    (hr : run Fpga.step (Fpga.initIndex para regStart) es = some s) (hstop : s.isStop = false) :
    (∃ fs u, (∀ e ∈ fs, FpgaEvent.Working e) ∧ run Fpga.step s fs = some u ∧
        u.inputPc = .idle ∧ u.calls.map Prod.fst = s.given) ↔
      s.outputPc ≠ .exited ∧ s.outputPc ≠ .poll 99 := by
  rw [← not_or]
  have hs := reached_run hsize hr
  constructor
  · rintro ⟨fs, u, hworking, hu, -, hcalls⟩ hpc
    obtain ⟨h, -⟩ := working_lowers.run hs hworking hu
    obtain ⟨hgiven, hstopped⟩ := given_run hworking hu
    have hlt := h.calls_lt (hstopped.trans hstop) (givenUp_run hworking hstop hpc hu)
    rw [hgiven, ← hcalls, List.length_map] at hlt
    exact absurd hlt (Nat.lt_irrefl _)
  · intro hpc
    have hprogress : ∀ t : Fpga, (Reached t ∧ t.isStop = false ∧ ¬ t.outputPc.GivenUp) →
        ¬ t.Drained → ∃ e u, FpgaEvent.Working e ∧ t.step e = some u ∧
          (Reached u ∧ u.isStop = false ∧ ¬ u.outputPc.GivenUp) ∧ u.remaining < t.remaining := by
      rintro t ⟨ht, htstop, htpc⟩ hd
      obtain ⟨e, u, he, hu, hupc⟩ := ht.progress htstop htpc hd
      obtain ⟨hui, hlt⟩ := working_lowers t e u ht he hu
      exact ⟨e, u, he, hu, ⟨hui, (isStop_step he hu).trans htstop, hupc⟩, hlt⟩
    obtain ⟨fs, u, hworking, hu, -, hidle, hcalls⟩ :=
      exists_run_of_progress hprogress ⟨hs, hstop, hpc⟩
    exact ⟨fs, u, hworking, hu, hidle, by rw [hcalls, (given_run hworking hu).1]⟩

-- A frame that is waiting for its permit, with a counter that is about to wrap.
theorem fpga_drains_iff_waiting :
    ∃ s, run Fpga.step (Fpga.initIndex samplePara 0xFFFFFFFF) [.input sampleFrame] = some s ∧
      ∃ fs u, (∀ e ∈ fs, FpgaEvent.Working e) ∧ run Fpga.step s fs = some u ∧
        u.inputPc = .idle ∧ u.calls.map Prod.fst = s.given :=
  ⟨_, rfl, (fpga_drains_iff samplePara 0xFFFFFFFF (by decide) [.input sampleFrame] _ rfl rfl).mpr
    ⟨nofun, nofun⟩⟩

end Vcu
