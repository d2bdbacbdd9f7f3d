import Vcu.Fpga.Control

namespace Vcu

-- What the position of a thread adds to its counters. Each of these is 0 or 1.
namespace InputPc

-- A permit taken for a frame that is not in the queue yet.
def acquired : InputPc → Nat
  | .push _ => 1
  | _ => 0

-- A frame in the queue that the device has not got yet.
def unwritten : InputPc → Nat
  | .write _ => 1
  | _ => 0

-- A frame written that has not been posted yet.
def unposted : InputPc → Nat
  | .release => 1
  | _ => 0

end InputPc

namespace OutputPc

-- A post taken for a callback that has not begun.
def taken : OutputPc → Nat
  | .poll _ => 1
  | .pop => 1
  | .release _ _ => 1
  | .call _ _ => 1
  | _ => 0

-- A result known to be counted whose callback has not begun.
def ready : OutputPc → Nat
  | .pop => 1
  | .release _ _ => 1
  | .call _ _ => 1
  | _ => 0

-- A frame taken from the queue whose callback has not begun.
def popped : OutputPc → Nat
  | .release _ _ => 1
  | .call _ _ => 1
  | _ => 0

-- A permit given back for a callback that has not begun.
def released : OutputPc → Nat
  | .call _ _ => 1
  | _ => 0

-- A callback begun that outputIndex does not count yet.
def opened : OutputPc → Nat
  | .calling _ _ => 1
  | .delete _ => 1
  | .increment => 1
  | _ => 0

end OutputPc

-- What a step of the input thread can do.
inductive InputRule (s : Fpga) : Fpga → Prop where
  | acquire (input : FPGAInput) (before : s.inputPc = .acquire input) (permit : 0 < s.semInput) :
      InputRule s { s with semInput := s.semInput - 1, inputPc := .push input }
  | push (input : FPGAInput) (before : s.inputPc = .push input) :
      InputRule s { s with
        queInput := s.queInput ++ [input]
        submitted := s.submitted ++ [input]
        inputPc := .write input }
  | write (input : FPGAInput) (before : s.inputPc = .write input) :
      InputRule s { s with writes := s.writes ++ [(s.inputAddress, input)], inputPc := .release }
  | release (before : s.inputPc = .release) :
      InputRule s { s with sem_input := s.sem_input + 1, inputPc := .increment }
  | increment (before : s.inputPc = .increment) :
      InputRule s { s with inputIndex := s.inputIndex + 1, inputPc := .idle }

-- What a step of the output thread can do. A poll that finds no result goes on or gives up.
inductive OutputRule (s : Fpga) : Fpga → Prop where
  | loop (pc : OutputPc) (before : s.outputPc = .loop) (after : pc = .returned ∨ pc = .acquire) :
      OutputRule s { s with outputPc := pc }
  | acquire (before : s.outputPc = .acquire) (post : 0 < s.sem_input) :
      OutputRule s { s with sem_input := s.sem_input - 1, outputPc := .poll 0 }
  | wait (n : Nat) (pc : OutputPc) (before : s.outputPc = .poll n)
      (after : pc = .returned ∨ pc = .exited ∨ pc = .poll (n + 1)) :
      OutputRule s { s with outputPc := pc }
  | ready (n : Nat) (before : s.outputPc = .poll n)
      (counted : s.reg - s.startIndex - s.outputIndex > 0) :
      OutputRule s { s with outputPc := .pop }
  | underflow (before : s.outputPc = .pop) (empty : s.queInput = []) :
      OutputRule s { s with outputPc := .undefined }
  | pop (input : FPGAInput) (rest : List FPGAInput) (before : s.outputPc = .pop)
      (queue : s.queInput = input :: rest) :
      OutputRule s { s with queInput := rest, outputPc := .release s.outputAddress input }
  | release (outData : UInt64) (input : FPGAInput) (before : s.outputPc = .release outData input) :
      OutputRule s { s with semInput := s.semInput + 1, outputPc := .call outData input }
  | call (outData : UInt64) (input : FPGAInput) (before : s.outputPc = .call outData input) :
      OutputRule s { s with
        calls := s.calls ++ [(input, outData)]
        outputPc := .calling outData input }
  | calling (outData : UInt64) (input : FPGAInput) (before : s.outputPc = .calling outData input) :
      OutputRule s { s with outputPc := .delete input }
  | delete (input : FPGAInput) (before : s.outputPc = .delete input) :
      OutputRule s { s with outputPc := .increment }
  | increment (before : s.outputPc = .increment) :
      OutputRule s { s with outputIndex := s.outputIndex + 1, outputPc := .loop }

section Rules

variable {s u : Fpga}

theorem inputStep_rule (hu : s.inputStep = some u) : InputRule s u := by
  cases hpc : s.inputPc with
  | idle => simp [Fpga.inputStep, hpc] at hu
  | acquire input =>
      simp only [Fpga.inputStep, hpc] at hu
      split at hu
      · cases hu
      rename_i hsem
      obtain rfl := Option.some.inj hu
      exact .acquire input hpc (Nat.pos_of_ne_zero hsem)
  | push input =>
      simp only [Fpga.inputStep, hpc] at hu
      obtain rfl := Option.some.inj hu
      exact .push input hpc
  | write input =>
      simp only [Fpga.inputStep, hpc] at hu
      obtain rfl := Option.some.inj hu
      exact .write input hpc
  | release =>
      simp only [Fpga.inputStep, hpc] at hu
      obtain rfl := Option.some.inj hu
      exact .release hpc
  | increment =>
      simp only [Fpga.inputStep, hpc] at hu
      obtain rfl := Option.some.inj hu
      exact .increment hpc

theorem outputStep_rule (hu : s.outputStep = some u) : OutputRule s u := by
  cases hpc : s.outputPc with
  | loop =>
      simp only [Fpga.outputStep, hpc] at hu
      obtain rfl := Option.some.inj hu
      refine .loop _ hpc ?_
      split
      · exact .inl rfl
      · exact .inr rfl
  | acquire =>
      simp only [Fpga.outputStep, hpc] at hu
      split at hu
      · cases hu
      rename_i hsem
      obtain rfl := Option.some.inj hu
      exact .acquire hpc (Nat.pos_of_ne_zero hsem)
  | poll n =>
      simp only [Fpga.outputStep, hpc] at hu
      split at hu
      · obtain rfl := Option.some.inj hu
        exact .wait n _ hpc (.inl rfl)
      split at hu
      · obtain rfl := Option.some.inj hu
        exact .wait n _ hpc (.inr (.inl rfl))
      split at hu
      · rename_i hreg
        obtain rfl := Option.some.inj hu
        exact .ready n hpc hreg
      · obtain rfl := Option.some.inj hu
        exact .wait n _ hpc (.inr (.inr rfl))
  | pop =>
      simp only [Fpga.outputStep, hpc] at hu
      split at hu
      · rename_i hq
        obtain rfl := Option.some.inj hu
        exact .underflow hpc hq
      · rename_i input rest hq
        obtain rfl := Option.some.inj hu
        exact .pop input rest hpc hq
  | release outData input =>
      simp only [Fpga.outputStep, hpc] at hu
      obtain rfl := Option.some.inj hu
      exact .release outData input hpc
  | call outData input =>
      simp only [Fpga.outputStep, hpc] at hu
      obtain rfl := Option.some.inj hu
      exact .call outData input hpc
  | calling outData input =>
      simp only [Fpga.outputStep, hpc] at hu
      obtain rfl := Option.some.inj hu
      exact .calling outData input hpc
  | delete input =>
      simp only [Fpga.outputStep, hpc] at hu
      obtain rfl := Option.some.inj hu
      exact .delete input hpc
  | increment =>
      simp only [Fpga.outputStep, hpc] at hu
      obtain rfl := Option.some.inj hu
      exact .increment hpc
  | returned => simp [Fpga.outputStep, hpc] at hu
  | exited => simp [Fpga.outputStep, hpc] at hu
  | undefined => simp [Fpga.outputStep, hpc] at hu

end Rules

-- The accounts of permits, frames and posts, whatever the device does. Two permits go round, every
-- frame in the queue but the last one is with the device, and posts stay behind the frames.
structure Flow (s : Fpga) : Prop where
  permits : s.semInput + s.submitted.length + s.inputPc.acquired =
    2 + s.calls.length + s.outputPc.released
  written : s.writes.length + s.inputPc.unwritten = s.submitted.length
  posted : s.sem_input + s.calls.length + s.outputPc.taken + s.inputPc.unposted ≤ s.writes.length

section Flow

variable {s u : Fpga}

theorem flow_init (para : FpgaPara) (regStart : UInt32) : Flow (Fpga.initIndex para regStart) :=
  ⟨rfl, rfl, Nat.le_refl 0⟩

theorem Flow.input {input : FPGAInput} (h : Flow s) (hu : s.step (.input input) = some u) :
    Flow u := by
  simp only [Fpga.step] at hu
  split at hu
  · rename_i hpc
    obtain rfl := Option.some.inj hu
    obtain ⟨h1, h2, h3⟩ := h
    simp only [hpc, InputPc.acquired, InputPc.unwritten, InputPc.unposted] at *
    exact ⟨h1, h2, h3⟩
  · cases hu

theorem Flow.inputStep (h : Flow s) (hu : s.inputStep = some u) : Flow u := by
  obtain ⟨h1, h2, h3⟩ := h
  cases inputStep_rule hu with
  | acquire input before permit =>
      simp only [before, InputPc.acquired, InputPc.unwritten, InputPc.unposted] at *
      refine ⟨?_, h2, h3⟩
      simp only [InputPc.acquired]
      omega
  | push input before =>
      simp only [before, InputPc.acquired, InputPc.unwritten, InputPc.unposted] at *
      refine ⟨?_, ?_, h3⟩
      · simp only [List.length_append, List.length_singleton, InputPc.acquired]
        omega
      · simp only [List.length_append, List.length_singleton, InputPc.unwritten]
        omega
  | write input before =>
      simp only [before, InputPc.acquired, InputPc.unwritten, InputPc.unposted] at *
      refine ⟨h1, ?_, ?_⟩
      · simp only [List.length_append, List.length_singleton, InputPc.unwritten]
        omega
      · simp only [List.length_append, List.length_singleton, InputPc.unposted]
        omega
  | release before =>
      simp only [before, InputPc.acquired, InputPc.unwritten, InputPc.unposted] at *
      refine ⟨h1, h2, ?_⟩
      simp only [InputPc.unposted]
      omega
  | increment before =>
      simp only [before, InputPc.acquired, InputPc.unwritten, InputPc.unposted] at *
      exact ⟨h1, h2, h3⟩

theorem Flow.outputStep (h : Flow s) (hu : s.outputStep = some u) : Flow u := by
  obtain ⟨h1, h2, h3⟩ := h
  cases outputStep_rule hu with
  | loop pc before after =>
      simp only [before, OutputPc.taken, OutputPc.released] at *
      rcases after with rfl | rfl
      · exact ⟨h1, h2, h3⟩
      · exact ⟨h1, h2, h3⟩
  | acquire before post =>
      simp only [before, OutputPc.taken, OutputPc.released] at *
      refine ⟨h1, h2, ?_⟩
      simp only [OutputPc.taken]
      omega
  | wait n pc before after =>
      simp only [before, OutputPc.taken, OutputPc.released] at *
      have hless : s.sem_input + s.calls.length + 0 + s.inputPc.unposted ≤ s.writes.length := by
        omega
      rcases after with rfl | rfl | rfl
      · exact ⟨h1, h2, hless⟩
      · exact ⟨h1, h2, hless⟩
      · exact ⟨h1, h2, h3⟩
  | ready n before counted =>
      simp only [before, OutputPc.taken, OutputPc.released] at *
      exact ⟨h1, h2, h3⟩
  | underflow before empty =>
      simp only [before, OutputPc.taken, OutputPc.released] at *
      refine ⟨h1, h2, ?_⟩
      simp only [OutputPc.taken]
      omega
  | pop input rest before queue =>
      simp only [before, OutputPc.taken, OutputPc.released] at *
      exact ⟨h1, h2, h3⟩
  | release outData input before =>
      simp only [before, OutputPc.taken, OutputPc.released] at *
      refine ⟨?_, h2, h3⟩
      simp only [OutputPc.released]
      omega
  | call outData input before =>
      simp only [before, OutputPc.taken, OutputPc.released] at *
      refine ⟨?_, h2, ?_⟩
      · simp only [List.length_append, List.length_singleton, OutputPc.released]
        omega
      · simp only [List.length_append, List.length_singleton, OutputPc.taken]
        omega
  | calling outData input before =>
      simp only [before, OutputPc.taken, OutputPc.released] at *
      exact ⟨h1, h2, h3⟩
  | delete input before =>
      simp only [before, OutputPc.taken, OutputPc.released] at *
      exact ⟨h1, h2, h3⟩
  | increment before =>
      simp only [before, OutputPc.taken, OutputPc.released] at *
      exact ⟨h1, h2, h3⟩

-- A frame is left for whoever holds a post.
theorem Flow.frame_left (h : Flow s) (hpc : s.outputPc = .pop) :
    s.calls.length < s.submitted.length := by
  obtain ⟨-, h2, h3⟩ := h
  simp only [hpc, OutputPc.taken] at h3
  omega

theorem popped_le_taken (pc : OutputPc) : pc.popped ≤ pc.taken := by
  cases pc <;> simp [OutputPc.popped, OutputPc.taken]

theorem Flow.popped_le (h : Flow s) : s.calls.length + s.outputPc.popped ≤ s.submitted.length := by
  obtain ⟨-, h2, h3⟩ := h
  have := popped_le_taken s.outputPc
  omega

end Flow

-- What the queue holds is what has been submitted and not popped, and the device gets the frames in
-- the order of the queue.
structure Fifo (s : Fpga) : Prop where
  queue : s.queInput = s.submitted.drop (s.calls.length + s.outputPc.popped)
  frames : s.writes.map Prod.snd = s.submitted.take s.writes.length
  writing : ∀ input, s.inputPc = .write input → s.submitted[s.writes.length]? = some input
  defined : s.outputPc ≠ .undefined

section Fifo

variable {s u : Fpga}

theorem fifo_init (para : FpgaPara) (regStart : UInt32) : Fifo (Fpga.initIndex para regStart) := by
  constructor <;> simp [Fpga.initIndex]

theorem Fifo.input {input : FPGAInput} (h : Fifo s) (hu : s.step (.input input) = some u) :
    Fifo u := by
  simp only [Fpga.step] at hu
  split at hu
  · obtain rfl := Option.some.inj hu
    exact ⟨h.queue, h.frames, nofun, h.defined⟩
  · cases hu

theorem Fifo.inputStep (h : Fifo s) (hf : Flow s) (hu : s.inputStep = some u) : Fifo u := by
  cases inputStep_rule hu with
  | acquire input before permit => exact ⟨h.queue, h.frames, nofun, h.defined⟩
  | push input before =>
      have hwritten : s.writes.length = s.submitted.length := by
        have h2 := hf.written
        rwa [before] at h2
      refine ⟨?_, ?_, ?_, h.defined⟩
      · show s.queInput ++ [input] = (s.submitted ++ [input]).drop _
        rw [List.drop_append_of_le_length hf.popped_le, h.queue]
      · show s.writes.map Prod.snd = (s.submitted ++ [input]).take s.writes.length
        rw [List.take_append_of_le_length (Nat.le_of_eq hwritten), h.frames]
      · rintro i ⟨⟩
        show (s.submitted ++ [input])[s.writes.length]? = some input
        rw [hwritten, List.getElem?_concat_length]
  | write input before =>
      have hlast := h.writing input before
      refine ⟨h.queue, ?_, nofun, h.defined⟩
      show (s.writes ++ [(s.inputAddress, input)]).map Prod.snd = s.submitted.take _
      rw [List.map_append, h.frames, List.length_append, List.length_singleton, List.take_add_one,
        hlast]
      rfl
  | release before => exact ⟨h.queue, h.frames, nofun, h.defined⟩
  | increment before => exact ⟨h.queue, h.frames, nofun, h.defined⟩

-- A step of the output thread that moves nothing but its position.
theorem Fifo.move (h : Fifo s) (pc : OutputPc) (hp : pc.popped = s.outputPc.popped)
    (hd : pc ≠ .undefined) : Fifo { s with outputPc := pc } := by
  refine ⟨?_, h.frames, h.writing, hd⟩
  rw [h.queue]
  simp only [hp]

-- At every pop a frame is waiting.
theorem Fifo.pop_nonempty (h : Fifo s) (hf : Flow s) (hpc : s.outputPc = .pop) :
    ∃ input rest, s.queInput = input :: rest ∧ s.submitted[s.calls.length]? = some input ∧
      rest = s.submitted.drop (s.calls.length + 1) := by
  have hlt := hf.frame_left hpc
  have hq := h.queue
  simp only [hpc, OutputPc.popped] at hq
  rw [Nat.add_zero, List.drop_eq_getElem_cons hlt] at hq
  exact ⟨_, _, hq, List.getElem?_eq_getElem hlt, rfl⟩

theorem Fifo.outputStep (h : Fifo s) (hf : Flow s) (hu : s.outputStep = some u) : Fifo u := by
  cases outputStep_rule hu with
  | loop pc before after =>
      rcases after with rfl | rfl
      · exact h.move _ (by rw [before]; rfl) nofun
      · exact h.move _ (by rw [before]; rfl) nofun
  | acquire before post =>
      have hm := h.move (.poll 0) (by rw [before]; rfl) nofun
      exact ⟨hm.queue, hm.frames, hm.writing, hm.defined⟩
  | wait n pc before after =>
      rcases after with rfl | rfl | rfl
      · exact h.move _ (by rw [before]; rfl) nofun
      · exact h.move _ (by rw [before]; rfl) nofun
      · exact h.move _ (by rw [before]; rfl) nofun
  | ready n before counted => exact h.move _ (by rw [before]; rfl) nofun
  | underflow before empty =>
      obtain ⟨input, rest, hq, -⟩ := h.pop_nonempty hf before
      rw [empty] at hq
      cases hq
  | pop input rest before queue =>
      obtain ⟨input', rest', hq, -, hrest⟩ := h.pop_nonempty hf before
      obtain ⟨rfl, rfl⟩ := List.cons.inj (queue.symm.trans hq)
      exact ⟨hrest, h.frames, h.writing, nofun⟩
  | release outData input before =>
      have hm := h.move (.call outData input) (by rw [before]; rfl) nofun
      exact ⟨hm.queue, hm.frames, hm.writing, hm.defined⟩
  | call outData input before =>
      refine ⟨?_, h.frames, h.writing, nofun⟩
      show s.queInput = s.submitted.drop ((s.calls ++ [(input, outData)]).length + 0)
      have hq := h.queue
      rw [before] at hq
      rw [hq, List.length_append, List.length_singleton]
      rfl
  | calling outData input before => exact h.move _ (by rw [before]; rfl) nofun
  | delete input before => exact h.move _ (by rw [before]; rfl) nofun
  | increment before =>
      have hm := h.move .loop (by rw [before]; rfl) nofun
      exact ⟨hm.queue, hm.frames, hm.writing, hm.defined⟩

end Fifo

end Vcu
