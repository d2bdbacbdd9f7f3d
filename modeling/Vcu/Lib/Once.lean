import Vcu.Lib.Machine

-- Functions with static locals: the first call computes them and every later call uses them again.
namespace Once

open Machine

variable {α β : Type*}

structure State (α β : Type*) where
  cache : Option β := none
  calls : List (α × β) := []
  deriving DecidableEq

def step (own : α → Option β) (s : State α β) (x : α) : Option (State α β) :=
  (s.cache.or (own x)).map fun b => { cache := some b, calls := s.calls ++ [(x, b)] }

-- Every call works with what its own argument gives.
def Faithful (own : α → Option β) (xs : List α) : Prop :=
  ∃ t, run (step own) {} xs = some t ∧ ∀ c ∈ t.calls, own c.1 = some c.2

variable {own : α → Option β}

theorem run_cached (b : β) (calls : List (α × β)) (xs : List α) :
    run (step own) { cache := some b, calls := calls } xs =
      some { cache := some b, calls := calls ++ xs.map fun x => (x, b) } := by
  induction xs generalizing calls with
  | nil => rw [run_nil, List.map_nil, List.append_nil]
  | cons x xs ih =>
      have hstep : step own { cache := some b, calls := calls } x =
          some { cache := some b, calls := calls ++ [(x, b)] } := rfl
      rw [run_cons, hstep, Option.bind_some, ih, List.append_assoc]
      rfl

-- The calls are history independent exactly if all arguments give the same.
theorem faithful_iff (xs : List α) :
    Faithful own xs ↔ ∀ x ∈ xs, (own x).isSome ∧ ∀ y ∈ xs, own y = own x := by
  cases xs with
  | nil => exact iff_of_true ⟨_, rfl, nofun⟩ nofun
  | cons x xs =>
      have hfirst : run (step own) {} (x :: xs) =
          (own x).map fun b => { cache := some b, calls := (x :: xs).map fun y => (y, b) } := by
        rw [run_cons, step, Option.none_or]
        cases own x with
        | none => rfl
        | some b => exact run_cached b _ xs
      constructor
      · rintro ⟨t, ht, hcalls⟩
        rw [hfirst] at ht
        obtain ⟨b, hb, rfl⟩ := Option.map_eq_some_iff.mp ht
        have hown : ∀ y ∈ x :: xs, own y = some b :=
          fun y hy => hcalls (y, b) (List.mem_map_of_mem (f := fun y => (y, b)) hy)
        intro y hy
        rw [hown y hy]
        exact ⟨rfl, hown⟩
      · intro h
        obtain ⟨hsome, hsame⟩ := h x List.mem_cons_self
        obtain ⟨b, hb⟩ := Option.isSome_iff_exists.mp hsome
        refine ⟨_, by rw [hfirst, hb, Option.map_some], ?_⟩
        intro c hc
        obtain ⟨y, hy, rfl⟩ := List.mem_map.mp hc
        rw [← hb]
        exact hsame y hy

end Once
