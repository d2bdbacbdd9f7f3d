import Mathlib.Logic.Basic

-- Loops whose rounds are given by a function. The result `none` means that the loop is over.
namespace Loop

variable {σ τ α : Type*} {step : σ → Option σ} {s t u : σ}

def rounds (step : σ → Option σ) : Nat → σ → Option σ
  | 0, s => some s
  | n + 1, s => (step s).bind (rounds step n)

def Ends (step : σ → Option σ) (s : σ) : Prop := ∃ n, rounds step n s = none

theorem ends_of_none (h : step s = none) : Ends step s := by
  refine ⟨1, ?_⟩
  rw [rounds, h, Option.bind_none]

theorem ends_iff_of_step (h : step s = some t) : Ends step s ↔ Ends step t := by
  constructor
  · rintro ⟨n, hn⟩
    cases n with
    | zero => cases hn
    | succ n =>
        rw [rounds, h, Option.bind_some] at hn
        exact ⟨n, hn⟩
  · rintro ⟨n, hn⟩
    refine ⟨n + 1, ?_⟩
    rw [rounds, h, Option.bind_some]
    exact hn

-- A loop that starts in `s` is over in `t`.
def Exits (step : σ → Option σ) (s t : σ) : Prop := (∃ n, rounds step n s = some t) ∧ step t = none

theorem Exits.of_none (h : step s = none) : Exits step s s := ⟨⟨0, rfl⟩, h⟩

theorem Exits.of_step (h : step s = some u) (hu : Exits step u t) : Exits step s t := by
  obtain ⟨⟨n, hn⟩, ht⟩ := hu
  refine ⟨⟨n + 1, ?_⟩, ht⟩
  rw [rounds, h, Option.bind_some, hn]

theorem Exits.unique (h : Exits step s t) (h' : Exits step s u) : t = u := by
  obtain ⟨⟨n, hn⟩, ht⟩ := h
  obtain ⟨⟨m, hm⟩, hu⟩ := h'
  induction n generalizing s m with
  | zero =>
      cases hn
      cases m with
      | zero => exact Option.some.inj hm
      | succ m =>
          rw [rounds, ht] at hm
          cases hm
  | succ n ih =>
      rw [rounds] at hn
      obtain ⟨v, hv, hn⟩ := Option.bind_eq_some_iff.mp hn
      cases m with
      | zero =>
          cases hm
          rw [hu] at hv
          cases hv
      | succ m =>
          rw [rounds, hv, Option.bind_some] at hm
          exact ih hn m hm

-- An invariant, and a measure that every round lowers.
theorem exists_exits (inv : σ → Prop) (measure : σ → Nat)
    (hstep : ∀ s t, inv s → step s = some t → inv t ∧ measure t < measure s) (h : inv s) :
    ∃ t, Exits step s t ∧ inv t := by
  generalize hn : measure s = n
  induction n using Nat.strongRecOn generalizing s with
  | ind n ih =>
      cases hs : step s with
      | none => exact ⟨s, .of_none hs, h⟩
      | some u =>
          obtain ⟨hu, hlt⟩ := hstep s u h hs
          obtain ⟨t, ht, hinv⟩ := ih (measure u) (hn ▸ hlt) hu rfl
          exact ⟨t, .of_step hs ht, hinv⟩

-- A property that every round keeps and that keeps the loop going.
theorem not_ends_of_invariant (inv : σ → Prop) (hstep : ∀ s, inv s → ∃ t, step s = some t ∧ inv t)
    (h : inv s) : ¬ Ends step s := by
  rintro ⟨n, hn⟩
  induction n generalizing s with
  | zero => cases hn
  | succ n ih =>
      obtain ⟨t, ht, hinv⟩ := hstep s h
      rw [rounds, ht, Option.bind_some] at hn
      exact ih hinv hn

theorem rounds_add (m n : Nat) (s : σ) : rounds step (m + n) s = (rounds step m s).bind (rounds step n) := by
  induction m generalizing s with
  | zero =>
      rw [Nat.zero_add]
      rfl
  | succ m ih =>
      rw [Nat.succ_add, rounds, rounds]
      cases step s with
      | none => rfl
      | some t => exact ih t

theorem rounds_succ_of_step (h : step s = some t) (n : Nat) : rounds step (n + 1) s = rounds step n t := by
  rw [rounds, h, Option.bind_some]

-- Two loops that walk side by side look the same at every round.
theorem map_rounds_eq {step' : τ → Option τ} {f : σ → α} {g : τ → α} (R : σ → τ → Prop)
    (hR : ∀ s t, R s t → f s = g t) (hstep : ∀ s t, R s t → Option.Rel R (step s) (step' t)) {t : τ}
    (h : R s t) (n : Nat) : (rounds step n s).map f = (rounds step' n t).map g := by
  induction n generalizing s t with
  | zero => exact congrArg some (hR s t h)
  | succ n ih =>
      have hrel := hstep s t h
      rw [rounds, rounds]
      generalize step s = next at hrel ⊢
      generalize step' t = next' at hrel ⊢
      cases hrel with
      | none => rfl
      | some h => exact ih h

end Loop
