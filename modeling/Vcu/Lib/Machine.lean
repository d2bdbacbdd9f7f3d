import Mathlib.Data.List.Induction

namespace Machine

variable {σ ε : Type*}

-- A machine is a partial step function. The result `none` means that the event
-- cannot happen in that state.
def run (step : σ → ε → Option σ) : σ → List ε → Option σ
  | s, [] => some s
  | s, e :: es => (step s e).bind fun t => run step t es

@[simp] theorem run_nil (step : σ → ε → Option σ) (s : σ) : run step s [] = some s := rfl

@[simp] theorem run_cons (step : σ → ε → Option σ) (s : σ) (e : ε) (es : List ε) :
    run step s (e :: es) = (step s e).bind fun t => run step t es := rfl

theorem run_append (step : σ → ε → Option σ) (s : σ) (es fs : List ε) :
    run step s (es ++ fs) = (run step s es).bind fun t => run step t fs := by
  induction es generalizing s with
  | nil => rfl
  | cons e es ih =>
      simp only [List.cons_append, run_cons]
      cases step s e with
      | none => rfl
      | some t => exact ih t

theorem run_concat (step : σ → ε → Option σ) (s : σ) (es : List ε) (e : ε) :
    run step s (es ++ [e]) = (run step s es).bind fun t => step t e := by
  rw [run_append]
  cases run step s es with
  | none => rfl
  | some t => simp

theorem run_concat_eq_some {step : σ → ε → Option σ} {s u : σ} {es : List ε} {e : ε}
    (h : run step s (es ++ [e]) = some u) :
    ∃ t, run step s es = some t ∧ step t e = some u := by
  rw [run_concat] at h
  exact Option.bind_eq_some_iff.mp h

-- Events that the machine ignores may be left out.
theorem run_ite (step : σ → ε → Option σ) (p : ε → Bool) (s : σ) (es : List ε) :
    run (fun s e => if p e then step s e else some s) s es = run step s (es.filter p) := by
  induction es generalizing s with
  | nil => rfl
  | cons e es ih =>
      rw [run_cons, List.filter_cons]
      cases p e with
      | true =>
          rw [if_pos rfl, if_pos rfl, run_cons]
          cases step s e with
          | none => rfl
          | some t => exact ih t
      | false => exact ih s

theorem step_of_run {step : σ → ε → Option σ} {s t u : σ} {before after : List ε} {e : ε}
    (hr : run step s (before ++ e :: after) = some u) (ht : run step s before = some t) :
    ∃ v, step t e = some v := by
  rw [run_append, ht, Option.bind_some, run_cons] at hr
  obtain ⟨v, hv, -⟩ := Option.bind_eq_some_iff.mp hr
  exact ⟨v, hv⟩

-- A guard may look at the events so far, at the state before the step and at the event.
-- A run keeps a guard when every one of its steps meets it.
def Along (step : σ → ε → Option σ) (guard : List ε → σ → ε → Prop) (s : σ) (es : List ε) : Prop :=
  ∀ before e after t, es = before ++ e :: after → run step s before = some t → guard before t e

theorem Along.of_append {step : σ → ε → Option σ} {guard : List ε → σ → ε → Prop} {s : σ}
    {es fs : List ε} (h : Along step guard s (es ++ fs)) : Along step guard s es := by
  intro before e after t he ht
  exact h before e (after ++ fs) t (by rw [he, List.append_assoc, List.cons_append]) ht

theorem Along.last {step : σ → ε → Option σ} {guard : List ε → σ → ε → Prop} {s t : σ}
    {es : List ε} {e : ε} (h : Along step guard s (es ++ [e])) (ht : run step s es = some t) :
    guard es t e :=
  h es e [] t rfl ht

theorem along_nil {step : σ → ε → Option σ} {guard : List ε → σ → ε → Prop} {s : σ} :
    Along step guard s [] := by
  intro before e after t he
  simp at he

theorem along_cons {step : σ → ε → Option σ} {guard : List ε → σ → ε → Prop} {s : σ} {e : ε}
    {es : List ε} :
    Along step guard s (e :: es) ↔
      guard [] s e ∧ ∀ t, step s e = some t → Along step (fun before => guard (e :: before)) t es := by
  constructor
  · intro h
    refine ⟨h [] e es s rfl rfl, ?_⟩
    rintro t ht before d after u rfl hu
    exact h (e :: before) d after u rfl (by rw [run_cons, ht]; exact hu)
  · rintro ⟨he, h⟩ before d after u heq hu
    cases before with
    | nil =>
        obtain ⟨rfl, rfl⟩ := List.cons.inj heq
        obtain rfl := Option.some.inj hu
        exact he
    | cons c before =>
        obtain ⟨rfl, rfl⟩ := List.cons.inj heq
        obtain ⟨t, ht, hrun⟩ := Option.bind_eq_some_iff.mp hu
        exact h t ht before d after u rfl hrun

theorem along_concat {step : σ → ε → Option σ} {guard : List ε → σ → ε → Prop} {s : σ} {es : List ε}
    {e : ε} :
    Along step guard s (es ++ [e]) ↔
      Along step guard s es ∧ ∀ t, run step s es = some t → guard es t e := by
  constructor
  · intro h
    exact ⟨h.of_append, fun t ht => h.last ht⟩
  · rintro ⟨hes, he⟩ before d after t heq ht
    induction after using List.reverseRecOn with
    | nil =>
        obtain ⟨rfl, hd⟩ := List.append_inj' heq rfl
        obtain rfl := List.singleton_inj.mp hd
        exact he t ht
    | append_singleton after f =>
        rw [← List.cons_append, ← List.append_assoc] at heq
        exact hes before d after t (List.append_inj' heq rfl).1 ht

-- A guard that does not look back can be checked along a given run.
def alongCheck (step : σ → ε → Option σ) (guard : σ → ε → Bool) : σ → List ε → Bool
  | _, [] => true
  | s, e :: es => guard s e && (step s e).all fun t => alongCheck step guard t es

theorem along_of_check (guard : σ → ε → Bool) {step : σ → ε → Option σ}
    {guard' : List ε → σ → ε → Prop} (hg : ∀ before t e, guard t e = true → guard' before t e)
    {s : σ} {es : List ε} (h : alongCheck step guard s es = true) : Along step guard' s es := by
  induction es generalizing s guard' with
  | nil => exact along_nil
  | cons e es ih =>
      simp only [alongCheck, Bool.and_eq_true] at h
      refine along_cons.mpr ⟨hg [] s e h.1, fun t ht => ?_⟩
      rw [ht, Option.all_some] at h
      exact ih (fun before => hg (e :: before)) h.2

-- The invariant rule for runs that keep a guard. What one step preserves, a run preserves.
theorem run_invariant_along {step : σ → ε → Option σ} (guard : List ε → σ → ε → Prop)
    (inv : List ε → σ → Prop) {s : σ} (h0 : inv [] s)
    (hstep : ∀ es t e u, inv es t → guard es t e → step t e = some u → inv (es ++ [e]) u)
    {es : List ε} {t : σ} (hg : Along step guard s es) (hr : run step s es = some t) : inv es t := by
  induction es using List.reverseRecOn generalizing t with
  | nil =>
      cases hr
      exact h0
  | append_singleton es e ih =>
      obtain ⟨u, hu, hs⟩ := run_concat_eq_some hr
      exact hstep es u e t (ih hg.of_append hu) (hg.last hu) hs

theorem run_invariant {step : σ → ε → Option σ} (inv : List ε → σ → Prop) {s : σ} (h0 : inv [] s)
    (hstep : ∀ es t e u, inv es t → step t e = some u → inv (es ++ [e]) u)
    {es : List ε} {t : σ} (hr : run step s es = some t) : inv es t :=
  run_invariant_along (fun _ _ _ => True) inv h0
    (fun es t e u hi _ => hstep es t e u hi) (fun _ _ _ _ _ _ => trivial) hr

end Machine
