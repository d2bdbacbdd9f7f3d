import Vcu.Lib.Machine

namespace Machine

variable {σ ε : Type*} {step : σ → ε → Option σ}

-- The allowed events keep the invariant and lower the measure.
def Lowers (step : σ → ε → Option σ) (allowed : ε → Prop) (inv : σ → Prop) (measure : σ → ℕ) :
    Prop :=
  ∀ s e u, inv s → allowed e → step s e = some u → inv u ∧ measure u < measure s

section Lowers

variable {allowed : ε → Prop} {inv : σ → Prop} {measure : σ → ℕ} {s u : σ} {es : List ε}

-- A run of allowed events is no longer than the measure says.
theorem Lowers.run (h : Lowers step allowed inv measure) (hs : inv s) (hes : ∀ e ∈ es, allowed e)
    (hr : run step s es = some u) : inv u ∧ measure u + es.length ≤ measure s := by
  induction es generalizing s with
  | nil =>
      obtain rfl := Option.some.inj hr
      exact ⟨hs, Nat.le_refl _⟩
  | cons e es ih =>
      obtain ⟨t, ht, hr⟩ := Option.bind_eq_some_iff.mp hr
      obtain ⟨hti, hlt⟩ := h s e t hs (hes e List.mem_cons_self) ht
      obtain ⟨hui, hle⟩ := ih hti (fun d hd => hes d (List.mem_cons_of_mem e hd)) hr
      refine ⟨hui, ?_⟩
      rw [List.length_cons]
      omega

-- Where every state short of the goal has an allowed step that lowers the measure, the goal can be
-- reached.
theorem exists_run_of_progress {goal : σ → Prop}
    (h : ∀ s, inv s → ¬ goal s → ∃ e u, allowed e ∧ step s e = some u ∧ inv u ∧ measure u < measure s)
    (hs : inv s) :
    ∃ es u, (∀ e ∈ es, allowed e) ∧ Machine.run step s es = some u ∧ inv u ∧ goal u := by
  induction hm : measure s using Nat.strongRecOn generalizing s with
  | ind m ih =>
      by_cases hg : goal s
      · exact ⟨[], s, nofun, rfl, hs, hg⟩
      obtain ⟨e, t, he, ht, hti, hlt⟩ := h s hs hg
      obtain ⟨es, u, hes, hr, hui, hgu⟩ := ih (measure t) (by rwa [← hm]) hti rfl
      refine ⟨e :: es, u, ?_, ?_, hui, hgu⟩
      · intro d hd
        rcases List.mem_cons.mp hd with rfl | hd
        · exact he
        · exact hes d hd
      · rw [run_cons, ht, Option.bind_some, hr]

end Lowers

end Machine
