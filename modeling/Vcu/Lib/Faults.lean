-- Computations that can fail, by the errors that they can end with.
namespace Faults

variable {ε α β : Type} {bad : ε → Prop} {x : Except ε α} {f : α → Except ε β}

def Only (bad : ε → Prop) (x : Except ε α) : Prop := ∀ e, x = .error e → bad e

def Avoids (bad : ε → Prop) (x : Except ε α) : Prop := Only (fun e => ¬bad e) x

theorem only_ok (a : α) : Only bad (.ok a : Except ε α) := nofun

theorem only_error {e : ε} (h : bad e) : Only bad (.error e : Except ε α) := by
  intro e' he
  cases he
  exact h

theorem avoids_ok (a : α) : Avoids bad (.ok a : Except ε α) := only_ok a

theorem not_avoids_error {e : ε} (h : bad e) : ¬Avoids bad (.error e : Except ε α) := fun havoids =>
  havoids e rfl h

theorem Only.bind (hx : Only bad x) (hf : ∀ a, Only bad (f a)) : Only bad (x >>= f) := by
  intro e he
  cases x with
  | error e' =>
      cases he
      exact hx e rfl
  | ok a => exact hf a e he

theorem Avoids.bind (hx : Avoids bad x) (hf : ∀ a, Avoids bad (f a)) : Avoids bad (x >>= f) :=
  Only.bind hx hf

theorem Avoids.of_bind (h : Avoids bad (x >>= f)) : Avoids bad x := by
  rintro e rfl
  exact h e rfl

-- What no error of the first part can have, comes from its success.
theorem bind_iff {P : Except ε β → Prop} (herror : ∀ e, x = .error e → ¬P (.error e)) :
    P (x >>= f) ↔ ∃ a, x = .ok a ∧ P (f a) := by
  cases x with
  | error e =>
      constructor
      · intro h
        exact absurd h (herror e rfl)
      · rintro ⟨a, ha, -⟩
        cases ha
  | ok a =>
      constructor
      · intro h
        exact ⟨a, rfl, h⟩
      · rintro ⟨a', ha, h⟩
        cases ha
        exact h

theorem exists_bind_ok : (∃ b, (x >>= f) = .ok b) ↔ ∃ a, x = .ok a ∧ ∃ b, f a = .ok b := by
  refine bind_iff (P := fun y => ∃ b, y = .ok b) ?_
  rintro e - ⟨b, hb⟩
  cases hb

-- With the bad errors only, the first part has to succeed.
theorem Only.avoids_bind_iff (hx : Only bad x) :
    Avoids bad (x >>= f) ↔ ∃ a, x = .ok a ∧ Avoids bad (f a) :=
  bind_iff fun e he => not_avoids_error (hx e he)

end Faults
