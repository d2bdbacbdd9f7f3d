import Vcu.Lib.Machine

-- Devices that acquire resources when they are opened and give them back when they are closed.
namespace Session

open Machine

variable {σ ω ρ κ : Type*}

-- What a call did: the state it left, the code it returned, and the resources of its own calls.
structure Call (σ ρ κ : Type*) where
  state : σ
  ret : κ
  acquired : List ρ := []
  released : List ρ := []

-- An outcome says how each of the acquisitions of one opening ends. It is complete when all of
-- them succeed.
structure Device (σ ω ρ κ : Type*) where
  init : σ
  ok : κ
  opened : σ → Bool
  complete : ω → Prop
  openWith : σ → ω → Call σ ρ κ
  close : σ → Call σ ρ κ

-- `held` is what the last opening of the closed device acquired.
structure State (σ ρ : Type*) where
  dev : σ
  held : List ρ := []

inductive Event (ω : Type*) where
  | openWith (outcome : ω)
  | close

variable {d : Device σ ω ρ κ} {clean : ω → Prop} {s t : State σ ρ}

def step (d : Device σ ω ρ κ) (s : State σ ρ) : Event ω → Option (State σ ρ)
  | .openWith outcome =>
      let call := d.openWith s.dev outcome
      some { dev := call.state, held := if d.opened s.dev then s.held else call.acquired }
  | .close => if d.opened s.dev then some { dev := (d.close s.dev).state } else none

structure AtomicOpen (d : Device σ ω ρ κ) (dev : σ) (outcome : ω) : Prop where
  success : (d.openWith dev outcome).ret = d.ok ↔ d.opened dev = false ∧ d.complete outcome
  failure : d.opened dev = false → (d.openWith dev outcome).ret ≠ d.ok →
    d.opened (d.openWith dev outcome).state = false ∧
      ∀ r ∈ (d.openWith dev outcome).acquired, r ∈ (d.openWith dev outcome).released

-- An opening that is refused at once, because the device is open or the first resource is missing.
theorem AtomicOpen.of_refused {dev next : σ} {outcome : ω} {code : κ}
    (hcall : d.openWith dev outcome = { state := next, ret := code }) (hcode : code ≠ d.ok)
    (hnext : d.opened next = d.opened dev) (hreason : d.opened dev = true ∨ ¬ d.complete outcome) :
    AtomicOpen d dev outcome := by
  constructor
  · rw [hcall]
    refine iff_of_false hcode ?_
    rintro ⟨hclosed, hcomplete⟩
    rcases hreason with hopen | hmissing
    · rw [hclosed] at hopen
      cases hopen
    · exact hmissing hcomplete
  · intro hclosed _
    rw [hcall]
    exact ⟨hnext.trans hclosed, nofun⟩

theorem AtomicOpen.of_complete {dev : σ} {outcome : ω} (hret : (d.openWith dev outcome).ret = d.ok)
    (hclosed : d.opened dev = false) (hcomplete : d.complete outcome) : AtomicOpen d dev outcome :=
  ⟨iff_of_true hret ⟨hclosed, hcomplete⟩, fun _ hne => absurd hret hne⟩

-- An opening succeeds with all resources or leaves nothing behind, and a closing gives back
-- nothing but what its opening acquired.
def Atomic (d : Device σ ω ρ κ) (_ : List (Event ω)) (s : State σ ρ) : Event ω → Prop
  | .openWith outcome => AtomicOpen d s.dev outcome
  | .close => d.opened s.dev = true → ∀ r ∈ (d.close s.dev).released, r ∈ s.held

-- The outcomes of all openings of the closed device are clean.
def Clean (d : Device σ ω ρ κ) (clean : ω → Prop) (_ : List (Event ω)) (s : State σ ρ) : Event ω → Prop
  | .openWith outcome => d.opened s.dev = true ∨ clean outcome
  | .close => True

-- What is to be known of the single calls of a device whose clean outcomes are atomic.
structure Lawful (d : Device σ ω ρ κ) (clean : ω → Prop) : Prop where
  init : d.opened d.init = false
  busy : ∀ dev outcome, d.opened dev = true →
    AtomicOpen d dev outcome ∧ (d.openWith dev outcome).state = dev
  atomic : ∀ dev outcome, d.opened dev = false → (AtomicOpen d dev outcome ↔ clean outcome)
  matching : ∀ dev outcome, d.opened dev = false → clean outcome →
    d.opened (d.openWith dev outcome).state = true →
      ∀ r ∈ (d.close (d.openWith dev outcome).state).released, r ∈ (d.openWith dev outcome).acquired
  closed : ∀ dev, d.opened dev = true → d.opened (d.close dev).state = false

-- An open device gives back what it holds.
def Matched (d : Device σ ω ρ κ) (s : State σ ρ) : Prop :=
  d.opened s.dev = true → ∀ r ∈ (d.close s.dev).released, r ∈ s.held

theorem step_matched (h : Lawful d clean) {before : List (Event ω)} {e : Event ω} (hs : Matched d s)
    (he : Clean d clean before s e) (ht : step d s e = some t) : Matched d t := by
  cases e with
  | openWith outcome =>
      cases ht
      intro hopen
      cases hbusy : d.opened s.dev with
      | true =>
          simp only [(h.busy s.dev outcome hbusy).2, if_true]
          exact hs hbusy
      | false =>
          rw [Clean, hbusy] at he
          have hclean := he.resolve_left Bool.false_ne_true
          rw [if_neg Bool.false_ne_true]
          exact h.matching s.dev outcome hbusy hclean hopen
  | close =>
      rw [step] at ht
      split at ht
      · rename_i hopen
        cases ht
        intro hstill
        rw [h.closed s.dev hopen] at hstill
        cases hstill
      · cases ht

-- Whether all calls of a run are atomic is decided by the openings of the closed device.
theorem along_atomic_iff (h : Lawful d clean) {es : List (Event ω)} :
    Along (step d) (Atomic d) { dev := d.init } es ↔
      Along (step d) (Clean d clean) { dev := d.init } es := by
  constructor
  · intro hatomic before e after s hes hs
    have he := hatomic before e after s hes hs
    cases e with
    | openWith outcome =>
        cases hbusy : d.opened s.dev with
        | true => exact .inl hbusy
        | false => exact .inr ((h.atomic s.dev outcome hbusy).mp he)
    | close => exact trivial
  · intro hclean before e after s hes hs
    have he := hclean before e after s hes hs
    cases e with
    | openWith outcome =>
        cases hbusy : d.opened s.dev with
        | true => exact (h.busy s.dev outcome hbusy).1
        | false =>
            rw [Clean, hbusy] at he
            exact (h.atomic s.dev outcome hbusy).mpr (he.resolve_left Bool.false_ne_true)
    | close =>
        have hinit : Matched d { dev := d.init } := fun hopen => by
          rw [h.init] at hopen
          cases hopen
        rw [hes] at hclean
        exact run_invariant_along (Clean d clean) (fun _ s => Matched d s) hinit
          (fun _ _ _ _ hm hc ht => step_matched h hm hc ht) hclean.of_append hs

end Session
