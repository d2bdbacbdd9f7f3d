import Mathlib.Order.WellFoundedSet

-- Who survives when everybody is struck by the survivors that stand above.
namespace Kernel

variable {α κ : Type*} [Preorder κ] {ground : Set α} {rank : α → κ} {hits : α → α → Prop}
  {alive alive' : α → Prop}

def IsKernel (ground : Set α) (rank : α → κ) (hits : α → α → Prop) (alive : α → Prop) : Prop :=
  ∀ x ∈ ground, alive x ↔ ¬ ∃ y ∈ ground, alive y ∧ rank x < rank y ∧ hits y x

-- Nothing but the ranks decides who survives. The induction goes from the top down.
theorem IsKernel.unique (hfinite : ground.Finite) (h : IsKernel ground rank hits alive)
    (h' : IsKernel ground rank hits alive') {x : α} (hx : x ∈ ground) : alive x ↔ alive' x := by
  have horder : IsStrictOrder α fun x y => rank y < rank x :=
    { irrefl := fun x => lt_irrefl (rank x)
      trans := fun _ _ _ hxy hyz => lt_trans hyz hxy }
  have hwf : ground.WellFoundedOn fun x y => rank y < rank x := hfinite.wellFoundedOn
  refine hwf.induction (P := fun x => alive x ↔ alive' x) hx ?_
  intro x hx ih
  rw [h x hx, h' x hx]
  refine not_congr (exists_congr fun y => and_congr_right fun hy => and_congr_left fun hxy => ?_)
  exact ih y hy hxy.1

end Kernel
