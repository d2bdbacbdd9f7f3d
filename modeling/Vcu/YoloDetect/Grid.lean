import Vcu.YoloDetect.Passes

namespace Vcu

open Counting

-- The column and the row that fillNetworkBoxes takes for a location.
def Cell.col (c : Cell) : Int := Int.tmod c.loc c.layer.netH

def Cell.row (c : Cell) : Int := Int.tdiv c.loc c.layer.netW

-- They are those of the location.
structure Placed (c : Cell) : Prop where
  cell : c.row * c.layer.netW + c.col = c.loc
  col_nonneg : 0 ≤ c.col
  col_lt : c.col < c.layer.netW
  row_nonneg : 0 ≤ c.row
  row_lt : c.row < c.layer.netH

-- The dimensions of a layer, and a location in its grid.
structure Cell.InGrid (c : Cell) : Prop where
  netH : 0 < c.layer.netH
  netW : 0 < c.layer.netW
  loc : c.loc < c.layer.netH * c.layer.netW

section Placed

variable {c c' : Cell}

theorem placed_iff (h : c.InGrid) : Placed c ↔ (c.loc : Int) % c.layer.netH = c.loc % c.layer.netW := by
  have hloc : (0 : Int) ≤ c.loc := Int.natCast_nonneg _
  have hcol : c.col = c.loc % c.layer.netH := Int.tmod_eq_emod_of_nonneg hloc
  have hrow : c.row = c.loc / c.layer.netW := Int.tdiv_eq_ediv_of_nonneg hloc
  have hdiv := Int.mul_ediv_add_emod (c.loc : Int) c.layer.netW
  rw [Int.mul_comm] at hdiv
  constructor
  · intro hplaced
    have hcell := hplaced.cell
    rw [hcol, hrow] at hcell
    omega
  · intro hagree
    refine ⟨?_, ?_, ?_, ?_, ?_⟩
    · rw [hcol, hrow, hagree]
      exact hdiv
    · rw [hcol]
      exact Int.emod_nonneg _ (Int.ne_of_gt h.netH)
    · rw [hcol, hagree]
      exact Int.emod_lt_of_pos _ h.netW
    · rw [hrow]
      exact Int.ediv_nonneg hloc (Int.le_of_lt h.netW)
    · rw [hrow]
      exact Int.ediv_lt_of_lt_mul h.netW h.loc

theorem Placed.loc_eq (h : Placed c) (h' : Placed c') (hlayer : c.layer = c'.layer)
    (hcol : c.col = c'.col) (hrow : c.row = c'.row) : c.loc = c'.loc := by
  have hcell := h.cell
  rw [hlayer, hcol, hrow, h'.cell] at hcell
  exact (Int.ofNat.inj hcell).symm

-- Some location of the grid is misplaced unless the grid is square.
theorem locations_agree_iff {netH netW : Int} (hh : 0 < netH) (hw : 0 < netW) :
    (∀ loc : Nat, loc < netH * netW → (loc : Int) % netH = loc % netW) ↔ netH = netW := by
  constructor
  · intro h
    -- The first location behind the shorter side.
    rcases Int.lt_trichotomy netH netW with hlt | heq | hlt
    · have hinside : netH < netH * netW := lt_mul_of_one_lt_right hh (by omega)
      have hloc := h netH.toNat
      rw [Int.toNat_of_nonneg (Int.le_of_lt hh), Int.emod_self,
        Int.emod_eq_of_lt (Int.le_of_lt hh) hlt] at hloc
      have hzero := hloc hinside
      omega
    · exact heq
    · have hinside : netW < netH * netW := lt_mul_of_one_lt_left hw (by omega)
      have hloc := h netW.toNat
      rw [Int.toNat_of_nonneg (Int.le_of_lt hw), Int.emod_self,
        Int.emod_eq_of_lt (Int.le_of_lt hw) hlt] at hloc
      have hzero := hloc hinside
      omega
  · rintro rfl loc _
    rfl

end Placed

section Written

variable {F : Type} [One F] [Add F] [Sub F] [Mul F] [Div F] [IntCast F] [Zero F] [LT F] [DecidableLT F]
  {net : NetDetect F} {inputData : Int → F} {thresh : F}

theorem inGrid_of_mem_scan {c : Cell} {vecLayer : List YoloLayer} {pData : Int}
    (hgrid : ∀ layer ∈ vecLayer, 0 < layer.netH ∧ 0 < layer.netW) (hc : c ∈ scan vecLayer pData) :
    c.InGrid := by
  obtain ⟨hlayer, hloc, -⟩ := mem_scan hc
  obtain ⟨hh, hw⟩ := hgrid c.layer hlayer
  exact ⟨hh, hw, hloc⟩

-- Entry `i` belongs to the `i`-th cell chosen. The detections lie in the cells they were read from
-- exactly if net_h and net_w leave the same remainder for every location that is written, and for
-- all locations of a grid that means that it is square.
theorem fill_placed_iff (hmax : 0 ≤ net.maxBoxNum)
    (hgrid : ∀ layer ∈ net.vecLayer, 0 < layer.netH ∧ 0 < layer.netW) {dets : List (Detection F)}
    (hdets : dets.length = boxNum net inputData thresh) :
    (∀ (i : Nat) (c : Cell), (chosen net inputData thresh)[i]? = some c →
      ∃ d, (fillLayers net inputData thresh net.vecLayer 0 { dets := dets }).dets[i]? = some d ∧
        d.bbox = getYoloBox2 net (fun index => inputData (c.pData + index)) (c.layer.mask c.n)
          (getIndex2 c.n c.loc c.layer.netC 85 0) c.col c.row c.layer.netW c.layer.netH) ∧
    ((∀ c ∈ chosen net inputData thresh, Placed c) ∧
        (∀ c ∈ chosen net inputData thresh, ∀ c' ∈ chosen net inputData thresh,
          c.layer = c'.layer → c.loc ≠ c'.loc → (c.col, c.row) ≠ (c'.col, c'.row)) ↔
      ∀ c ∈ chosen net inputData thresh, (c.loc : Int) % c.layer.netH = c.loc % c.layer.netW) ∧
    ∀ layer ∈ net.vecLayer,
      (∀ loc : Nat, loc < layer.netH * layer.netW → (loc : Int) % layer.netH = loc % layer.netW) ↔
        layer.netH = layer.netW := by
  rw [boxNum_eq net inputData thresh hmax, Int.ofNat_inj] at hdets
  have hin : ∀ c ∈ chosen net inputData thresh, c.InGrid :=
    fun c hc => inGrid_of_mem_scan hgrid (of_mem_taken hc).1
  refine ⟨?_, ?_, ?_⟩
  · intro i c hc
    have hi : i < dets.length := by
      rw [hdets]
      exact (List.getElem?_eq_some_iff.mp hc).1
    rw [fillLayers_dets net inputData thresh hdets, List.getElem?_zipWith, hc,
      List.getElem?_eq_getElem hi]
    exact ⟨_, rfl, rfl⟩
  · constructor
    · intro h c hc
      exact (placed_iff (hin c hc)).mp (h.1 c hc)
    · intro h
      have hplaced : ∀ c ∈ chosen net inputData thresh, Placed c :=
        fun c hc => (placed_iff (hin c hc)).mpr (h c hc)
      refine ⟨hplaced, ?_⟩
      intro c hc c' hc' hlayer hloc hsame
      obtain ⟨hcol, hrow⟩ := Prod.mk.inj hsame
      exact hloc ((hplaced c hc).loc_eq (hplaced c' hc') hlayer hcol hrow)
  · intro layer hlayer
    exact locations_agree_iff (hgrid layer hlayer).1 (hgrid layer hlayer).2

end Written

theorem fill_placed_iff_small :
    (∀ (i : Nat) (c : Cell), (chosen smallNet (fun _ => 1) 0)[i]? = some c →
      ∃ d, (fillLayers smallNet (fun _ => 1) 0 smallNet.vecLayer 0 { dets := [blankDet] }).dets[i]? = some d ∧
        d.bbox = getYoloBox2 smallNet (fun _ => 1) (c.layer.mask c.n)
          (getIndex2 c.n c.loc c.layer.netC 85 0) c.col c.row c.layer.netW c.layer.netH) ∧
    ((∀ c ∈ chosen smallNet (fun _ => 1) 0, Placed c) ∧
        (∀ c ∈ chosen smallNet (fun _ => 1) 0, ∀ c' ∈ chosen smallNet (fun _ => 1) 0,
          c.layer = c'.layer → c.loc ≠ c'.loc → (c.col, c.row) ≠ (c'.col, c'.row)) ↔
      ∀ c ∈ chosen smallNet (fun _ => 1) 0, (c.loc : Int) % c.layer.netH = c.loc % c.layer.netW) ∧
    ∀ layer ∈ smallNet.vecLayer,
      (∀ loc : Nat, loc < layer.netH * layer.netW → (loc : Int) % layer.netH = loc % layer.netW) ↔
        layer.netH = layer.netW := by
  refine fill_placed_iff (by decide) ?_ (by decide)
  simp [smallNet]

-- Two cells side by side. The detection of the second one is put into the first.
theorem second_cell_misplaced :
    let output : Int → Int := fun index => if index = 260 then 1 else 0
    (chosen smallNet output 0).map (fun c => (c.loc, c.row, c.col)) = [(1, 0, 0)] ∧
      ¬ ∀ c ∈ chosen smallNet output 0, Placed c := by
  have hchosen : (chosen smallNet (fun index => if index = 260 then 1 else 0) 0).map
      (fun c => (c.loc, c.row, c.col)) = [(1, 0, 0)] := by decide
  refine ⟨hchosen, ?_⟩
  intro h
  obtain ⟨c, hc, hmap⟩ : ∃ c ∈ chosen smallNet (fun index => if index = 260 then 1 else 0) 0,
      (c.loc, c.row, c.col) = (1, 0, 0) := by
    apply List.mem_map.mp
    rw [hchosen]
    exact List.mem_singleton.mpr rfl
  have hcell := (h c hc).cell
  simp only [Prod.mk.injEq] at hmap
  rw [hmap.1, hmap.2.1, hmap.2.2] at hcell
  simp at hcell

end Vcu
