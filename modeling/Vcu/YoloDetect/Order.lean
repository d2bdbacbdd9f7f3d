import Vcu.Lib.Kernel
import Vcu.YoloDetect.Selection
import Vcu.YoloDetect.Suppression

namespace Vcu

open Kernel

-- No two detections have the same score for the class, unless it is zero.
def Distinct (c : Nat) (dets : List (Detection ℚ)) : Prop :=
  dets.Pairwise fun a b => a.prob c ≠ 0 → a.prob c ≠ b.prob c

-- The detections that take part in the suppression of class `c`.
def contenders (c : Nat) (dets : List (Detection ℚ)) : Set (Detection ℚ) :=
  { d | d ∈ dets ∧ d.objectness ≠ 0 ∧ d.prob c ≠ 0 }

def survives (c : Nat) (pairs : List Tracked) (d : Detection ℚ) : Prop :=
  ∃ p ∈ pairs, p.1 = d ∧ p.2.prob c ≠ 0

section Run

variable {thresh : ℚ} {c k : Nat} {dets : List (Detection ℚ)} {pairs : List Tracked}

-- Two entries of the run whose detections have the same score are one.
theorem Distinct.pair_eq (h : Distinct c dets) (hperm : (pairs.map Prod.fst).Perm dets) {p q : Tracked}
    (hp : p ∈ pairs) (hq : q ∈ pairs) (hzero : p.1.prob c ≠ 0) (hsame : p.1.prob c = q.1.prob c) :
    p = q := by
  have hpairs : pairs.Pairwise fun p q => p.1.prob c ≠ 0 → p.1.prob c ≠ q.1.prob c := by
    refine List.pairwise_map.mp (hperm.symm.pairwise h ?_)
    intro a b hab hb hsame
    exact hab (hsame ▸ hb) hsame.symm
  have hsymm : Std.Symm fun p q : Tracked => p.1.prob c ≠ 0 → p.1.prob c ≠ q.1.prob c :=
    ⟨fun p q hpq hq hsame => hpq (hsame ▸ hq) hsame.symm⟩
  by_contra hne
  exact hpairs.forall hp hq hne hzero hsame

theorem prob_eq_of_alive (hscored : ∀ p ∈ pairs, Scored k p) {p : Tracked} (hp : p ∈ pairs)
    (halive : p.2.prob c ≠ 0) : p.2.prob c = p.1.prob c :=
  ((hscored p hp).score c).resolve_right halive

-- The survivors of a run are the kernel of its contenders.
theorem isKernel_survives (hcorrect : ClassCorrect thresh c pairs) (hscored : ∀ p ∈ pairs, Scored k p)
    (hperm : (pairs.map Prod.fst).Perm dets) (hdistinct : Distinct c dets) :
    IsKernel (contenders c dets) (fun d => d.prob c)
      (fun a b => thresh < boxIou a.bbox b.bbox) (survives c pairs) := by
  rintro d ⟨hd, hobj, hzero⟩
  obtain ⟨p, hp, rfl⟩ := List.mem_map.mp (hperm.mem_iff.mpr hd)
  constructor
  · rintro ⟨p', hp', hsame, halive⟩ ⟨e, ⟨he, heobj, -⟩, ⟨q, hq, rfl, hqalive⟩, hrank, hhit⟩
    have hone : p' = p := hdistinct.pair_eq hperm hp' hp (by rwa [hsame]) (by rw [hsame])
    subst hone
    have hne : p' ≠ q := by
      rintro rfl
      exact lt_irrefl _ hrank
    obtain ⟨i, hi⟩ := List.mem_iff_getElem?.mp hp'
    obtain ⟨j, hj⟩ := List.mem_iff_getElem?.mp hq
    have hij : i ≠ j := by
      rintro rfl
      exact hne (Option.some.inj (hi.symm.trans hj))
    have hapart := hcorrect.apart_of_ne hij hi hj (by rwa [(hscored p' hp').objectness])
      (by rwa [(hscored q hq).objectness]) halive hqalive
    rw [(hscored p' hp').bbox, (hscored q hq).bbox, boxIou_comm] at hapart
    exact not_lt.mpr hapart hhit
  · intro hnone
    by_contra hdead
    have hstruck : p.2.prob c = 0 := by
      by_contra halive
      exact hdead ⟨p, hp, rfl, halive⟩
    obtain ⟨q, hq, hqobj, hqalive, hle, hhit⟩ :=
      hcorrect.struck p hp (by rwa [(hscored p hp).objectness]) hzero hstruck
    have hscore := prob_eq_of_alive hscored hq hqalive
    rw [(hscored p hp).bbox, (hscored q hq).bbox] at hhit
    rw [(hscored q hq).objectness] at hqobj
    rw [hscore] at hle hqalive
    refine hnone ⟨q.1, ⟨hperm.mem_iff.mp (List.mem_map_of_mem hq), hqobj, hqalive⟩,
      ⟨q, hq, rfl, by rwa [hscore]⟩, lt_of_le_of_ne hle ?_, hhit⟩
    intro hsame
    have hone : p = q := hdistinct.pair_eq hperm hp hq hzero hsame
    subst hone
    exact hqalive (hscore ▸ hstruck)

theorem survives_iff (hperm : (pairs.map Prod.fst).Perm dets) (hdistinct : Distinct c dets) {p : Tracked}
    (hp : p ∈ pairs) (hzero : p.1.prob c ≠ 0) : survives c pairs p.1 ↔ p.2.prob c ≠ 0 := by
  constructor
  · rintro ⟨q, hq, hsame, halive⟩
    have hone : p = q := hdistinct.pair_eq hperm hp hq hzero (by rw [hsame])
    rwa [hone]
  · exact fun halive => ⟨p, hp, rfl, halive⟩

end Run

-- A run and what is known of it.
structure Traced (thresh : ℚ) (classNum : Int) (dets : List (Detection ℚ)) (pairs : List Tracked) :
    Prop where
  perm : (pairs.map Prod.fst).Perm dets
  scored : ∀ p ∈ pairs, Scored classNum.toNat p
  idle : ∀ p ∈ pairs, p.1.objectness = 0 → p.2 = p.1
  correct : ∀ c : Nat, c < classNum → ClassCorrect thresh c pairs

section TwoRuns

variable {thresh t : ℚ} {classNum : Int} {dets : List (Detection ℚ)} {pairs pairs' : List Tracked}

theorem Traced.prob_eq (h : Traced thresh classNum dets pairs) (h' : Traced thresh classNum dets pairs')
    (hdistinct : ∀ c : Nat, c < classNum → Distinct c dets) {p p' : Tracked} (hp : p ∈ pairs)
    (hp' : p' ∈ pairs') (hsame : p.1 = p'.1) (c : Nat) : p.2.prob c = p'.2.prob c := by
  by_cases hc : c < classNum
  · by_cases hobj : p.1.objectness = 0
    · rw [h.idle p hp hobj, h'.idle p' hp' (hsame ▸ hobj), hsame]
    · have hscore := (h.scored p hp).score c
      have hscore' := (h'.scored p' hp').score c
      rw [← hsame] at hscore'
      by_cases hzero : p.1.prob c = 0
      · rw [hzero, or_self] at hscore hscore'
        rw [hscore, hscore']
      · have hfinite : (contenders c dets).Finite :=
          (List.finite_toSet dets).subset fun d hd => hd.1
        have hmem : p.1 ∈ contenders c dets :=
          ⟨h.perm.mem_iff.mp (List.mem_map_of_mem hp), hobj, hzero⟩
        have hkernel := isKernel_survives (h.correct c hc) h.scored h.perm (hdistinct c hc)
        have hkernel' := isKernel_survives (h'.correct c hc) h'.scored h'.perm (hdistinct c hc)
        have hiff := hkernel.unique hfinite hkernel' hmem
        rw [survives_iff h.perm (hdistinct c hc) hp hzero, hsame,
          survives_iff h'.perm (hdistinct c hc) hp' (hsame ▸ hzero)] at hiff
        by_cases halive : p.2.prob c = 0
        · rw [halive, not_not.mp fun halive' => hiff.mpr halive' halive]
        · rw [hscore.resolve_right halive, hscore'.resolve_right (hiff.mp halive)]
  · rw [(h.scored p hp).later c (by omega), (h'.scored p' hp').later c (by omega), hsame]

-- The detections that are selected, before and after the run, with their classes.
def chosenPairs (t : ℚ) (pairs : List Tracked) : List (Tracked × Int) :=
  pairs.filterMap fun p => (withBestClass t p.2).map fun s => (p, s.bestClass)

theorem getActualDetections_eq (t : ℚ) (pairs : List Tracked) :
    getActualDetections (pairs.map Prod.snd) t =
      (chosenPairs t pairs).map fun s => { det := s.1.2, bestClass := s.2 } := by
  rw [getActualDetections, List.filterMap_map, chosenPairs, List.map_filterMap]
  apply List.filterMap_congr
  intro p _
  rw [Function.comp_apply, Option.map_map, withBestClass]
  split <;> rfl

theorem bestClass_congr {d e : Detection ℚ} (hprob : ∀ c, d.prob c = e.prob c)
    (hclasses : d.classes = e.classes) (t : ℚ) : bestClass t d = bestClass t e := by
  rw [bestClass, bestClass, hclasses]
  simp only [hprob]

-- What is chosen depends on the detection before the run only.
theorem chosenPairs_perm {α β γ : Type} {l l' : List (α × β)} (g : β → Option γ)
    (hperm : (l'.map Prod.fst).Perm (l.map Prod.fst))
    (hagree : ∀ p ∈ l, ∀ p' ∈ l', p.1 = p'.1 → g p.2 = g p'.2) :
    (l'.filterMap fun p => (g p.2).map fun b => (p.1, b)).Perm
      (l.filterMap fun p => (g p.2).map fun b => (p.1, b)) := by
  classical
  let f : α → Option γ := fun a => if h : ∃ p ∈ l, p.1 = a then g h.choose.2 else none
  have hf' : ∀ p' ∈ l', g p'.2 = f p'.1 := by
    intro p' hp'
    have h : ∃ p ∈ l, p.1 = p'.1 := List.mem_map.mp (hperm.mem_iff.mp (List.mem_map_of_mem hp'))
    have hfp : f p'.1 = g h.choose.2 := dif_pos h
    rw [hfp]
    exact (hagree _ h.choose_spec.1 p' hp' h.choose_spec.2).symm
  have hf : ∀ p ∈ l, g p.2 = f p.1 := by
    intro p hp
    obtain ⟨p', hp', hsame⟩ := List.mem_map.mp (hperm.mem_iff.mpr (List.mem_map_of_mem hp))
    rw [hagree p hp p' hp' hsame.symm, hf' p' hp', hsame]
  have hmap : ∀ {m : List (α × β)}, (∀ p ∈ m, g p.2 = f p.1) →
      (m.filterMap fun p => (g p.2).map fun b => (p.1, b)) =
        (m.map Prod.fst).filterMap fun a => (f a).map fun b => (a, b) := by
    intro m hm
    rw [List.filterMap_map]
    apply List.filterMap_congr
    intro p hp
    rw [hm p hp]
    rfl
  rw [hmap hf, hmap hf']
  exact hperm.filterMap _

theorem Traced.chosenPairs_perm (h : Traced thresh classNum dets pairs)
    (h' : Traced thresh classNum dets pairs') (hdistinct : ∀ c : Nat, c < classNum → Distinct c dets)
    (t : ℚ) : ((chosenPairs t pairs').map fun s => (s.1.1, s.2)).Perm
      ((chosenPairs t pairs).map fun s => (s.1.1, s.2)) := by
  have hproject (pairs : List Tracked) : ((chosenPairs t pairs).map fun s => (s.1.1, s.2)) =
      pairs.filterMap fun p => ((withBestClass t p.2).map DetectionWithClass.bestClass).map
        fun b => (p.1, b) := by
    rw [chosenPairs, List.map_filterMap]
    simp only [Option.map_map, Function.comp_def]
  rw [hproject, hproject]
  refine Vcu.chosenPairs_perm (fun d => (withBestClass t d).map DetectionWithClass.bestClass)
    (h'.perm.trans h.perm.symm) ?_
  intro p hp p' hp' hsame
  have hclasses : p.2.classes = p'.2.classes := by
    rw [(h.scored p hp).classes, (h'.scored p' hp').classes, hsame]
  rw [withBestClass, withBestClass, bestClass_congr (h.prob_eq h' hdistinct hp hp' hsame) hclasses]
  split <;> rfl

theorem exists_traced (qsort : Qsort (Detection ℚ)) (classNum : Int) (thresh : ℚ)
    {dets dets' : List (Detection ℚ)} (hperm : dets'.Perm dets) :
    ∃ pairs, doNmsSort qsort classNum dets' dets'.length thresh = some (pairs.map Prod.snd) ∧
      Traced thresh classNum dets pairs := by
  obtain ⟨pairs, hrun, hfst, hscored, hidle, hcorrect⟩ := doNmsSort_tracked qsort classNum dets' thresh
  exact ⟨pairs, hrun, hfst.trans hperm, hscored, hidle, hcorrect⟩

end TwoRuns

-- The order in which the boxes are listed does not matter, nor does the qsort. It is not used that
-- the scores are not negative.
theorem doNmsSort_perm (qsort qsort' : Qsort (Detection ℚ)) (classNum : Int) (thresh t : ℚ)
    {dets dets' : List (Detection ℚ)} (hperm : dets'.Perm dets)
    (hdistinct : ∀ c : Nat, c < classNum →
      dets.Pairwise fun a b => a.prob c ≠ 0 → a.prob c ≠ b.prob c) :
    ∃ pairs pairs' : List (Detection ℚ × Detection ℚ),
      doNmsSort qsort classNum dets dets.length thresh = some (pairs.map Prod.snd) ∧
      doNmsSort qsort' classNum dets' dets'.length thresh = some (pairs'.map Prod.snd) ∧
      (pairs.map Prod.fst).Perm dets ∧ (pairs'.map Prod.fst).Perm dets' ∧
      (∀ p ∈ pairs ++ pairs', p.2.bbox = p.1.bbox ∧ p.2.objectness = p.1.objectness ∧
        p.2.classes = p.1.classes) ∧
      (∀ p ∈ pairs, ∀ p' ∈ pairs', p.1 = p'.1 → ∀ c, p.2.prob c = p'.2.prob c) ∧
      (getActualDetections (pairs.map Prod.snd) t =
          (chosenPairs t pairs).map fun s => { det := s.1.2, bestClass := s.2 }) ∧
      (getActualDetections (pairs'.map Prod.snd) t =
          (chosenPairs t pairs').map fun s => { det := s.1.2, bestClass := s.2 }) ∧
      ((chosenPairs t pairs').map fun s => (s.1.1, s.2)).Perm
        ((chosenPairs t pairs).map fun s => (s.1.1, s.2)) := by
  obtain ⟨pairs, hrun, h⟩ := exists_traced qsort classNum thresh (.refl dets)
  obtain ⟨pairs', hrun', h'⟩ := exists_traced qsort' classNum thresh hperm
  refine ⟨pairs, pairs', hrun, hrun', h.perm, h'.perm.trans hperm.symm, ?_, ?_,
    getActualDetections_eq t pairs, getActualDetections_eq t pairs', h.chosenPairs_perm h' hdistinct t⟩
  · intro p hp
    rcases List.mem_append.mp hp with hp | hp
    · exact ⟨(h.scored p hp).bbox, (h.scored p hp).objectness, (h.scored p hp).classes⟩
    · exact ⟨(h'.scored p hp).bbox, (h'.scored p hp).objectness, (h'.scored p hp).classes⟩
  · intro p hp p' hp' hsame c
    exact h.prob_eq h' hdistinct hp hp' hsame c

-- Two boxes on top of each other.
def stacked : List (Detection ℚ) := [
  { bbox := ⟨1, 1, 1, 1⟩, prob := fun _ => 3 / 4, objectness := 1, sortClass := 0, classes := 1 },
  { bbox := ⟨1, 1, 1, 1⟩, prob := fun _ => 1 / 2, objectness := 1, sortClass := 0, classes := 1 }]

theorem doNmsSort_perm_stacked :
    ∃ pairs pairs' : List (Detection ℚ × Detection ℚ),
      doNmsSort (insertionQsort _) 1 stacked stacked.length (1 / 2) = some (pairs.map Prod.snd) ∧
      doNmsSort (insertionQsort _) 1 stacked.reverse stacked.reverse.length (1 / 2) =
        some (pairs'.map Prod.snd) ∧
      (pairs.map Prod.fst).Perm stacked ∧ (pairs'.map Prod.fst).Perm stacked.reverse ∧
      (∀ p ∈ pairs ++ pairs', p.2.bbox = p.1.bbox ∧ p.2.objectness = p.1.objectness ∧
        p.2.classes = p.1.classes) ∧
      (∀ p ∈ pairs, ∀ p' ∈ pairs', p.1 = p'.1 → ∀ c, p.2.prob c = p'.2.prob c) ∧
      (getActualDetections (pairs.map Prod.snd) (1 / 4) =
          (chosenPairs (1 / 4) pairs).map fun s => { det := s.1.2, bestClass := s.2 }) ∧
      (getActualDetections (pairs'.map Prod.snd) (1 / 4) =
          (chosenPairs (1 / 4) pairs').map fun s => { det := s.1.2, bestClass := s.2 }) ∧
      ((chosenPairs (1 / 4) pairs').map fun s => (s.1.1, s.2)).Perm
        ((chosenPairs (1 / 4) pairs).map fun s => (s.1.1, s.2)) := by
  refine doNmsSort_perm (insertionQsort _) (insertionQsort _) 1 (1 / 2) (1 / 4) stacked.reverse_perm ?_
  intro c _
  have hne : (3 / 4 : ℚ) ≠ 1 / 2 := by decide +kernel
  exact List.pairwise_pair.mpr fun _ => hne

end Vcu
