import Mathlib.Data.List.Perm.Basic
import Vcu.Lib.Greedy

-- Greedy suppression in rounds. An entry has a score for every round, and in its round the entries
-- are swept in the order of their scores.
namespace Elimination

open Greedy

-- To mark an entry for its round changes nothing that counts, and to kill it takes its score for
-- that round.
structure Contest (α κ β : Type*) [Zero β] where
  key : α → κ
  score : Nat → α → β
  mark : Nat → α → α
  kill : Nat → α → α
  key_mark : ∀ k a, key (mark k a) = key a
  score_mark : ∀ k c a, score c (mark k a) = score c a
  key_kill : ∀ k a, key (kill k a) = key a
  score_kill : ∀ k a, score k (kill k a) = 0
  score_kill_of_ne : ∀ k c a, c ≠ k → score c (kill k a) = score c a
  kill_idle : ∀ k a, score k a = 0 → kill k a = a

variable {α κ β : Type*} [Zero β] (x : Contest α κ β) (hits : κ → κ → Bool)

section Kept

-- An entry before the rounds and behind the rounds below `k`.
structure Kept (k : Nat) (p : α × α) : Prop where
  key : x.key p.2 = x.key p.1
  score : ∀ c, x.score c p.2 = x.score c p.1 ∨ x.score c p.2 = 0
  later : ∀ c, k ≤ c → x.score c p.2 = x.score c p.1

variable {x} {k : Nat} {p : α × α}

theorem Kept.kill (h : Kept x k p) : Kept x (k + 1) (p.1, x.kill k p.2) := by
  refine ⟨(x.key_kill k p.2).trans h.key, ?_, ?_⟩
  · intro c
    by_cases hc : c = k
    · subst hc
      exact .inr (x.score_kill c p.2)
    · simp only [x.score_kill_of_ne k c _ hc]
      exact h.score c
  · intro c hc
    simp only [x.score_kill_of_ne k c p.2 (by omega)]
    exact h.later c (by omega)

theorem Kept.mark (h : Kept x k p) : Kept x k (p.1, x.mark k p.2) := by
  refine ⟨(x.key_mark k p.2).trans h.key, ?_, ?_⟩
  · intro c
    simp only [x.score_mark]
    exact h.score c
  · intro c hc
    simp only [x.score_mark]
    exact h.later c hc

theorem Kept.succ (h : Kept x k p) : Kept x (k + 1) p :=
  ⟨h.key, h.score, fun c hc => h.later c (by omega)⟩

end Kept

section Decided

variable [LE β]

-- The order in which round `k` sweeps the entries.
structure Arranged (k : Nat) (l m : List α) : Prop where
  perm : m.Perm (l.map (x.mark k))
  sorted : m.Pairwise fun a b => x.score k b ≤ x.score k a

-- What round `c` has made of the entries, each with its state before the first round. No two that
-- keep their score hit each other, and whoever lost it was hit by one that kept no smaller score.
structure Decided (c : Nat) (pairs : List (α × α)) : Prop where
  apart : pairs.Pairwise fun p q =>
    x.score c p.2 ≠ 0 → x.score c q.2 ≠ 0 → hits (x.key p.2) (x.key q.2) = false
  struck : ∀ p ∈ pairs, x.score c p.1 ≠ 0 → x.score c p.2 = 0 → ∃ q ∈ pairs,
    x.score c q.2 ≠ 0 ∧ x.score c p.1 ≤ x.score c q.1 ∧ hits (x.key q.2) (x.key p.2) = true

-- The entries `l` that the rounds below `k` make of `before`.
structure Tracked (before : List α) (k : Nat) (pairs : List (α × α)) (l : List α) : Prop where
  fst : (pairs.map Prod.fst).Perm before
  snd : pairs.map Prod.snd = l
  kept : ∀ p ∈ pairs, Kept x k p
  decided : ∀ c < k, Decided x hits c pairs

variable {x hits} {before l : List α} {pairs pairs' : List (α × α)} {k c : Nat}

def view (x : Contest α κ β) (c : Nat) (p : α × α) : β × β × κ :=
  (x.score c p.1, x.score c p.2, x.key p.2)

-- A round depends on the scores of its entries and on their keys only, in any order.
theorem Decided.of_perm (hsymm : ∀ a b, hits a b = hits b a) (h : Decided x hits c pairs)
    (hp : (pairs'.map (view x c)).Perm (pairs.map (view x c))) : Decided x hits c pairs' := by
  let R : β × β × κ → β × β × κ → Prop := fun u v =>
    u.2.1 ≠ 0 → v.2.1 ≠ 0 → hits u.2.2 v.2.2 = false
  have hRsymm : ∀ {u v}, R u v → R v u := by
    intro u v huv hv hu
    rw [hsymm]
    exact huv hu hv
  refine ⟨?_, ?_⟩
  · have hR : (pairs.map (view x c)).Pairwise R := List.pairwise_map.mpr h.apart
    exact List.pairwise_map.mp ((hp.pairwise_iff hRsymm).mpr hR)
  · intro p hpm hbefore hafter
    obtain ⟨p', hp', he⟩ := List.mem_map.mp (hp.mem_iff.mp (List.mem_map_of_mem hpm))
    simp only [view, Prod.mk.injEq] at he
    obtain ⟨h1, h2, h3⟩ := he
    obtain ⟨q', hq', hlive, hle, hhit⟩ := h.struck p' hp' (by rwa [h1]) (by rwa [h2])
    obtain ⟨q, hq, he⟩ := List.mem_map.mp (hp.mem_iff.mpr (List.mem_map_of_mem hq'))
    simp only [view, Prod.mk.injEq] at he
    obtain ⟨g1, g2, g3⟩ := he
    exact ⟨q, hq, by rwa [g2], by rwa [g1, ← h1], by rwa [g3, ← h3]⟩

theorem tracked_init (l : List α) : Tracked x hits l 0 (l.map fun a => (a, a)) l := by
  refine ⟨?_, ?_, ?_, nofun⟩
  · rw [List.map_map]
    exact .of_eq (List.map_id l)
  · rw [List.map_map]
    exact List.map_id l
  · intro p hp
    obtain ⟨a, -, rfl⟩ := List.mem_map.mp hp
    exact ⟨rfl, fun _ => .inl rfl, fun _ _ => rfl⟩

theorem Tracked.length_eq (h : Tracked x hits before k pairs l) : l.length = before.length := by
  have hlen := h.fst.length_eq
  rw [List.length_map] at hlen
  rw [← h.snd, List.length_map, hlen]

end Decided

section Sweep

variable [BEq β] {x hits} {pairs : List (α × α)} {k c : Nat}

def Contest.live (x : Contest α κ β) (k : Nat) (a : α) : Bool := !(x.score k a == 0)

-- The sweep of round `k`, carried out on both states of the entries.
def pairSweep (x : Contest α κ β) (hits : κ → κ → Bool) (k : Nat) (pairs : List (α × α)) :
    List (α × α) :=
  sweep (fun p => (x.score k p.1, x.key p.2)) (fun p => x.live k p.2) (fun u v => hits u.2 v.2)
    (fun p => (p.1, x.kill k p.2)) pairs

theorem map_snd_pairSweep : (pairSweep x hits k pairs).map Prod.snd =
    sweep x.key (x.live k) hits (x.kill k) (pairs.map Prod.snd) := by
  rw [pairSweep]
  refine (sweep_map Prod.snd ?_ ?_ ?_ pairs).symm
  · exact fun _ => rfl
  · exact fun _ _ => rfl
  · exact fun _ => rfl

theorem map_fst_pairSweep : (pairSweep x hits k pairs).map Prod.fst = pairs.map Prod.fst := by
  refine map_sweep Prod.fst ?_ pairs
  exact fun _ => rfl

theorem map_view_pairSweep (hc : c ≠ k) :
    (pairSweep x hits k pairs).map (view x c) = pairs.map (view x c) := by
  refine map_sweep (view x c) ?_ pairs
  intro p
  simp only [view, x.score_kill_of_ne k c _ hc, x.key_kill]

variable [LawfulBEq β]

theorem live_iff {a : α} : x.live k a = true ↔ x.score k a ≠ 0 := by simp [Contest.live]

theorem lethal_pair (x : Contest α κ β) (k : Nat) :
    Lethal (fun p : α × α => (x.score k p.1, x.key p.2)) (fun p => x.live k p.2)
      (fun p => (p.1, x.kill k p.2)) := by
  refine ⟨?_, ?_, ?_⟩
  · intro p
    simp [Contest.live, x.score_kill]
  · intro p hp
    have hzero : x.score k p.2 = 0 := by simpa [Contest.live] using hp
    rw [x.kill_idle k p.2 hzero]
  · intro p
    simp only [x.key_kill]

theorem kept_pairSweep (h : ∀ p ∈ pairs, Kept x k p) {y : α × α} (hy : y ∈ pairSweep x hits k pairs) :
    Kept x (k + 1) y := by
  rcases (lethal_pair x k).mem_sweep (R := fun _ _ => True)
    (List.pairwise_of_forall fun _ _ => trivial) hy with hy | ⟨p, hp, -, rfl, -⟩
  · exact (h y hy).succ
  · exact (h p hp).kill

variable [LE β]

-- The order of the sweep makes it strike from higher scores to lower ones only.
theorem decided_pairSweep (h : ∀ p ∈ pairs, Kept x k p)
    (hsorted : pairs.Pairwise fun p q => x.score k q.2 ≤ x.score k p.2) :
    Decided x hits k (pairSweep x hits k pairs) := by
  have hL := lethal_pair x k
  refine ⟨?_, ?_⟩
  · refine (hL.pairwise_sweep pairs).imp ?_
    intro p q hpq hp hq
    exact hpq (live_iff.mpr hp) (live_iff.mpr hq)
  · intro y hy hbefore hafter
    have hR : pairs.Pairwise fun p q => x.score k q.1 ≤ x.score k p.1 := by
      refine hsorted.imp_of_mem ?_
      intro p q hp hq hpq
      rwa [(h p hp).later k (Nat.le_refl k), (h q hq).later k (Nat.le_refl k)] at hpq
    rcases hL.mem_sweep (R := fun a b => b.1 ≤ a.1) hR hy with
      hy | ⟨p, -, -, rfl, w, hw, hwl, hhit, hle⟩
    · exact absurd ((h y hy).later k (Nat.le_refl k) ▸ hafter) hbefore
    · refine ⟨w, hw, live_iff.mp hwl, hle, ?_⟩
      simp only [x.key_kill]
      exact hhit

end Sweep

section Rounds

variable [BEq β] [LawfulBEq β] [LE β] {x hits} {before l m : List α} {pairs : List (α × α)} {k : Nat}

-- One more round.
theorem Tracked.round (hsymm : ∀ a b, hits a b = hits b a) (h : Tracked x hits before k pairs l)
    (hm : Arranged x k l m) :
    ∃ pairs', Tracked x hits before (k + 1) pairs' (sweep x.key (x.live k) hits (x.kill k) m) := by
  have hbase : (pairs.map fun p => (p.1, x.mark k p.2)).map Prod.snd = l.map (x.mark k) := by
    rw [← h.snd, List.map_map, List.map_map]
    rfl
  have hcomp : Relation.Comp (fun u v => u = List.map Prod.snd v) List.Perm m
      (pairs.map fun p => (p.1, x.mark k p.2)) := by
    rw [List.eq_map_comp_perm]
    exact hm.perm.trans (.of_eq hbase.symm)
  obtain ⟨sorted, hsnd, hperm⟩ := hcomp
  have hkept : ∀ p ∈ sorted, Kept x k p := by
    intro p hp
    obtain ⟨p', hp', rfl⟩ := List.mem_map.mp (hperm.mem_iff.mp hp)
    exact (h.kept p' hp').mark
  have hsorted : sorted.Pairwise fun p q => x.score k q.2 ≤ x.score k p.2 := by
    have hs := hm.sorted
    rw [hsnd] at hs
    exact List.pairwise_map.mp hs
  refine ⟨pairSweep x hits k sorted, ?_, ?_, fun p hp => kept_pairSweep hkept hp, ?_⟩
  · rw [map_fst_pairSweep]
    refine (hperm.map Prod.fst).trans ?_
    rw [List.map_map]
    exact h.fst
  · rw [map_snd_pairSweep, ← hsnd]
  · intro c hc
    by_cases hck : c = k
    · subst hck
      exact decided_pairSweep hkept hsorted
    · refine (h.decided c (by omega)).of_perm hsymm ?_
      rw [map_view_pairSweep hck]
      refine (hperm.map (view x c)).trans (.of_eq ?_)
      rw [List.map_map]
      refine List.map_congr_left fun p _ => ?_
      simp only [Function.comp_apply, view, x.score_mark, x.key_mark]

-- All rounds below `n`.
theorem exists_tracked {round : List α → Nat → List α} (hsymm : ∀ a b, hits a b = hits b a)
    (hround : ∀ l k, l.length = before.length → ∃ m, Arranged x k l m ∧
      round l k = sweep x.key (x.live k) hits (x.kill k) m) (n : Nat) :
    ∃ pairs, Tracked x hits before n pairs ((List.range n).foldl round before) := by
  induction n with
  | zero => exact ⟨_, tracked_init before⟩
  | succ n ih =>
      obtain ⟨pairs, h⟩ := ih
      obtain ⟨m, hm, hrun⟩ := hround ((List.range n).foldl round before) n h.length_eq
      rw [List.range_succ, List.foldl_append, List.foldl_cons, List.foldl_nil, hrun]
      exact h.round hsymm hm

end Rounds

end Elimination
