import Vcu.DmaUtils

namespace Vcu

open Blit

-- What the loop relies on. A transfer in two parts is one transfer.
structure Moves (move : Transfer → Nat → Nat → Transfer) : Prop where
  pos : ∀ t count k, (move t count k).pos = t.pos + k
  zero : ∀ t count, move t count 0 = t
  append : ∀ t count m n, move (move t count m) (count + m) n = move t count (m + n)

theorem moves_read : Moves Transfer.read := by
  refine ⟨fun _ _ _ => rfl, ?_, ?_⟩
  · intro t count
    simp only [Transfer.read, blit_zero, Nat.add_zero]
  · intro t count m n
    simp only [Transfer.read, blit_append, Nat.add_assoc]

theorem moves_write : Moves Transfer.write := by
  refine ⟨fun _ _ _ => rfl, ?_, ?_⟩
  · intro t count
    simp only [Transfer.write, blit_zero, Nat.add_zero]
  · intro t count m n
    simp only [Transfer.write, blit_append, Nat.add_assoc]

-- The rounds from a given one on do all that they are asked to.
def CompleteFrom (outcome : Nat → RoundOutcome) (size base round count : Nat) : Prop :=
  ∀ i, count + i * RW_MAX_SIZE < size →
    (base + count + i * RW_MAX_SIZE ≠ 0 → (outcome (round + i)).seek = true) ∧
      ∃ k, (outcome (round + i)).moved = some k ∧
        min (size - (count + i * RW_MAX_SIZE)) RW_MAX_SIZE ≤ k

section Rounds

variable {move : Transfer → Nat → Nat → Transfer} {outcome : Nat → RoundOutcome}
  {size base round count : Nat} {t : Transfer}

theorem completeFrom_iff (hlt : count < size) :
    CompleteFrom outcome size base round count ↔
      ((base + count ≠ 0 → (outcome round).seek = true) ∧
        ∃ k, (outcome round).moved = some k ∧ min (size - count) RW_MAX_SIZE ≤ k) ∧
      CompleteFrom outcome size base (round + 1) (count + min (size - count) RW_MAX_SIZE) := by
  have hmax : 0 < RW_MAX_SIZE := by decide
  constructor
  · intro h
    refine ⟨?_, ?_⟩
    · have h0 := h 0 (by omega)
      simp only [Nat.zero_mul, Nat.add_zero] at h0
      exact h0
    · intro i hi
      have hfull : min (size - count) RW_MAX_SIZE = RW_MAX_SIZE := by omega
      rw [hfull] at hi ⊢
      have hi' := h (i + 1) (by rw [Nat.succ_mul]; omega)
      rw [Nat.succ_mul] at hi'
      have h1 : base + (count + RW_MAX_SIZE) + i * RW_MAX_SIZE =
          base + count + (i * RW_MAX_SIZE + RW_MAX_SIZE) := by omega
      have h2 : count + RW_MAX_SIZE + i * RW_MAX_SIZE =
          count + (i * RW_MAX_SIZE + RW_MAX_SIZE) := by omega
      have h3 : round + 1 + i = round + (i + 1) := by omega
      rw [h1, h2, h3]
      exact hi'
  · rintro ⟨hnow, hlater⟩ i hi
    cases i with
    | zero =>
        simp only [Nat.zero_mul, Nat.add_zero]
        exact hnow
    | succ i =>
        rw [Nat.succ_mul] at hi ⊢
        have hfull : min (size - count) RW_MAX_SIZE = RW_MAX_SIZE := by omega
        rw [hfull] at hlater
        have hi' := hlater i (by omega)
        have h1 : base + count + (i * RW_MAX_SIZE + RW_MAX_SIZE) =
            base + (count + RW_MAX_SIZE) + i * RW_MAX_SIZE := by omega
        have h2 : count + (i * RW_MAX_SIZE + RW_MAX_SIZE) =
            count + RW_MAX_SIZE + i * RW_MAX_SIZE := by omega
        have h3 : round + (i + 1) = round + 1 + i := by omega
        rw [h1, h2, h3]
        exact hi'

theorem completeFrom_of_le (h : size ≤ count) : CompleteFrom outcome size base round count := by
  intro i hi
  omega

-- What a transfer has done when it is over: a part of the work, or all of it.
structure Done (move : Transfer → Nat → Nat → Transfer) (t : Transfer) (size count : Nat)
    (complete : Prop) (result : Transfer × Int) : Prop where
  moved : ∃ k, k ≤ size - count ∧ result.1 = move t count k ∧ (result.2 = size → k = size - count)
  ret : result.2 = size ∨ result.2 = - EIO
  complete_iff : result.2 = size ↔ complete

theorem neg_eio_ne : - EIO ≠ (size : Int) := by
  rw [ EIO]
  omega

theorem Done.failed {complete : Prop} {k : Nat} (hk : k ≤ size - count) (hincomplete : ¬ complete) :
    Done move t size count complete (move t count k, - EIO) :=
  ⟨⟨k, hk, rfl, fun h => absurd h neg_eio_ne⟩, .inr rfl, iff_of_false neg_eio_ne hincomplete⟩

theorem Done.untouched (hmove : Moves move) {complete : Prop} (hincomplete : ¬ complete) :
    Done move t size count complete (t, - EIO) := by
  have h : Done move t size count complete (move t count 0, - EIO) :=
    Done.failed (Nat.zero_le _) hincomplete
  rwa [hmove.zero] at h

-- From the second round on the position is where lseek sets it.
theorem transferLoop_spec (hmove : Moves move) (hpos : t.pos = base + count)
    (hcount : count ≤ size) (hlt : base + size < 2 ^ 63) :
    Done move t size count (CompleteFrom outcome size base round count)
      (transferLoop move outcome size base round count t) := by
  induction hm : size - count using Nat.strongRecOn generalizing count t round with
  | ind m ih =>
      have hmax : 0 < RW_MAX_SIZE := by decide
      rw [transferLoop]
      split
      · rename_i hless
        have hoffset : (base + count) % 2 ^ 64 = base + count := Nat.mod_eq_of_lt (by omega)
        have hstay : t.lseek (base + count) = t := by
          rw [← hpos]
          rfl
        simp only [hoffset, hstay, ite_self]
        rw [completeFrom_iff hless]
        split
        · rename_i hfail
          refine Done.untouched hmove ?_
          rintro ⟨⟨hok, -⟩, -⟩
          rcases hfail.2 with hfail2 | hfail2
          · rw [hok hfail.1] at hfail2
            cases hfail2
          · omega
        rename_i hseek
        split
        · rename_i hnone
          refine Done.untouched hmove ?_
          rintro ⟨⟨-, k, hk, -⟩, -⟩
          rw [hnone] at hk
          cases hk
        · rename_i k hsome
          split
          · rename_i hfull
            rw [hfull]
            have hnext : (move t count (min (size - count) RW_MAX_SIZE)).pos =
                base + (count + min (size - count) RW_MAX_SIZE) := by
              rw [hmove.pos, hpos]
              omega
            obtain ⟨⟨j, hj, hresult, hall⟩, hret, hiff⟩ :=
              ih (size - (count + min (size - count) RW_MAX_SIZE)) (by omega) hnext (by omega) rfl
            refine ⟨⟨min (size - count) RW_MAX_SIZE + j, by omega, ?_, ?_⟩, hret, ?_⟩
            · rw [hresult, hmove.append]
            · intro hs
              have := hall hs
              omega
            · rw [hiff]
              refine (and_iff_right ⟨?_, k, hsome, by omega⟩).symm
              intro hne
              by_contra hfalse
              exact hseek ⟨hne, .inl (Bool.eq_false_iff.mpr hfalse)⟩
          · rename_i hshort
            refine Done.failed (by omega) ?_
            rintro ⟨⟨-, k', hk', hle⟩, -⟩
            rw [hsome] at hk'
            obtain rfl := Option.some.inj hk'
            omega
      · rename_i hnot
        have hzero := hmove.zero t count
        refine ⟨⟨0, Nat.zero_le _, hzero.symm, fun _ => by omega⟩, .inl ?_, ?_⟩
        · show (count : Int) = size
          omega
        · exact iff_of_true (by show (count : Int) = size; omega) (completeFrom_of_le (by omega))

-- What a transfer leaves behind. Up to `size` bytes went to where it starts.
structure Transferred (move : Transfer → Nat → Nat → Transfer) (t : Transfer) (size start : Nat)
    (complete : Prop) (result : Transfer × Int) : Prop where
  moved : ∃ k, k ≤ size ∧ (k = 0 ∧ result.1 = t ∨ result.1 = move (t.lseek start) 0 k) ∧
    (result.2 = size → k = size)
  ret : result.2 = size ∨ result.2 = - EIO
  complete_iff : result.2 = size ↔ complete

theorem Done.transferred {complete : Prop} {result : Transfer × Int} {start : Nat}
    (h : Done move (t.lseek start) size 0 complete result) :
    Transferred move t size start complete result := by
  obtain ⟨⟨k, hk, hresult, hall⟩, hret, hiff⟩ := h
  exact ⟨⟨k, hk, .inr hresult, hall⟩, hret, hiff⟩

theorem Done.unmoved {complete : Prop} {result : Transfer × Int} {start : Nat}
    (h : Done move t size 0 complete result) (hresult : result.1 = t) (hret : result.2 = size → size = 0) :
    Transferred move t size start complete result :=
  ⟨⟨0, Nat.zero_le _, .inl ⟨rfl, hresult⟩, fun hs => (hret hs).symm⟩, h.ret, h.complete_iff⟩

-- The first round of a transfer to a nonzero offset forgets the position.
theorem transferLoop_lseek (hbase : base ≠ 0) (hsize : 0 < size) (hlt : base + size < 2 ^ 63)
    (hseek : (outcome 0).seek = true) :
    transferLoop move outcome size base 0 0 t =
      transferLoop move outcome size base 0 0 (t.lseek base) := by
  have hoffset : (base + 0) % 2 ^ 64 = base := Nat.mod_eq_of_lt (by omega)
  have hlow : ¬ 2 ^ 63 ≤ base := by omega
  rw [transferLoop, transferLoop, if_pos hsize, if_pos hsize]
  simp only [hoffset, hbase, hseek, hlow, ne_eq, not_false_eq_true, Bool.true_eq_false, or_self,
    and_false, if_false, if_true]
  rfl

-- One round that does not seek goes to the position.
theorem transferLoop_once (hmove : Moves move) (hsize : size ≤ RW_MAX_SIZE) :
    Done move t size 0 (CompleteFrom outcome size 0 0 0)
      (transferLoop move outcome size 0 0 0 t) := by
  rw [transferLoop]
  split
  · rename_i hless
    have hbytes : min (size - 0) RW_MAX_SIZE = size := by omega
    rw [completeFrom_iff hless]
    simp only [hbytes, Nat.zero_add, Nat.zero_mod, ne_eq, not_true_eq_false, false_and, if_false]
    split
    · rename_i hnone
      refine Done.untouched hmove ?_
      rintro ⟨⟨-, k, hk, -⟩, -⟩
      rw [hnone] at hk
      cases hk
    · rename_i k hsome
      split
      · rename_i hfull
        rw [transferLoop, if_neg (Nat.lt_irrefl size), hfull]
        refine ⟨⟨size, Nat.le_refl _, rfl, fun _ => rfl⟩, .inl rfl, iff_of_true rfl ⟨⟨?_, ?_⟩, ?_⟩⟩
        · exact False.elim
        · exact ⟨k, hsome, by omega⟩
        · exact completeFrom_of_le (Nat.le_refl _)
      · refine Done.failed (by omega) ?_
        rintro ⟨⟨-, k', hk', hle⟩, -⟩
        rw [hsome] at hk'
        obtain rfl := Option.some.inj hk'
        omega
  · rename_i hnot
    obtain rfl : size = 0 := by omega
    exact ⟨⟨0, Nat.le_refl _, (hmove.zero t 0).symm, fun _ => rfl⟩, .inl rfl,
      iff_of_true rfl (completeFrom_of_le (Nat.le_refl _))⟩

-- Without an offset a transfer starts at the position, which the second round would not.
theorem transferLoop_transferred (hmove : Moves move) (hlt : base + size < 2 ^ 63)
    (hstart : base ≠ 0 ∨ t.pos = 0 ∨ size ≤ RW_MAX_SIZE) :
    Transferred move t size (if base ≠ 0 then base else t.pos)
      (CompleteFrom outcome size base 0 0) (transferLoop move outcome size base 0 0 t) := by
  have hhere : t.lseek t.pos = t := rfl
  by_cases hbase : base = 0
  · subst hbase
    rw [if_neg (not_not_intro rfl)]
    rcases hstart with hstart | hstart | hstart
    · exact absurd rfl hstart
    · refine Done.transferred ?_
      rw [hhere]
      exact transferLoop_spec hmove (by omega) (Nat.zero_le _) hlt
    · refine Done.transferred ?_
      rw [hhere]
      exact transferLoop_once hmove hstart
  rw [if_pos hbase]
  by_cases hsize : size = 0
  · subst hsize
    rw [transferLoop, if_neg (Nat.lt_irrefl 0)]
    refine Done.unmoved ⟨⟨0, Nat.le_refl _, (hmove.zero t 0).symm, fun _ => rfl⟩, .inl rfl, ?_⟩ rfl
      fun _ => rfl
    exact iff_of_true rfl (completeFrom_of_le (Nat.le_refl _))
  have hpos : 0 < size := Nat.pos_of_ne_zero hsize
  cases hseek : (outcome 0).seek with
  | true =>
      rw [transferLoop_lseek hbase hpos hlt hseek]
      exact (transferLoop_spec hmove rfl (Nat.zero_le _) hlt).transferred
  | false =>
      have hoffset : (base + 0) % 2 ^ 64 = base := Nat.mod_eq_of_lt (by omega)
      rw [transferLoop, if_pos hpos]
      simp only [hoffset, hbase, hseek, ne_eq, not_false_eq_true, true_or, and_self, if_true]
      refine Done.unmoved (Done.untouched hmove ?_) rfl fun h => absurd h neg_eio_ne
      intro h
      have h0 := (h 0 (by omega)).1 (by omega)
      rw [hseek] at h0
      cases h0

end Rounds

-- Every system call of a transfer does all that it is asked to.
def Complete (outcome : Nat → RoundOutcome) (size base : UInt64) : Prop :=
  CompleteFrom outcome size.toNat base.toNat 0 0

-- A transfer that has an address to go to, or one round.
def Addressed (size base : UInt64) (t : Transfer) : Prop :=
  base.toNat + size.toNat < 2 ^ 63 ∧ (base ≠ 0 ∨ t.pos = 0 ∨ size.toNat ≤ RW_MAX_SIZE)

section Transfers

variable {outcome : Nat → RoundOutcome} {size base : UInt64} {t : Transfer}

theorem writeFromBuffer_transferred (h : Addressed size base t) :
    Transferred Transfer.write t size.toNat (t.start base) (Complete outcome size base)
      (writeFromBuffer outcome size base t) := by
  refine transferLoop_transferred moves_write h.1 (h.2.imp_left ?_)
  exact fun hne h0 => hne (UInt64.toNat_inj.mp h0)

theorem readToBuffer_transferred (h : Addressed size base t) :
    Transferred Transfer.read t size.toNat (t.start base) (Complete outcome size base)
      (readToBuffer outcome size base t) := by
  refine transferLoop_transferred moves_read h.1 (h.2.imp_left ?_)
  exact fun hne h0 => hne (UInt64.toNat_inj.mp h0)

end Transfers

end Vcu
