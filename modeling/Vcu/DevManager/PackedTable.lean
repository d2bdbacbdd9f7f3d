import Mathlib.Order.Bounds.Basic
import Vcu.DevManager.OpenClose
import Vcu.DevManager.Registers

namespace Vcu

open Machine BitField

-- The table of indices lies in the words 1, 2, 3, ... of an image.
def packedIndex (bits : Nat) (mapped : Nat → BitVec 32) (i : Nat) : Nat :=
  packed (fun q => mapped (q + 1)) bits i

theorem xdmaIndex_toNat {bits : Nat} (hhigh : bits ≤ 31) (mapped : Nat → BitVec 32) (i : Nat) :
    (xdmaIndex bits mapped i).toNat = packedIndex bits mapped i := by
  have hbits : bits < 32 := by omega
  have hunpack : xdmaIndex bits mapped i = unpack (fun q => mapped (q + 1)) bits i := rfl
  rw [hunpack, toNat_unpack hbits, packedIndex]

theorem packedIndex_lt (bits : Nat) (mapped : Nat → BitVec 32) (i : Nat) :
    packedIndex bits mapped i < 2 ^ bits :=
  Nat.ofBits_lt_two_pow _

section Search

variable {regs : RegStatics} {bits : Nat} {mapped : Nat → BitVec 32} {regIndex : BitVec 32}

theorem RegStatics.index_toNat (hlow : 1 ≤ bits) (hhigh : bits ≤ 31) (hbits : regs.indexBits = bits)
    (hmask : regs.indexMask = (1#32 <<< bits) - 1#32) (mapped : Nat → BitVec 32) (i : Nat) :
    (regs.index mapped i).toNat = packedIndex bits mapped i := by
  rw [index_eq_xdmaIndex hlow hhigh hbits hmask, xdmaIndex_toNat hhigh]

-- The index is an int, and the mask clears its sign.
theorem RegStatics.index_toInt (hlow : 1 ≤ bits) (hhigh : bits ≤ 31) (hbits : regs.indexBits = bits)
    (hmask : regs.indexMask = (1#32 <<< bits) - 1#32) (mapped : Nat → BitVec 32) (i : Nat) :
    (regs.index mapped i).toInt = packedIndex bits mapped i := by
  have hindex := RegStatics.index_toNat hlow hhigh hbits hmask mapped i
  have hlt : packedIndex bits mapped i < 2 ^ 31 :=
    Nat.lt_of_lt_of_le (packedIndex_lt bits mapped i) (Nat.pow_le_pow_right (by decide) hhigh)
  rw [BitVec.toInt_eq_toNat_of_lt (by omega), hindex]

theorem getRegs_of_least {i w : Nat}
    (hi : IsLeast {i : Nat | i < regs.indexNum ∧ regIndex = regs.index mapped i} i)
    (hw : (w : Int) = 1 + regs.indexBytes + i) :
    getRegs regs mapped regIndex = (.ERR_NONE, some (mapped w)) := by
  obtain ⟨⟨hnum, hindex⟩, hleast⟩ := hi
  have hfind : (List.range regs.indexNum.toNat).find? (fun i => regIndex = regs.index mapped i) =
      some i := by
    rw [List.find?_range_eq_some]
    refine ⟨by simpa using hindex, List.mem_range.mpr (by omega), ?_⟩
    intro j hj
    have hne : ¬ regIndex = regs.index mapped j := fun he => by
      have hle := hleast ⟨by omega, he⟩
      omega
    simpa using hne
  rw [getRegs, hfind]
  simp only [← hw, Int.toNat_natCast]

theorem getRegs_invalid_iff :
    (getRegs regs mapped regIndex).1 = .ERR_REG_INDEX_INVALID ↔
      ∀ i : Nat, i < regs.indexNum → regIndex ≠ regs.index mapped i := by
  rw [getRegs]
  constructor
  · intro h i hi he
    cases hfind : (List.range regs.indexNum.toNat).find? fun i => regIndex = regs.index mapped i with
    | none =>
        have hnot := List.find?_eq_none.mp hfind i (List.mem_range.mpr (by omega))
        exact hnot (by simpa using he)
    | some j =>
        rw [hfind] at h
        cases h
  · intro h
    have hfind : (List.range regs.indexNum.toNat).find? (fun i => regIndex = regs.index mapped i) =
        none := by
      rw [List.find?_eq_none]
      intro i hi
      have hi := List.mem_range.mp hi
      simpa using h i (by omega)
    rw [hfind]

end Search

-- What may happen to the shared memory device before a register is read.
inductive ShmEvent where
  | opening (outcome : ShmOutcome)
  | closing
  | reading (request : RegRequest)

def shmStep (charSigned : Bool) (s : Shm) : ShmEvent → Option Shm
  | .opening outcome => some (shmOpen s outcome).state
  | .closing => some (shmClose s).state
  | .reading r => readStep charSigned s r

section Run

variable {charSigned : Bool} {s t : Shm} {e : ShmEvent} {events : List ShmEvent}

theorem shmOpen_regs (s : Shm) (o : ShmOutcome) : (shmOpen s o).state.regs = s.regs := by
  rw [shmOpen]
  dsimp only
  repeat' split
  all_goals rfl

-- The static variables come from one of the images read so far, whatever was opened and closed.
theorem shmStep_regs (h : shmStep charSigned s e = some t) :
    t.regs = s.regs ∨ ∃ r, e = .reading r ∧ s.regs = none ∧ t.regs = some (.ofMapped charSigned r.mapped) := by
  cases e with
  | opening o =>
      cases h
      exact .inl (shmOpen_regs s o)
  | closing =>
      cases h
      exact .inl rfl
  | reading r =>
      cases h
      rw [shmReadReg]
      by_cases hopened : s.isShmDevOpened = true
      · rw [if_neg (not_not.mpr hopened)]
        by_cases hbase : s.devMemAddrReg = nullptr
        · rw [if_pos hbase]
          exact .inl rfl
        · rw [if_neg hbase]
          cases hregs : s.regs with
          | none => exact .inr ⟨r, rfl, rfl, rfl⟩
          | some regs => exact .inl rfl
      · rw [if_pos hopened]
        exact .inl rfl

theorem regs_of_run (hs : s.regs = none) (h : run (shmStep charSigned) s events = some t) :
    t.regs = none ∨ ∃ r, .reading r ∈ events ∧ t.regs = some (.ofMapped charSigned r.mapped) := by
  refine run_invariant (fun events t => t.regs = none ∨
    ∃ r, .reading r ∈ events ∧ t.regs = some (.ofMapped charSigned r.mapped)) (.inl hs) ?_ h
  intro events u e t ih hstep
  rcases shmStep_regs hstep with hregs | ⟨r, rfl, -, hregs⟩
  · rw [hregs]
    rcases ih with hnone | ⟨r, hr, hregs⟩
    · exact .inl hnone
    · exact .inr ⟨r, List.mem_append_left _ hr, hregs⟩
  · exact .inr ⟨r, List.mem_append_right _ List.mem_cons_self, hregs⟩

theorem exists_first_image (hs : s.regs = none) (h : run (shmStep charSigned) s events = some t)
    (mapped : Nat → BitVec 32) :
    ∃ first, t.regs.getD (.ofMapped charSigned mapped) = .ofMapped charSigned first ∧
      (first = mapped ∨ ∃ r, .reading r ∈ events ∧ first = r.mapped) := by
  rcases regs_of_run hs h with hregs | ⟨r, hr, hregs⟩
  · exact ⟨mapped, by rw [hregs]; rfl, .inl rfl⟩
  · exact ⟨r.mapped, by rw [hregs]; rfl, .inr ⟨r, hr, rfl⟩⟩

theorem ofMapped_mask {first : Nat → BitVec 32} {bits : Nat}
    (hbits : (RegStatics.ofMapped charSigned first).indexBits = bits) :
    (RegStatics.ofMapped charSigned first).indexMask = (1#32 <<< bits) - 1#32 := by
  have hbits : charToInt charSigned (ptr first 0) = bits := hbits
  show (1#32 <<< (charToInt charSigned (ptr first 0)).toNat) - 1#32 = (1#32 <<< bits) - 1#32
  rw [hbits, Int.toNat_natCast]

-- After any session an opened device finds the first entry of the table whose bits spell the index.
theorem shmReadReg_unpacks {r : RegRequest} {bits : Nat} (h : run (shmStep charSigned) {} events = some t)
    (hopened : t.isShmDevOpened = true) (hbase : t.devMemAddrReg ≠ nullptr)
    (hbits : (t.regs.getD (.ofMapped charSigned r.mapped)).indexBits = bits) (hlow : 1 ≤ bits)
    (hhigh : bits ≤ 31) :
    let regs := t.regs.getD (.ofMapped charSigned r.mapped)
    let entries := {i : Nat | i < regs.indexNum ∧ packedIndex bits r.mapped i = r.regIndex.toNat}
    (∃ first, regs = .ofMapped charSigned first ∧
        (first = r.mapped ∨ ∃ q, .reading q ∈ events ∧ first = q.mapped)) ∧
      (∀ i : Nat, i < regs.indexNum → (regs.index r.mapped i).toInt = packedIndex bits r.mapped i) ∧
      (∀ i w : Nat, IsLeast entries i → (w : Int) = 1 + regs.indexBytes + i →
        (shmReadReg charSigned t r.mapped r.regIndex).2 = (.ERR_NONE, some (r.mapped w))) ∧
      ((shmReadReg charSigned t r.mapped r.regIndex).2.1 = .ERR_REG_INDEX_INVALID ↔ entries = ∅) := by
  intro regs entries
  obtain ⟨first, hfirst, hread⟩ := exists_first_image (s := {}) rfl h r.mapped
  have hmask : regs.indexMask = (1#32 <<< bits) - 1#32 := by
    have hbits' := hbits
    rw [hfirst] at hbits'
    show (t.regs.getD (.ofMapped charSigned r.mapped)).indexMask = _
    rw [hfirst, ofMapped_mask hbits']
  have hindex := RegStatics.index_toNat hlow hhigh hbits hmask r.mapped
  have hentries : ∀ i : Nat, i ∈ entries ↔ i < regs.indexNum ∧ r.regIndex = regs.index r.mapped i := by
    intro i
    rw [Set.mem_ofPred_eq, ← hindex, BitVec.toNat_inj, eq_comm]
  rw [shmReadReg_of_opened hopened hbase]
  refine ⟨⟨first, hfirst, hread⟩, ?_, ?_, ?_⟩
  · intro i _
    exact RegStatics.index_toInt hlow hhigh hbits hmask r.mapped i
  · intro i w hi hw
    have hset : entries = {i : Nat | i < regs.indexNum ∧ r.regIndex = regs.index r.mapped i} :=
      Set.ext hentries
    rw [hset] at hi
    exact getRegs_of_least hi hw
  · rw [getRegs_invalid_iff, Set.eq_empty_iff_forall_notMem]
    constructor
    · intro hnone i hi
      obtain ⟨hnum, he⟩ := (hentries i).mp hi
      exact hnone i hnum he
    · intro hempty i hnum he
      exact hempty i ((hentries i).mpr ⟨hnum, he⟩)

end Run

def completeShm : ShmOutcome where
  reg := some 3
  regBase := some page
  mem := some 4
  memBase := some page
  memBase2 := some page

-- Entries of 12 bits for the indices 0xabc, 0x123 and 0xf8f. The first word is negative, and the third
-- entry lies in it and in the second word. The values stand behind 130 words.
def threeRegisters : Nat → BitVec 32
  | 0 => 0x0082030c
  | 1 => 0x8f123abc
  | 2 => 0x0000000f
  | 131 => 100
  | 132 => 200
  | 133 => 300
  | _ => 0

def readingShm : Shm where
  devMemAddrReg := 4096
  devMemAddrShm := 4096
  devMemAddrShm2 := 4096
  fdRegDev := 3
  fdShmDev := 4
  isShmDevOpened := true
  regs := some (.ofMapped false threeRegisters)

theorem shmReadReg_unpacks_three :
    run (shmStep false) {} [.opening completeShm, .reading ⟨threeRegisters, 0x123⟩] = some readingShm ∧
      (shmReadReg false readingShm threeRegisters 0xf8f).2 = (.ERR_NONE, some 300) := by
  have hrun : run (shmStep false) {} [.opening completeShm, .reading ⟨threeRegisters, 0x123⟩] =
      some readingShm := rfl
  have hbits : (readingShm.regs.getD (.ofMapped false threeRegisters)).indexBits = (12 : Nat) := by decide
  obtain ⟨-, -, hfound, -⟩ := shmReadReg_unpacks (r := ⟨threeRegisters, 0xf8f⟩) hrun rfl (by decide) hbits
    (by decide) (by decide)
  refine ⟨hrun, hfound 2 133 ⟨by decide, ?_⟩ (by decide)⟩
  intro i hi
  by_contra hlt
  have hi' : i = 0 ∨ i = 1 := by omega
  rcases hi' with rfl | rfl
  · exact absurd hi (by decide)
  · exact absurd hi (by decide)

end Vcu
