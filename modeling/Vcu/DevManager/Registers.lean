import Vcu.Lib.BitField
import Vcu.Lib.Machine
import Vcu.Shm
import Vcu.Xdma

namespace Vcu

open Machine BitField

-- The registers of an image with their indices, in the order of the table.
def regTable (mapped : Nat → BitVec 32) : List (BitVec 32 × BitVec 32) :=
  (List.range (ptr mapped 1).toNat).map fun i =>
    (xdmaIndex (ptr mapped 0).toNat mapped i, mapped (1 + (ptr mapped 2).toNat + i))

section Lookup

variable {α β ι : Type*} [DecidableEq α] {f : ι → α × β} {k : α}

theorem lookup_map (l : List ι) :
    (l.map f).lookup k = (l.find? fun i => k = (f i).1).map fun i => (f i).2 := by
  induction l with
  | nil => rfl
  | cons i l ih =>
      rw [List.map_cons, List.lookup_cons, List.find?_cons]
      by_cases hi : k = (f i).1
      · simp [hi]
      · rw [beq_false_of_ne hi, decide_eq_false hi]
        exact ih

-- A loop without a break keeps the last match.
theorem foldl_eq_lookup_reverse (l : List ι) :
    l.foldl (fun out i => if (f i).1 = k then some (f i).2 else out) none =
      (l.map f).reverse.lookup k := by
  induction l using List.reverseRecOn with
  | nil => rfl
  | append_singleton l i ih =>
      rw [List.foldl_concat, List.map_append, List.map_singleton, List.reverse_concat, List.lookup_cons,
        ih]
      by_cases hi : (f i).1 = k
      · simp [hi]
      · rw [beq_false_of_ne (Ne.symm hi), if_neg hi]

end Lookup

-- The two ways to cut an entry out of signed and of unsigned words.
theorem index_eq_xdmaIndex {regs : RegStatics} {bits : Nat} (hlow : 1 ≤ bits) (hhigh : bits ≤ 31)
    (hbits : regs.indexBits = bits) (hmask : regs.indexMask = (1#32 <<< bits) - 1#32)
    (mapped : Nat → BitVec 32) (i : Nat) :
    regs.index mapped i = xdmaIndex bits mapped i := by
  have hdiv : ((i : Int) * bits).tdiv 32 + 1 = ((i * bits / 32 + 1 : Nat) : Int) := by
    rw [← Int.natCast_mul]
    rfl
  have hmod : ((i : Int) * bits).tmod 32 = ((i * bits % 32 : Nat) : Int) := by
    rw [← Int.natCast_mul]
    rfl
  rw [RegStatics.index, xdmaIndex, hbits, hmask, hdiv, hmod]
  have hshift : i * bits % 32 < 32 := Nat.mod_lt _ (by decide)
  generalize i * bits % 32 = shiftBits at hshift
  generalize i * bits / 32 + 1 = mappedIndex
  have hnext : ((mappedIndex : Int) + 1).toNat = mappedIndex + 1 := rfl
  have hrest : ((32 : Int) - shiftBits).toNat = 32 - shiftBits := by omega
  have hover : ((shiftBits : Int) + bits - 32).toNat = shiftBits + bits - 32 := by omega
  simp only [hnext, hrest, hover, Int.toNat_natCast]
  by_cases hsplit : shiftBits + bits > 32
  · rw [if_pos hsplit, if_pos (by omega), sshiftRight_and_mask _ (by omega) (by omega)]
  · rw [if_neg hsplit, if_neg (by omega), sshiftRight_and_mask _ (by omega) (by omega)]

-- The first three bytes of an image.
structure RegHeader where
  indexBits : BitVec 8
  indexNum : BitVec 8
  indexBytes : BitVec 8

structure RegHeader.Valid (h : RegHeader) : Prop where
  bits_pos : 1 ≤ h.indexBits.toNat
  bits_le : h.indexBits.toNat ≤ 31
  num_le : h.indexNum.toNat ≤ 127
  bytes_le : h.indexBytes.toNat ≤ 127

def RegHeader.Of (h : RegHeader) (mapped : Nat → BitVec 32) : Prop :=
  ptr mapped 0 = h.indexBits ∧ ptr mapped 1 = h.indexNum ∧ ptr mapped 2 = h.indexBytes

section Read

variable {charSigned : Bool} {h : RegHeader} {s : Shm} {x : Xdma} {first mapped : Nat → BitVec 32} {regIndex : BitVec 32}

-- A small char is the same number on every target.
theorem charToInt_of_le {b : BitVec 8} (hb : b.toNat ≤ 127) : charToInt charSigned b = b.toNat := by
  rw [charToInt]
  split
  · exact BitVec.toInt_eq_toNat_of_lt (by omega)
  · rfl

-- getRegs looks the index up from the front, with the header of the image it saw first.
theorem getRegs_eq_lookup (hvalid : h.Valid) (hfirst : h.Of first) (hmapped : h.Of mapped) :
    getRegs (.ofMapped charSigned first) mapped regIndex =
      match (regTable mapped).lookup regIndex with
      | some v => (.ERR_NONE, some v)
      | none => (.ERR_REG_INDEX_INVALID, none) := by
  have hbits : (RegStatics.ofMapped charSigned first).indexBits = h.indexBits.toNat := by
    rw [RegStatics.ofMapped, hfirst.1, charToInt_of_le (Nat.le_trans hvalid.bits_le (by decide))]
  have hmask : (RegStatics.ofMapped charSigned first).indexMask = (1#32 <<< h.indexBits.toNat) - 1#32 := by
    rw [RegStatics.ofMapped, hfirst.1, charToInt_of_le (Nat.le_trans hvalid.bits_le (by decide)),
      Int.toNat_natCast]
  have hnum : (RegStatics.ofMapped charSigned first).indexNum.toNat = h.indexNum.toNat := by
    rw [RegStatics.ofMapped, hfirst.2.1, charToInt_of_le hvalid.num_le, Int.toNat_natCast]
  have hbytes : (RegStatics.ofMapped charSigned first).indexBytes = h.indexBytes.toNat := by
    rw [RegStatics.ofMapped, hfirst.2.2, charToInt_of_le hvalid.bytes_le]
  have hindex := index_eq_xdmaIndex hvalid.bits_pos hvalid.bits_le hbits hmask mapped
  rw [getRegs, regTable, lookup_map, hmapped.1, hmapped.2.1, hmapped.2.2, hnum]
  simp only [hindex]
  cases (List.range h.indexNum.toNat).find? fun i =>
      decide (regIndex = xdmaIndex h.indexBits.toNat mapped i) with
  | none => rfl
  | some i =>
      have hvalue : (1 + (RegStatics.ofMapped charSigned first).indexBytes + (i : Int)).toNat =
          1 + h.indexBytes.toNat + i := by
        rw [hbytes]
        omega
      simp only [hvalue]
      rfl

-- xdma_read_reg looks it up from the back.
theorem xdmaReadReg_eq_lookup (hopened : x.isXdmaDevOpened = true) (hbase : x.dmaRegBase ≠ nullptr) :
    xdmaReadReg x mapped regIndex =
      some (if regTable mapped = [] then (.ERR_NORM, none)
        else (.ERR_NONE, (regTable mapped).reverse.lookup regIndex)) := by
  have hnil : regTable mapped = [] ↔ (ptr mapped 1).toNat = 0 := by
    rw [regTable, List.map_eq_nil_iff, List.range_eq_nil]
  rw [xdmaReadReg, if_neg (not_not.mpr hopened), if_neg hbase]
  by_cases hzero : (ptr mapped 1).toNat = 0
  · rw [if_pos (hnil.mpr hzero)]
    exact if_pos hzero
  · rw [if_neg (mt hnil.mp hzero), regTable, ← foldl_eq_lookup_reverse]
    exact if_neg hzero

end Read

structure RegRequest where
  mapped : Nat → BitVec 32
  regIndex : BitVec 32

-- Two reads agree on success and then on the value, and success comes with a value.
structure SameRead (a b : ErrorCode × Option (BitVec 32)) : Prop where
  success : a.1 = .ERR_NONE ↔ b.1 = .ERR_NONE
  data : a.1 = .ERR_NONE → b.1 = .ERR_NONE → a.2 = b.2
  stored : (a.1 = .ERR_NONE → a.2.isSome) ∧ (b.1 = .ERR_NONE → b.2.isSome)

-- The index is there, and its first and its last entry have the same value.
def Unambiguous (table : List (BitVec 32 × BitVec 32)) (regIndex : BitVec 32) : Prop :=
  ∃ v, table.lookup regIndex = some v ∧ table.reverse.lookup regIndex = some v

theorem sameRead_iff (table : List (BitVec 32 × BitVec 32)) (regIndex : BitVec 32) :
    SameRead
        (match table.lookup regIndex with
          | some v => (.ERR_NONE, some v)
          | none => (.ERR_REG_INDEX_INVALID, none))
        (if table = [] then (.ERR_NORM, none) else (.ERR_NONE, table.reverse.lookup regIndex)) ↔
      table = [] ∨ Unambiguous table regIndex := by
  by_cases hnil : table = []
  · subst hnil
    refine iff_of_true ⟨iff_of_false ErrorCode.noConfusion ErrorCode.noConfusion, nofun, ?_⟩ (.inl rfl)
    exact ⟨nofun, nofun⟩
  · rw [if_neg hnil, or_iff_right hnil, Unambiguous]
    cases table.lookup regIndex with
    | none =>
        refine iff_of_false (fun hsame => ?_) (fun ⟨v, hv, _⟩ => nomatch hv)
        exact ErrorCode.noConfusion (hsame.success.mpr rfl)
    | some v =>
        constructor
        · intro hsame
          exact ⟨v, rfl, (hsame.data rfl rfl).symm⟩
        · rintro ⟨w, hw, hlast⟩
          obtain rfl := Option.some.inj hw
          rw [hlast]
          exact ⟨Iff.rfl, fun _ _ => rfl, fun _ => rfl, fun _ => rfl⟩

def readStep (charSigned : Bool) (s : Shm) (r : RegRequest) : Option Shm :=
  some (shmReadReg charSigned s r.mapped r.regIndex).1

-- An opened device that has seen only images with the header.
structure Reading (charSigned : Bool) (h : RegHeader) (s : Shm) : Prop where
  opened : s.isShmDevOpened = true
  base : s.devMemAddrReg ≠ nullptr
  regs : ∀ regs, s.regs = some regs → ∃ first, h.Of first ∧ regs = .ofMapped charSigned first

section Run

variable {charSigned : Bool} {h : RegHeader} {s t : Shm} {x : Xdma} {r : RegRequest} {requests : List RegRequest}

-- The images that a read may still see the header of.
theorem Reading.exists_first (hs : Reading charSigned h s) {mapped : Nat → BitVec 32} (hmapped : h.Of mapped) :
    ∃ first, h.Of first ∧ s.regs.getD (.ofMapped charSigned mapped) = .ofMapped charSigned first := by
  cases hregs : s.regs with
  | none => exact ⟨mapped, hmapped, rfl⟩
  | some regs => exact hs.regs regs hregs

theorem shmReadReg_of_opened (hopened : s.isShmDevOpened = true) (hbase : s.devMemAddrReg ≠ nullptr)
    (mapped : Nat → BitVec 32) (regIndex : BitVec 32) :
    shmReadReg charSigned s mapped regIndex =
      ({ s with regs := some (s.regs.getD (.ofMapped charSigned mapped)) },
        getRegs (s.regs.getD (.ofMapped charSigned mapped)) mapped regIndex) := by
  rw [shmReadReg, if_neg (not_not.mpr hopened), if_neg hbase]

theorem Reading.shmReadReg_eq (hs : Reading charSigned h s) (mapped : Nat → BitVec 32) (regIndex : BitVec 32) :
    shmReadReg charSigned s mapped regIndex =
      ({ s with regs := some (s.regs.getD (.ofMapped charSigned mapped)) },
        getRegs (s.regs.getD (.ofMapped charSigned mapped)) mapped regIndex) :=
  shmReadReg_of_opened hs.opened hs.base mapped regIndex

theorem Reading.step (hs : Reading charSigned h s) (hr : h.Of r.mapped)
    (ht : readStep charSigned s r = some t) : Reading charSigned h t := by
  obtain ⟨first, hfirst, hregs⟩ := hs.exists_first hr
  rw [readStep, hs.shmReadReg_eq, hregs] at ht
  cases ht
  exact ⟨hs.opened, hs.base, fun regs he => ⟨first, hfirst, (Option.some.inj he).symm⟩⟩

theorem Reading.run (hs : Reading charSigned h s) (hrequests : ∀ r ∈ requests, h.Of r.mapped) :
    ∃ t, run (readStep charSigned) s requests = some t ∧ Reading charSigned h t := by
  induction requests generalizing s with
  | nil => exact ⟨s, rfl, hs⟩
  | cons r requests ih =>
      have hnext := hs.step (hrequests r List.mem_cons_self) rfl
      rw [run_cons, readStep, Option.bind_some]
      exact ih hnext fun q hq => hrequests q (List.mem_cons_of_mem _ hq)

-- What both back ends do with one request.
def ReadAlike (charSigned : Bool) (x : Xdma) (s : Shm) (r : RegRequest) : Prop :=
  ∃ read, xdmaReadReg x r.mapped r.regIndex = some read ∧
    SameRead (shmReadReg charSigned s r.mapped r.regIndex).2 read

theorem readAlike_iff (hvalid : h.Valid) (hs : Reading charSigned h s) (hopened : x.isXdmaDevOpened = true)
    (hbase : x.dmaRegBase ≠ nullptr) (hr : h.Of r.mapped) :
    ReadAlike charSigned x s r ↔
      regTable r.mapped = [] ∨ Unambiguous (regTable r.mapped) r.regIndex := by
  obtain ⟨first, hfirst, hregs⟩ := hs.exists_first hr
  rw [ReadAlike, xdmaReadReg_eq_lookup hopened hbase, hs.shmReadReg_eq, hregs,
    getRegs_eq_lookup hvalid hfirst hr, ← sameRead_iff]
  constructor
  · rintro ⟨read, hread, hsame⟩
    obtain rfl := Option.some.inj hread
    exact hsame
  · intro hsame
    exact ⟨_, rfl, hsame⟩

-- The back ends read alike along the requests exactly if every request has an empty table or an
-- unambiguous index.
theorem readAlike_along_iff (hvalid : h.Valid) (hrequests : ∀ r ∈ requests, h.Of r.mapped)
    (hshm : s.isShmDevOpened = true ∧ s.devMemAddrReg ≠ nullptr ∧ s.regs = none)
    (hxdma : x.isXdmaDevOpened = true ∧ x.dmaRegBase ≠ nullptr) :
    Along (readStep charSigned) (fun _ s r => ReadAlike charSigned x s r) s requests ↔
      ∀ r ∈ requests, regTable r.mapped = [] ∨ Unambiguous (regTable r.mapped) r.regIndex := by
  have hs : Reading charSigned h s := ⟨hshm.1, hshm.2.1, fun regs he => by rw [hshm.2.2] at he; cases he⟩
  constructor
  · intro halong r hr
    obtain ⟨before, after, rfl⟩ := List.append_of_mem hr
    obtain ⟨t, ht, hreading⟩ := hs.run fun q hq => hrequests q (List.mem_append_left _ hq)
    exact (readAlike_iff hvalid hreading hxdma.1 hxdma.2 (hrequests r hr)).mp
      (halong before r after t rfl ht)
  · rintro hall before r after t rfl ht
    have hr : r ∈ before ++ r :: after := List.mem_append_right _ List.mem_cons_self
    obtain ⟨u, hu, hreading⟩ := hs.run fun q hq => hrequests q (List.mem_append_left _ hq)
    obtain rfl := Option.some.inj (hu.symm.trans ht)
    exact (readAlike_iff hvalid hreading hxdma.1 hxdma.2 (hrequests r hr)).mpr (hall r hr)

end Run

-- Entries of 8 bits for the indices 5 and 6 with the values 100 and 200.
def twoRegisters (k : Nat) : BitVec 32 := [0x00010208, 0x00000605, 100, 200].getD k 0

def openedShm : Shm := { devMemAddrReg := 4096, isShmDevOpened := true }

def openedXdma : Xdma := { dmaRegBase := 4096, isXdmaDevOpened := true }

theorem readAlike_along_two :
    Along (readStep false) (fun _ s r => ReadAlike false openedXdma s r) openedShm
      [⟨twoRegisters, 5⟩, ⟨twoRegisters, 6⟩] := by
  refine (readAlike_along_iff (h := ⟨8, 2, 1⟩) ⟨by decide, by decide, by decide, by decide⟩ ?_
    ⟨rfl, by decide, rfl⟩ ⟨rfl, by decide⟩).mpr ?_
  · intro r hr
    rcases List.mem_cons.mp hr with rfl | hr
    · exact ⟨by decide, by decide, by decide⟩
    · obtain rfl := List.mem_singleton.mp hr
      exact ⟨by decide, by decide, by decide⟩
  · intro r hr
    rcases List.mem_cons.mp hr with rfl | hr
    · exact .inr ⟨100, by decide, by decide⟩
    · obtain rfl := List.mem_singleton.mp hr
      exact .inr ⟨200, by decide, by decide⟩

-- Index 7 is not there. xdma_read_reg reports success all the same and stores nothing.
theorem not_readAlike_missing :
    xdmaReadReg openedXdma twoRegisters 7 = some (.ERR_NONE, none) ∧
      (shmReadReg false openedShm twoRegisters 7).2 = (.ERR_REG_INDEX_INVALID, none) ∧
      ¬ Along (readStep false) (fun _ s r => ReadAlike false openedXdma s r) openedShm [⟨twoRegisters, 7⟩] := by
  have hxdma : xdmaReadReg openedXdma twoRegisters 7 = some (.ERR_NONE, none) := by decide
  have hshm : (shmReadReg false openedShm twoRegisters 7).2 = (.ERR_REG_INDEX_INVALID, none) := by decide
  refine ⟨hxdma, hshm, fun h => ?_⟩
  obtain ⟨read, hread, hsame⟩ := h [] ⟨twoRegisters, 7⟩ [] openedShm rfl rfl
  rw [hxdma] at hread
  obtain rfl := Option.some.inj hread
  cases hsame.stored.2 rfl

end Vcu
