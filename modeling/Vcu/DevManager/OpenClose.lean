import Vcu.Shm
import Vcu.Xdma

namespace Vcu

open Machine Session

-- An array that is written at some places.
theorem foldl_update {ι α : Type*} [DecidableEq ι] {values : ι → α} (is : List ι) (f : ι → α) :
    is.foldl (fun f i => Function.update f i (values i)) f =
      fun i => if i ∈ is then values i else f i := by
  induction is generalizing f with
  | nil => simp only [List.foldl_nil, List.not_mem_nil, if_false]
  | cons i is ih =>
      rw [List.foldl_cons, ih]
      funext j
      by_cases hj : j = i
      · subst hj
        simp
      · simp [hj]

section Xdma

variable {s : Xdma} {o : XdmaOutcome} {c : XdmaCall} {files : Fin XDMA_CHANNEL_CNT → Option Nat}
  {is : List (Fin XDMA_CHANNEL_CNT)} {set : Xdma → Fin XDMA_CHANNEL_CNT → Int → Xdma}
  {undo : XdmaCall → Fin XDMA_CHANNEL_CNT → XdmaCall}

def XdmaOutcome.Complete (o : XdmaOutcome) : Prop :=
  o.reg.isSome ∧ o.base.isSome ∧ (∀ i, (o.write i).isSome) ∧ ∀ i, (o.read i).isSome

def xdma : Device Xdma XdmaOutcome Resource ErrorCode where
  init := {}
  ok := .ERR_NONE
  opened := Xdma.isXdmaDevOpened
  complete := XdmaOutcome.Complete
  openWith := xdmaOpen
  close := xdmaClose

namespace Xdma

theorem openChannels_of_forall (h : ∀ i ∈ is, (files i).isSome) :
    openChannels set undo files c is = { c with
      state := is.foldl (fun s i => set s i (openFile (files i))) c.state
      acquired := c.acquired ++ is.flatMap fun i => descriptors (files i) } := by
  induction is generalizing c with
  | nil =>
      rw [openChannels, List.flatMap_nil, List.append_nil]
      rfl
  | cons i is ih =>
      have hi : ¬ openFile (files i) = INVALID_FILE_ID := by
        rw [openFile_eq_invalid_iff, ← ne_eq, Option.ne_none_iff_isSome]
        exact h i List.mem_cons_self
      rw [openChannels]
      simp only [if_neg hi]
      rw [ih fun j hj => h j (List.mem_cons_of_mem _ hj), List.flatMap_cons, ← List.append_assoc]
      rfl

theorem ret_openChannels_of_exists (h : ∃ i ∈ is, files i = none) :
    (openChannels set undo files c is).ret = .ERR_NORM := by
  induction is generalizing c with
  | nil =>
      obtain ⟨i, hi, -⟩ := h
      cases hi
  | cons i is ih =>
      rw [openChannels]
      by_cases hi : files i = none
      · simp only [if_pos (openFile_eq_invalid_iff.mpr hi)]
      · simp only [if_neg (mt openFile_eq_invalid_iff.mp hi)]
        obtain ⟨j, hj, hnone⟩ := h
        rcases List.mem_cons.mp hj with rfl | hj
        · exact absurd hnone hi
        · exact ih ⟨j, hj, hnone⟩

-- The loop over all channels keeps the result exactly if every open succeeds.
theorem ret_openChannels_iff :
    (openChannels set undo files c (List.finRange XDMA_CHANNEL_CNT)).ret = .ERR_NONE ↔
      c.ret = .ERR_NONE ∧ ∀ i, (files i).isSome := by
  by_cases hall : ∀ i, (files i).isSome
  · rw [openChannels_of_forall fun i _ => hall i]
    exact (and_iff_left hall).symm
  · have hexists : ∃ i ∈ List.finRange XDMA_CHANNEL_CNT, files i = none := by
      obtain ⟨i, hi⟩ := not_forall.mp hall
      exact ⟨i, List.mem_finRange i, Option.not_isSome_iff_eq_none.mp hi⟩
    rw [ret_openChannels_of_exists hexists]
    exact iff_of_false ErrorCode.noConfusion fun h => hall h.2

theorem foldl_setWriteFd (is : List (Fin XDMA_CHANNEL_CNT)) (s : Xdma) :
    is.foldl (fun s i => s.setWriteFd i (openFile (files i))) s =
      { s with dmaWriteFds := fun i => if i ∈ is then openFile (files i) else s.dmaWriteFds i } := by
  rw [← foldl_update is s.dmaWriteFds]
  induction is generalizing s with
  | nil => rfl
  | cons i is ih => exact ih (s.setWriteFd i (openFile (files i)))

theorem foldl_setReadFd (is : List (Fin XDMA_CHANNEL_CNT)) (s : Xdma) :
    is.foldl (fun s i => s.setReadFd i (openFile (files i))) s =
      { s with dmaReadFds := fun i => if i ∈ is then openFile (files i) else s.dmaReadFds i } := by
  rw [← foldl_update is s.dmaReadFds]
  induction is generalizing s with
  | nil => rfl
  | cons i is ih => exact ih (s.setReadFd i (openFile (files i)))

theorem openWriteFds_of_forall (h : ∀ i, (files i).isSome) :
    openWriteFds files c = { c with
      state := { c.state with dmaWriteFds := fun i => openFile (files i) }
      acquired := c.acquired ++
        (List.finRange XDMA_CHANNEL_CNT).flatMap fun i => descriptors (files i) } := by
  rw [openWriteFds, openChannels_of_forall fun i _ => h i, foldl_setWriteFd]
  simp only [List.mem_finRange, if_true]

theorem openReadFds_of_forall (h : ∀ i, (files i).isSome) :
    openReadFds files c = { c with
      state := { c.state with dmaReadFds := fun i => openFile (files i) }
      acquired := c.acquired ++
        (List.finRange XDMA_CHANNEL_CNT).flatMap fun i => descriptors (files i) } := by
  rw [openReadFds, openChannels_of_forall fun i _ => h i, foldl_setReadFd]
  simp only [List.mem_finRange, if_true]

end Xdma

open Xdma

-- Once the registers are open the device counts as opened, whatever becomes of the channels.
theorem xdmaOpen_of_reg (hs : s.isXdmaDevOpened = false) (hreg : o.reg ≠ none) :
    (xdmaOpen s o).state.isXdmaDevOpened = true ∧
      ((xdmaOpen s o).ret = .ERR_NONE ↔ (∀ i, (o.write i).isSome) ∧ ∀ i, (o.read i).isSome) := by
  rw [xdmaOpen, hs, if_neg Bool.false_ne_true]
  simp only [if_neg (mt openFile_eq_invalid_iff.mp hreg), if_neg (mmap_ne_nullptr o.base)]
  refine ⟨trivial, ?_⟩
  rw [openReadFds, ret_openChannels_iff, openWriteFds, ret_openChannels_iff]
  simp only [true_and]

theorem xdmaOpen_of_not_reg (hs : s.isXdmaDevOpened = false) (hreg : o.reg = none) :
    xdmaOpen s o = { state := { s with dmaRegFd := INVALID_FILE_ID }, ret := .ERR_NORM } := by
  rw [xdmaOpen, hs, if_neg Bool.false_ne_true]
  simp only [hreg]
  rfl

theorem xdmaOpen_of_complete (hs : s.isXdmaDevOpened = false) (ho : o.Complete) :
    xdmaOpen s o =
      { state :=
          { dmaRegFd := openFile o.reg
            dmaRegBase := mmap o.base
            dmaReadFds := fun i => openFile (o.read i)
            dmaWriteFds := fun i => openFile (o.write i)
            isXdmaDevOpened := true }
        ret := .ERR_NONE
        acquired := descriptors o.reg ++ mappings o.base ++
          (List.finRange XDMA_CHANNEL_CNT).flatMap (fun i => descriptors (o.write i)) ++
          (List.finRange XDMA_CHANNEL_CNT).flatMap fun i => descriptors (o.read i) } := by
  obtain ⟨hreg, -, hwrite, hread⟩ := ho
  have hreg : o.reg ≠ none := Option.ne_none_iff_isSome.mpr hreg
  rw [xdmaOpen, hs, if_neg Bool.false_ne_true]
  simp only [if_neg (mt openFile_eq_invalid_iff.mp hreg), if_neg (mmap_ne_nullptr o.base)]
  rw [openWriteFds_of_forall hwrite, openReadFds_of_forall hread]

-- Nothing was found or everything.
def XdmaOutcome.Clean (o : XdmaOutcome) : Prop := o.reg = none ∨ o.Complete

theorem xdmaOpen_atomic_iff (hs : s.isXdmaDevOpened = false) : AtomicOpen xdma s o ↔ o.Clean := by
  constructor
  · rintro ⟨hsuccess, hfailure⟩
    by_cases hreg : o.reg = none
    · exact .inl hreg
    · obtain ⟨hopened, hret⟩ := xdmaOpen_of_reg hs hreg
      have hok : (xdmaOpen s o).ret = .ERR_NONE := by
        by_contra hne
        have hclosed : (xdmaOpen s o).state.isXdmaDevOpened = false := (hfailure hs hne).1
        rw [hopened] at hclosed
        cases hclosed
      exact .inr (hsuccess.mp hok).2
  · rintro (hreg | hcomplete)
    · have hmissing : ¬ o.Complete := fun h => by
        rw [XdmaOutcome.Complete, hreg] at h
        cases h.1
      exact .of_refused (xdmaOpen_of_not_reg hs hreg) ErrorCode.noConfusion rfl (.inr hmissing)
    · exact .of_complete (congrArg Call.ret (xdmaOpen_of_complete hs hcomplete)) hs hcomplete

-- A descriptor that close gives back, if it is one.
theorem mem_closed {file : Option Nat} {r : Resource}
    (h : r ∈ if openFile file ≠ -1 then [Resource.descriptor (openFile file)] else []) :
    r ∈ descriptors file := by
  cases file with
  | none => exact h
  | some fd =>
      rw [if_pos (by rw [openFile]; omega)] at h
      exact h

theorem lawful_xdma : Lawful xdma XdmaOutcome.Clean where
  init := rfl
  busy := by
    intro s o hs
    have hopen : xdmaOpen s o = { state := s, ret := .ERR_NORM } := if_pos hs
    exact ⟨.of_refused hopen ErrorCode.noConfusion rfl (.inl hs), congrArg Call.state hopen⟩
  atomic := fun _ _ hs => xdmaOpen_atomic_iff hs
  matching := by
    intro s o hs hclean hopened
    rcases hclean with hreg | hcomplete
    · replace hopened : (xdmaOpen s o).state.isXdmaDevOpened = true := hopened
      rw [xdmaOpen_of_not_reg hs hreg] at hopened
      exact absurd (hs.symm.trans hopened) Bool.false_ne_true
    · show ∀ r ∈ (xdmaClose (xdmaOpen s o).state).released, r ∈ (xdmaOpen s o).acquired
      rw [xdmaOpen_of_complete hs hcomplete, xdmaClose]
      obtain ⟨base, hbase⟩ := Option.isSome_iff_exists.mp hcomplete.2.1
      intro r hr
      simp only [List.mem_append, List.mem_flatMap] at hr ⊢
      rcases hr with ((hr | hr) | ⟨i, hi, hr⟩) | ⟨i, hi, hr⟩
      · rw [hbase] at hr ⊢
        exact .inl (.inl (.inr hr))
      · exact .inl (.inl (.inl (mem_closed hr)))
      · exact .inr ⟨i, hi, mem_closed hr⟩
      · exact .inl (.inr ⟨i, hi, mem_closed hr⟩)
  closed := fun _ _ => rfl

end Xdma

section Shm

variable {s : Shm} {o : ShmOutcome}

def ShmOutcome.Complete (o : ShmOutcome) : Prop :=
  o.reg.isSome ∧ o.regBase.isSome ∧ o.mem.isSome ∧ o.memBase.isSome ∧ o.memBase2.isSome

def sharedMem : Device Shm ShmOutcome Resource ErrorCode where
  init := {}
  ok := .ERR_NONE
  opened := Shm.isShmDevOpened
  complete := ShmOutcome.Complete
  openWith := shmOpen
  close := shmClose

theorem shmOpen_of_not_reg (hs : s.isShmDevOpened = false) (hreg : o.reg = none) :
    shmOpen s o = { state := { s with fdRegDev := INVALID_DEV_ID }, ret := .ERR_NORM } := by
  rw [shmOpen, hs, if_neg Bool.false_ne_true]
  simp only [hreg]
  rfl

-- The memory device is missing, and the registers stay open and mapped.
theorem shmOpen_of_not_mem (hs : s.isShmDevOpened = false) (hreg : o.reg.isSome) (hmem : o.mem = none) :
    (shmOpen s o).ret = .ERR_NORM ∧ (shmOpen s o).acquired = descriptors o.reg ++ mappings o.regBase ∧
      (shmOpen s o).released = [] := by
  rw [shmOpen, hs, if_neg Bool.false_ne_true]
  have hfile : ¬ ¬ openFile o.reg ≥ 0 := not_not.mpr (openFile_nonneg_iff.mpr hreg)
  simp only [if_neg hfile, if_neg (mmap_ne_nullptr o.regBase), hmem]
  exact ⟨rfl, List.append_nil _, rfl⟩

-- With both files there the device is opened, whatever becomes of the mappings.
theorem shmOpen_of_files (hs : s.isShmDevOpened = false) (hreg : o.reg.isSome) (hmem : o.mem.isSome) :
    shmOpen s o =
      { state := { s with
          fdRegDev := openFile o.reg
          devMemAddrReg := mmap o.regBase
          fdShmDev := openFile o.mem
          devMemAddrShm := mmap o.memBase
          devMemAddrShm2 := mmap o.memBase2
          isShmDevOpened := true }
        ret := .ERR_NONE
        acquired := descriptors o.reg ++ mappings o.regBase ++ descriptors o.mem ++
          mappings o.memBase ++ mappings o.memBase2 } := by
  rw [shmOpen, hs, if_neg Bool.false_ne_true]
  have hfile : ¬ ¬ openFile o.reg ≥ 0 := not_not.mpr (openFile_nonneg_iff.mpr hreg)
  have hfile' : ¬ ¬ openFile o.mem ≥ 0 := not_not.mpr (openFile_nonneg_iff.mpr hmem)
  simp only [if_neg hfile, if_neg hfile', if_neg (mmap_ne_nullptr _)]

def ShmOutcome.Clean (o : ShmOutcome) : Prop := o.reg = none ∨ o.Complete

theorem shmOpen_atomic_iff (hs : s.isShmDevOpened = false) : AtomicOpen sharedMem s o ↔ o.Clean := by
  constructor
  · rintro ⟨hsuccess, hfailure⟩
    by_cases hreg : o.reg = none
    · exact .inl hreg
    · have hreg := Option.ne_none_iff_isSome.mp hreg
      by_cases hmem : o.mem = none
      · obtain ⟨hret, hacquired, hreleased⟩ := shmOpen_of_not_mem hs hreg hmem
        have hleak := (hfailure hs (hret ▸ ErrorCode.noConfusion)).2
        obtain ⟨fd, hfd⟩ := Option.isSome_iff_exists.mp hreg
        have hmember : Resource.descriptor fd ∈ (shmOpen s o).acquired := by
          rw [hacquired, hfd]
          exact List.mem_append_left _ (List.mem_singleton.mpr rfl)
        have hreturned := hleak _ hmember
        rw [sharedMem, hreleased] at hreturned
        cases hreturned
      · have hok : (shmOpen s o).ret = .ERR_NONE := by
          rw [shmOpen_of_files hs hreg (Option.ne_none_iff_isSome.mp hmem)]
        exact .inr (hsuccess.mp hok).2
  · rintro (hreg | hcomplete)
    · have hmissing : ¬ o.Complete := fun h => by
        rw [ShmOutcome.Complete, hreg] at h
        cases h.1
      exact .of_refused (shmOpen_of_not_reg hs hreg) ErrorCode.noConfusion rfl (.inr hmissing)
    · have hok := congrArg Call.ret (shmOpen_of_files hs hcomplete.1 hcomplete.2.2.1)
      exact .of_complete hok hs hcomplete

theorem lawful_sharedMem : Lawful sharedMem ShmOutcome.Clean where
  init := rfl
  busy := by
    intro s o hs
    have hopen : shmOpen s o = { state := s, ret := .ERR_NORM } := if_pos hs
    exact ⟨.of_refused hopen ErrorCode.noConfusion rfl (.inl hs), congrArg Call.state hopen⟩
  atomic := fun _ _ hs => shmOpen_atomic_iff hs
  matching := by
    intro s o hs hclean hopened
    rcases hclean with hreg | ⟨hreg, hregBase, hmem, hmemBase, hmemBase2⟩
    · replace hopened : (shmOpen s o).state.isShmDevOpened = true := hopened
      rw [shmOpen_of_not_reg hs hreg] at hopened
      exact absurd (hs.symm.trans hopened) Bool.false_ne_true
    · show ∀ r ∈ (shmClose (shmOpen s o).state).released, r ∈ (shmOpen s o).acquired
      rw [shmOpen_of_files hs hreg hmem, shmClose]
      obtain ⟨regBase, hregBase⟩ := Option.isSome_iff_exists.mp hregBase
      obtain ⟨memBase, hmemBase⟩ := Option.isSome_iff_exists.mp hmemBase
      obtain ⟨memBase2, hmemBase2⟩ := Option.isSome_iff_exists.mp hmemBase2
      intro r hr
      simp only [hregBase, hmemBase, hmemBase2, List.mem_append] at hr ⊢
      rcases hr with (((hr | hr) | hr) | hr) | hr
      · exact .inl (.inl (.inl (.inr hr)))
      · exact .inl (.inl (.inl (.inl (mem_closed hr))))
      · exact .inl (.inr hr)
      · exact .inr hr
      · exact .inl (.inl (.inr (mem_closed hr)))
  closed := fun _ _ => rfl

end Shm

-- Opening and closing are atomic along the calls exactly if every opening of a closed device finds
-- no register device or finds everything.
theorem open_close_atomic_iff (es : List (Event XdmaOutcome)) (es' : List (Event ShmOutcome)) :
    (Along (step xdma) (Atomic xdma) { dev := xdma.init } es ↔
        Along (step xdma) (Clean xdma XdmaOutcome.Clean) { dev := xdma.init } es) ∧
      (Along (step sharedMem) (Atomic sharedMem) { dev := sharedMem.init } es' ↔
        Along (step sharedMem) (Clean sharedMem ShmOutcome.Clean) { dev := sharedMem.init } es') :=
  ⟨along_atomic_iff lawful_xdma, along_atomic_iff lawful_sharedMem⟩

def page : Address := ⟨4096, by decide, by decide⟩

-- No channel can be opened for reading. The device counts as opened, and closing it closes
-- descriptor 0, which read_fds was initialized with.
def unreadable : XdmaOutcome where
  reg := some 3
  base := some page
  write := fun i => some (4 + i)
  read := fun _ => none

-- The memory device cannot be opened, and descriptor 3 stays open.
def withoutMem : ShmOutcome where
  reg := some 3
  regBase := some page
  mem := none
  memBase := none
  memBase2 := none

theorem not_atomic_open_close :
    (∃ s, run (step xdma) { dev := xdma.init } [.openWith unreadable] = some s ∧
        (xdmaOpen {} unreadable).ret = .ERR_NORM ∧ s.dev.isXdmaDevOpened = true ∧
        Resource.descriptor 0 ∈ (xdmaClose s.dev).released ∧ Resource.descriptor 0 ∉ s.held) ∧
      ¬ Along (step xdma) (Atomic xdma) { dev := xdma.init } [.openWith unreadable, .close] ∧
      ¬ Along (step sharedMem) (Atomic sharedMem) { dev := sharedMem.init } [.openWith withoutMem] := by
  refine ⟨⟨_, rfl, by decide, by decide, by decide, by decide⟩, fun h => ?_, fun h => ?_⟩
  · have hopened := ((h [] (.openWith unreadable) [.close] _ rfl rfl).failure rfl (by decide)).1
    have hopened' : xdma.opened (xdma.openWith xdma.init unreadable).state = true := by decide
    rw [hopened'] at hopened
    cases hopened
  · have hleak := ((h [] (.openWith withoutMem) [] _ rfl rfl).failure rfl (by decide)).2
    have hreturned := hleak (.descriptor 3) (by decide)
    exact absurd hreturned (by decide)

end Vcu
