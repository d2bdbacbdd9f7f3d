import Mathlib.Data.List.Nodup
import Vcu.Lib.Machine
import Vcu.Lib.Window

namespace Vcu

open Machine

-- The offsets of the buffers that are handed out and not yet released, oldest first, are a history.
structure InputBufferManager where
  buffer_index_produce : UInt64 := 0
  buffer_index_consume : UInt64 := 0
  bufferLen : Nat
  bufferNum : Nat
  n : Int
  lent : List Nat := []
  deriving DecidableEq

-- A round of the loop in getBufferToSavePicMt, and a call of releaseBufferMt. The mutex makes
-- each of them one step.
inductive BufferEvent where
  | getBufferToSavePicMt
  | releaseBufferMt
  deriving DecidableEq

namespace InputBufferManager

def init (size len : Nat) : InputBufferManager where
  bufferLen := len
  bufferNum := size
  n := size - 1

-- The limit n - 1 becomes unsigned in the comparison.
def full (s : InputBufferManager) : Bool :=
  s.buffer_index_produce - s.buffer_index_consume > UInt64.ofInt (s.n - 1)

def getBufferToSavePicMt (s : InputBufferManager) : InputBufferManager :=
  if s.full then s
  else
    let pRes := (s.buffer_index_produce &&& UInt64.ofInt s.n).toNat * s.bufferLen
    { s with buffer_index_produce := s.buffer_index_produce + 1, lent := s.lent ++ [pRes] }

-- A caller releases the buffer that it has had for the longest time.
def releaseBufferMt (s : InputBufferManager) : Option InputBufferManager :=
  if s.lent = [] then none
  else some { s with buffer_index_consume := s.buffer_index_consume + 1, lent := s.lent.tail }

def step (s : InputBufferManager) : BufferEvent → Option InputBufferManager
  | .getBufferToSavePicMt => some s.getBufferToSavePicMt
  | .releaseBufferMt => s.releaseBufferMt

-- The buffers that are out do not overlap and lie in pBuffer.
structure Unaliased (s : InputBufferManager) : Prop where
  distinct : s.lent.Nodup
  inside : ∀ start ∈ s.lent, s.bufferLen ∣ start ∧ start < s.bufferLen * s.bufferNum ∧
    start + s.bufferLen ≤ s.bufferLen * s.bufferNum

-- The invariant: the counters follow the numbers of calls, and the buffers that are out are the ones
-- between them.
structure Ring (k len : Nat) (s : InputBufferManager) : Prop where
  len_eq : s.bufferLen = len
  num_eq : s.bufferNum = 2 ^ k
  n_eq : s.n = 2 ^ k - 1
  window : ∃ released out, s.buffer_index_produce = UInt64.ofNat (released + out) ∧
    s.buffer_index_consume = UInt64.ofNat released ∧ out < 2 ^ k ∧
    s.lent = (List.range' released out).map fun j => j % 2 ^ k * len

section Ring

variable {k len : Nat} {s u : InputBufferManager}

theorem Ring.init (k len : Nat) : Ring k len (init (2 ^ k) len) :=
  ⟨rfl, rfl, by simp [InputBufferManager.init], 0, 0, rfl, rfl, Nat.two_pow_pos k, rfl⟩

theorem toNat_ofInt {x : Int} (h0 : 0 ≤ x) (hx : x < 18446744073709551616) :
    (UInt64.ofInt x).toNat = x.toNat := by
  rw [UInt64.ofInt, UInt64.toNat_ofNat']
  omega

theorem two_pow_le (hk : k ≤ 30) : 2 ^ k ≤ 1073741824 := Nat.pow_le_pow_right (by decide) hk

-- The mask is a modulus, also when the counter has gone round.
theorem and_mask (hk : k ≤ 30) (j : Nat) :
    (UInt64.ofNat j &&& UInt64.ofInt ((2 : Int) ^ k - 1)).toNat = j % 2 ^ k := by
  have hpow := two_pow_le hk
  have hpos := Nat.two_pow_pos k
  have hcast : ((2 : Int) ^ k - 1).toNat = 2 ^ k - 1 := by
    have h : ((2 : Int) ^ k) = ((2 ^ k : Nat) : Int) := by simp
    omega
  have hint : (UInt64.ofInt ((2 : Int) ^ k - 1)).toNat = 2 ^ k - 1 := by
    have h : ((2 : Int) ^ k) = ((2 ^ k : Nat) : Int) := by simp
    rw [toNat_ofInt (by omega) (by omega), hcast]
  have hdvd : 2 ^ k ∣ 2 ^ 64 := Nat.pow_dvd_pow 2 (by omega)
  rw [UInt64.toNat_and, hint, UInt64.toNat_ofNat', Nat.and_two_pow_sub_one_eq_mod,
    Nat.mod_mod_of_dvd j hdvd]

theorem ofNat_sub_ofNat (released out : Nat) :
    UInt64.ofNat (released + out) - UInt64.ofNat released = UInt64.ofNat out := by
  rw [UInt64.ofNat_add, UInt64.add_comm, UInt64.add_sub_cancel]

-- The limit, when there are at least two buffers.
theorem Ring.not_full (h : Ring k len s) (hk : k ≤ 30) (hk0 : k ≠ 0) {released out : Nat}
    (hproduce : s.buffer_index_produce = UInt64.ofNat (released + out))
    (hconsume : s.buffer_index_consume = UInt64.ofNat released) (hout : out < 2 ^ k)
    (hfull : s.full = false) :
    out + 1 < 2 ^ k := by
  have hpow := two_pow_le hk
  have htwo : 2 ≤ 2 ^ k := by
    have hle : 2 ^ 1 ≤ 2 ^ k := Nat.pow_le_pow_right (by decide) (by omega)
    exact hle
  have hcast : ((2 : Int) ^ k) = ((2 ^ k : Nat) : Int) := by simp
  have hlimit : (UInt64.ofInt (s.n - 1)).toNat = 2 ^ k - 2 := by
    rw [h.n_eq, toNat_ofInt (by omega) (by omega)]
    omega
  rw [full, hproduce, hconsume, ofNat_sub_ofNat, decide_eq_false_iff_not, gt_iff_lt,
    UInt64.lt_iff_toNat_lt, hlimit, UInt64.toNat_ofNat'] at hfull
  omega

theorem Ring.getBufferToSavePicMt (h : Ring k len s) (hk : k ≤ 30) (hk0 : k ≠ 0) :
    Ring k len s.getBufferToSavePicMt := by
  obtain ⟨released, out, hproduce, hconsume, hout, hlent⟩ := h.window
  unfold InputBufferManager.getBufferToSavePicMt
  cases hfull : s.full with
  | true => exact h
  | false =>
      have hroom := h.not_full hk hk0 hproduce hconsume hout hfull
      refine ⟨h.len_eq, h.num_eq, h.n_eq, released, out + 1, ?_, hconsume, hroom, ?_⟩
      · simp only [hproduce]
        exact (UInt64.ofNat_add (released + out) 1).symm
      · simp only [Bool.false_eq_true, if_false]
        rw [hproduce, h.n_eq, and_mask hk, h.len_eq, hlent, List.range'_concat, List.map_append,
          Nat.one_mul]
        rfl

theorem Ring.releaseBufferMt (h : Ring k len s) (hu : s.releaseBufferMt = some u) : Ring k len u := by
  obtain ⟨released, out, hproduce, hconsume, hout, hlent⟩ := h.window
  unfold InputBufferManager.releaseBufferMt at hu
  split at hu
  · cases hu
  · rename_i hne
    cases hu
    cases out with
    | zero => exact absurd hlent hne
    | succ out =>
        refine ⟨h.len_eq, h.num_eq, h.n_eq, released + 1, out, ?_, ?_, by omega, ?_⟩
        · rw [hproduce]
          exact congrArg UInt64.ofNat (by omega)
        · simp only [hconsume]
          exact (UInt64.ofNat_add released 1).symm
        · simp only [hlent]
          rfl

theorem Ring.step {e : BufferEvent} (h : Ring k len s) (hk : k ≤ 30) (hk0 : k ≠ 0)
    (hu : InputBufferManager.step s e = some u) : Ring k len u := by
  cases e with
  | getBufferToSavePicMt =>
      cases hu
      exact h.getBufferToSavePicMt hk hk0
  | releaseBufferMt => exact h.releaseBufferMt hu

theorem Ring.unaliased (h : Ring k len s) (hlen : 0 < len) : Unaliased s := by
  obtain ⟨released, out, -, -, hout, hlent⟩ := h.window
  have hpos := Nat.two_pow_pos k
  refine ⟨?_, ?_⟩
  · rw [hlent]
    apply List.Nodup.map_on ?_ List.nodup_range'
    intro i hi j hj heq
    rw [List.mem_range'_1] at hi hj
    exact Window.eq_of_mod_eq hi.1 (by omega) hj.1 (by omega) (Nat.eq_of_mul_eq_mul_right hlen heq)
  · intro start hstart
    rw [hlent] at hstart
    obtain ⟨j, -, rfl⟩ := List.mem_map.mp hstart
    have hslot : j % 2 ^ k < 2 ^ k := Nat.mod_lt j hpos
    have hend : (j % 2 ^ k + 1) * len ≤ 2 ^ k * len := Nat.mul_le_mul_right len hslot
    rw [Nat.add_mul, Nat.one_mul, Nat.mul_comm (2 ^ k)] at hend
    rw [h.len_eq, h.num_eq]
    exact ⟨Nat.dvd_mul_left len _, by omega, hend⟩

theorem ring_run {es : List BufferEvent} (hk : k ≤ 30) (hk0 : k ≠ 0)
    (h : run InputBufferManager.step (InputBufferManager.init (2 ^ k) len) es = some s) : Ring k len s :=
  run_invariant (fun _ s => Ring k len s) (Ring.init k len) (fun _ _ _ _ hs hu => hs.step hk hk0 hu) h

-- The first buffer is always there.
theorem init_not_full (size len : Nat) : (InputBufferManager.init size len).full = false := by
  have hzero : ((0 : UInt64) - 0).toNat = 0 := by decide
  rw [full, decide_eq_false_iff_not, gt_iff_lt, UInt64.lt_iff_toNat_lt]
  change ¬ _ < ((0 : UInt64) - 0).toNat
  rw [hzero]
  exact Nat.not_lt_zero _

theorem run_first (size len : Nat) : ∃ start s,
    run InputBufferManager.step (InputBufferManager.init size len) [.getBufferToSavePicMt] = some s ∧
      s.lent = [start] ∧ s.bufferLen = len := by
  have hget : (InputBufferManager.init size len).getBufferToSavePicMt.lent =
      [(0 &&& UInt64.ofInt (size - 1)).toNat * len] := by
    rw [InputBufferManager.getBufferToSavePicMt, init_not_full]
    rfl
  refine ⟨_, _, rfl, hget, ?_⟩
  rw [InputBufferManager.getBufferToSavePicMt, init_not_full]
  rfl

-- With one buffer the limit is below zero, and nothing is ever full.
theorem not_full_of_one (hn : s.n = 0) : s.full = false := by
  have hlimit : (UInt64.ofInt (0 - 1)).toNat = 18446744073709551615 := by decide
  have hlt := (s.buffer_index_produce - s.buffer_index_consume).toNat_lt
  rw [full, hn, decide_eq_false_iff_not, gt_iff_lt, UInt64.lt_iff_toNat_lt, hlimit]
  omega

theorem getBufferToSavePicMt_of_one (hn : s.n = 0) :
    s.getBufferToSavePicMt.n = 0 ∧ s.getBufferToSavePicMt.lent = s.lent ++ [0] := by
  have hmask : s.buffer_index_produce &&& UInt64.ofInt 0 = 0 := UInt64.and_zero
  rw [InputBufferManager.getBufferToSavePicMt, not_full_of_one hn]
  simp only [Bool.false_eq_true, if_false, hn, hmask]
  exact ⟨trivial, by rw [UInt64.toNat_zero, Nat.zero_mul]⟩

theorem run_one_buffer (len : Nat) : ∃ s,
    run InputBufferManager.step (InputBufferManager.init 1 len)
        [.getBufferToSavePicMt, .getBufferToSavePicMt] =
      some s ∧ s.lent = [0, 0] := by
  obtain ⟨hn, hlent⟩ := getBufferToSavePicMt_of_one (s := InputBufferManager.init 1 len) rfl
  refine ⟨_, rfl, ?_⟩
  rw [(getBufferToSavePicMt_of_one hn).2, hlent]
  rfl

end Ring

end InputBufferManager

open InputBufferManager in
-- No two buffers that are out overlap, in any run, exactly if there are two or more and they are not empty.
theorem buffers_unaliased_iff (k len : Nat) (hk : k ≤ 30) :
    (∀ es s, run InputBufferManager.step (InputBufferManager.init (2 ^ k) len) es = some s → s.Unaliased) ↔
      2 ≤ 2 ^ k ∧ 1 ≤ len := by
  constructor
  · intro h
    have hlen : 1 ≤ len := by
      obtain ⟨start, s, hrun, hlent, hslen⟩ := run_first (2 ^ k) len
      have hinside := (h _ s hrun).inside start (by rw [hlent]; exact List.mem_cons_self)
      rw [hslen] at hinside
      by_contra hzero
      rw [Nat.lt_one_iff.mp (Nat.lt_of_not_le hzero), Nat.zero_mul] at hinside
      exact Nat.not_lt_zero _ hinside.2.1
    refine ⟨?_, hlen⟩
    by_contra hone
    have hpos := Nat.two_pow_pos k
    have hnum : 2 ^ k = 1 := by omega
    obtain ⟨s, hrun, hlent⟩ := run_one_buffer len
    have hdistinct := (h _ s (hnum ▸ hrun)).distinct
    rw [hlent] at hdistinct
    exact absurd List.mem_cons_self (List.nodup_cons.mp hdistinct).1
  · rintro ⟨htwo, hlen⟩ es s hrun
    have hk0 : k ≠ 0 := by
      rintro rfl
      exact absurd htwo (by decide)
    exact (ring_run hk hk0 hrun).unaliased hlen

-- Four threads want one of four buffers, and the last one waits until there is a release.
def fourThreads : List BufferEvent :=
  List.replicate 4 .getBufferToSavePicMt ++ [.releaseBufferMt, .getBufferToSavePicMt]

theorem buffers_unaliased_iff_four : ∃ s,
    run InputBufferManager.step (InputBufferManager.init 4 100) fourThreads = some s ∧
      s.lent = [100, 200, 300] ∧ s.Unaliased := by
  have hlent : (run InputBufferManager.step (InputBufferManager.init 4 100) fourThreads).map (·.lent) =
      some [100, 200, 300] := by decide
  obtain ⟨s, hs, hlent⟩ := Option.map_eq_some_iff.mp hlent
  exact ⟨s, hs, hlent, (buffers_unaliased_iff 2 100 (by decide)).mpr (by decide) fourThreads s hs⟩

-- The one buffer goes out twice.
theorem one_buffer_twice : ∃ s,
    run InputBufferManager.step (InputBufferManager.init 1 983040)
        [.getBufferToSavePicMt, .getBufferToSavePicMt] =
      some s ∧ s.lent = [0, 0] ∧ ¬ s.Unaliased :=
  ⟨_, rfl, rfl, fun h => absurd h.distinct (by decide)⟩

end Vcu
