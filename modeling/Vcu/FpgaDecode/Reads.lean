import Mathlib.Logic.Relation
import Vcu.FpgaDecode.Lemmas
import Vcu.Lib.Faults

namespace Vcu

open Faults

namespace FpgaDecode

def IsOutside (fault : DecodeFault) : Prop := ∃ index, fault = .outOfFile index

-- What has to be in the file behind the markers. All positions are those behind a marker.
section Format

variable (data : List UInt8) (pos : Nat)

def LengthAt (len : Nat) : Prop :=
  ∃ high low, data[pos]? = some high ∧ data[pos + 1]? = some low ∧ len = high.toNat * 0x100 + low.toNat

def IdsInside (stride : Nat) : Prop :=
  ∃ count, data[pos]? = some count ∧ pos + stride * count.toNat < data.length

-- A table without bytes is not read.
def QuantifyInside : Prop := ∃ len, LengthAt data pos len ∧ (len = 3 ∨ 3 < len ∧ pos + len ≤ data.length)

def ImgInfoInside : Prop :=
  LengthAt data (pos + 3) 512 ∧ LengthAt data (pos + 5) 640 ∧ IdsInside data (pos + 7) 3

def OtherSize : Prop :=
  ∃ height width, LengthAt data (pos + 3) height ∧ LengthAt data (pos + 5) width ∧
    (height ≠ 512 ∨ width ≠ 640)

def TableInside : Prop := ∃ len, LengthAt data pos len ∧ pos + len ≤ data.length ∧ pos + 19 ≤ data.length

def EndMarker : Prop := data[pos]? = some START ∧ data[pos + 1]? = some DATA_END

-- The last end marker may stand behind the header of the scan, or so far before its end that `new` throws.
def ScanInside : Prop :=
  ∃ len last, IdsInside data (pos + 2) 2 ∧ LengthAt data pos len ∧ EndMarker data last ∧
    (∀ k > last, ¬EndMarker data k) ∧ (pos + len ≤ last + 2 ∨ last + 18 ≤ pos + len)

-- Where the loop goes on behind a marker.
def Passes (key : UInt8) (next : Nat) : Prop :=
  if key = QUANTIFY then QuantifyInside data pos ∧ next = pos + 3
  else if key = IMGINFO then ImgInfoInside data pos ∧ next = pos
  else if key = TABLE then TableInside data pos ∧ next = pos + 19
  else key ≠ DATA_START ∧ next = pos

def Ends (key : UInt8) : Prop :=
  key = IMGINFO ∧ OtherSize data pos ∨ key = DATA_START ∧ ScanInside data pos

end Format

-- What one round of the loop passes.
inductive Segment (data : List UInt8) (pos : Nat) : Nat → Prop where
  | byte {b : UInt8} (hbyte : data[pos]? = some b) (hne : b ≠ START) : Segment data pos (pos + 1)
  | marker {key : UInt8} {next : Nat} (hstart : data[pos]? = some START) (hkey : data[pos + 1]? = some key)
      (hpasses : Passes data (pos + 2) key next) : Segment data pos next

-- A marker that ends the call, with all that is read for it.
def Final (data : List UInt8) (pos : Nat) : Prop :=
  ∃ key, data[pos]? = some START ∧ data[pos + 1]? = some key ∧ Ends data (pos + 2) key

-- The segments from here lead to the end of the call.
def Complete (data : List UInt8) (pos : Nat) : Prop :=
  ∃ last, Relation.ReflTransGen (Segment data) pos last ∧ Final data last

-- The single reads.
section Reads

variable {data : List UInt8} {pos index len stride n : Nat}

theorem fileByte_ok_iff : (∃ b, fileByte data index = .ok b) ↔ index < data.length := by
  constructor
  · rintro ⟨b, hb⟩
    exact (List.getElem?_eq_some_iff.mp (fileByte_eq_ok.mp hb)).1
  · intro h
    exact ⟨_, fileByte_of_lt h⟩

theorem only_fileByte (data : List UInt8) (index : Nat) : Only IsOutside (fileByte data index) := by
  unfold fileByte
  split
  · exact only_ok _
  · exact only_error ⟨_, rfl⟩

theorem fileRange_ok_iff {len : Int} :
    (∃ bytes, fileRange data pos len = .ok bytes) ↔ len = 0 ∨ 0 ≤ len ∧ pos + len.toNat ≤ data.length := by
  unfold fileRange
  split
  · rename_i hinside
    exact ⟨fun _ => hinside, fun _ => ⟨_, rfl⟩⟩
  · rename_i houtside
    exact ⟨nofun, fun hinside => absurd hinside houtside⟩

theorem only_fileRange (data : List UInt8) (pos : Nat) (len : Int) :
    Only IsOutside (fileRange data pos len) := by
  unfold fileRange
  split
  · exact only_ok _
  · exact only_error ⟨_, rfl⟩

theorem getDataLength_eq_ok : getDataLength data pos = .ok len ↔ LengthAt data pos len := by
  constructor
  · intro h
    obtain ⟨high, hhigh, h⟩ := of_bind_ok h
    obtain ⟨low, hlow, h⟩ := of_bind_ok h
    cases h
    exact ⟨high, low, fileByte_eq_ok.mp hhigh, fileByte_eq_ok.mp hlow, rfl⟩
  · rintro ⟨high, low, hhigh, hlow, rfl⟩
    rw [getDataLength, fileByte_eq_ok.mpr hhigh, fileByte_eq_ok.mpr hlow]
    rfl

theorem only_getDataLength (data : List UInt8) (pos : Nat) : Only IsOutside (getDataLength data pos) :=
  (only_fileByte _ _).bind fun _ => (only_fileByte _ _).bind fun _ => only_ok _

theorem LengthAt.lt (h : LengthAt data pos len) : pos + 1 < data.length := by
  obtain ⟨high, low, -, hlow, -⟩ := h
  exact (List.getElem?_eq_some_iff.mp hlow).1

theorem exists_lengthAt (h : pos + 1 < data.length) : ∃ len, LengthAt data pos len :=
  ⟨_, _, _, List.getElem?_eq_getElem (Nat.lt_of_succ_lt h), List.getElem?_eq_getElem h, rfl⟩

theorem readIds_ok_iff {count : Nat} :
    (∃ ids, readIds data stride count pos = .ok ids) ↔ count = 0 ∨ pos + stride * count < data.length := by
  induction count generalizing pos with
  | zero => exact ⟨fun _ => .inl rfl, fun _ => ⟨[], rfl⟩⟩
  | succ count ih =>
      rw [readIds, exists_bind_ok]
      constructor
      · rintro ⟨b, hb, hrest⟩
        obtain ⟨ids, hids, -⟩ := exists_bind_ok.mp hrest
        have hfirst := fileByte_ok_iff.mp ⟨b, hb⟩
        have hids' := ih.mp ⟨ids, hids⟩
        right
        rw [Nat.mul_succ]
        cases hids' with
        | inl hzero =>
            rw [hzero]
            omega
        | inr hlt => omega
      · intro h
        rw [Nat.mul_succ] at h
        obtain ⟨b, hb⟩ := fileByte_ok_iff.mpr (show pos + stride < data.length by omega)
        obtain ⟨ids, hids⟩ := ih.mpr (.inr (show pos + stride + stride * count < data.length by omega))
        exact ⟨b, hb, exists_bind_ok.mpr ⟨ids, hids, _, rfl⟩⟩

theorem only_readIds (data : List UInt8) (stride count pos : Nat) :
    Only IsOutside (readIds data stride count pos) := by
  induction count generalizing pos with
  | zero => exact only_ok _
  | succ count ih => exact (only_fileByte _ _).bind fun _ => (ih _).bind fun _ => only_ok _

theorem huffLoop_ok_iff {value : UInt16} :
    (∃ pdata, huffLoop data n pos value = .ok pdata) ↔ n = 0 ∨ pos + n ≤ data.length := by
  induction n generalizing pos value with
  | zero => exact ⟨fun _ => .inl rfl, fun _ => ⟨[], rfl⟩⟩
  | succ n ih =>
      rw [huffLoop, exists_bind_ok]
      constructor
      · rintro ⟨count, hcount, hrest⟩
        obtain ⟨pdata, hpdata, -⟩ := exists_bind_ok.mp hrest
        have hfirst := fileByte_ok_iff.mp ⟨count, hcount⟩
        have hrest' := ih.mp ⟨pdata, hpdata⟩
        omega
      · intro h
        obtain ⟨count, hcount⟩ := fileByte_ok_iff.mpr (show pos < data.length by omega)
        obtain ⟨pdata, hpdata⟩ : ∃ pdata, huffLoop data n (pos + 1) (huffEntry value count).2 = .ok pdata :=
          ih.mpr (by omega)
        exact ⟨count, hcount, exists_bind_ok.mpr ⟨pdata, hpdata, _, rfl⟩⟩

theorem only_huffLoop (data : List UInt8) (n pos : Nat) (value : UInt16) :
    Only IsOutside (huffLoop data n pos value) := by
  induction n generalizing pos value with
  | zero => exact only_ok _
  | succ n ih => exact (only_fileByte _ _).bind fun _ => (ih _ _).bind fun _ => only_ok _

end Reads

-- The search for the end marker, from the last byte of the file.
section Search

variable {data : List UInt8} {pos index k n : Nat} {length : Int}

theorem searchEnd_marker (h : EndMarker data k) : searchEnd data (k + 2) length = .ok length := by
  rw [searchEnd, fileByte_eq_ok.mpr h.2]
  dsimp only [bind, Except.bind]
  rw [if_pos rfl, fileByte_eq_ok.mpr h.1]
  exact if_pos rfl

theorem searchEnd_step (hindex : index < data.length) (h : ∀ k, index = k + 1 → ¬EndMarker data k) :
    searchEnd data (index + 1) length = searchEnd data index (length + 1) := by
  cases index with
  | zero =>
      unfold searchEnd
      rw [fileByte_of_lt hindex]
      exact ite_id _
  | succ before =>
      have hbefore : before < data.length := Nat.lt_of_succ_lt hindex
      rw [searchEnd, fileByte_of_lt hindex]
      dsimp only [bind, Except.bind]
      split
      · rename_i hend
        have hne : data[before] ≠ START := by
          intro hstart
          apply h before rfl
          rw [EndMarker, List.getElem?_eq_getElem hbefore, List.getElem?_eq_getElem hindex, hstart, hend]
          exact ⟨rfl, rfl⟩
        rw [fileByte_of_lt hbefore]
        exact if_neg hne
      · rfl

-- The search stops at the last end marker, and only there.
theorem searchEnd_ok_iff {found : Int} (hn : n ≤ data.length) :
    searchEnd data n length = .ok found ↔
      ∃ last, last + 1 < n ∧ EndMarker data last ∧ (∀ k > last, k + 1 < n → ¬EndMarker data k) ∧
        found = length + n - last - 2 := by
  induction n generalizing length with
  | zero =>
      constructor
      · nofun
      · rintro ⟨last, hlast, -⟩
        omega
  | succ index ih =>
      by_cases hmarker : ∃ k, index = k + 1 ∧ EndMarker data k
      · obtain ⟨k, rfl, hk⟩ := hmarker
        rw [searchEnd_marker hk]
        constructor
        · intro h
          cases h
          refine ⟨k, by omega, hk, fun j hj hlt => by omega, by push_cast; omega⟩
        · rintro ⟨last, hlast, -, hmax, rfl⟩
          have hsame : last = k := by
            by_contra hne
            exact hmax k (by omega) (by omega) hk
          rw [hsame]
          exact congrArg Except.ok (by push_cast; omega)
      · have hnot : ∀ k, index = k + 1 → ¬EndMarker data k := fun k hk hend => hmarker ⟨k, hk, hend⟩
        rw [searchEnd_step hn hnot, ih (by omega)]
        apply exists_congr
        intro last
        constructor
        · rintro ⟨hlast, hend, hmax, rfl⟩
          refine ⟨by omega, hend, fun k hk hlt hmark => ?_, by push_cast; omega⟩
          by_cases htop : index = k + 1
          · exact hnot k htop hmark
          · exact hmax k hk (by omega) hmark
        · rintro ⟨hlast, hend, hmax, rfl⟩
          have hbelow : index ≠ last + 1 := fun htop => hnot last htop hend
          exact ⟨by omega, hend, fun k hk hlt => hmax k hk (by omega), by push_cast; omega⟩

theorem only_searchEnd (data : List UInt8) (n : Nat) (length : Int) :
    Only IsOutside (searchEnd data n length) := by
  induction n generalizing length with
  | zero => exact only_error ⟨_, rfl⟩
  | succ index ih =>
      unfold searchEnd
      apply (only_fileByte _ _).bind
      intro b
      split
      · cases index with
        | zero => exact only_error ⟨_, rfl⟩
        | succ before =>
            apply (only_fileByte _ _).bind
            intro a
            split
            · exact only_ok _
            · exact ih _
      · exact ih _

theorem EndMarker.lt (h : EndMarker data k) : k + 1 < data.length := (List.getElem?_eq_some_iff.mp h.2).1

theorem getFileEnd2_ok_iff {len : Int} (hne : data ≠ []) :
    getFileEnd2 data pos (data.length - 1) = .ok len ↔
      ∃ last, EndMarker data last ∧ (∀ k > last, ¬EndMarker data k) ∧ len = last + 2 - pos := by
  have hlength : data.length - 1 + 1 = data.length := Nat.sub_add_cancel (List.length_pos_iff.mpr hne)
  constructor
  · intro h
    obtain ⟨found, hfound, h⟩ := of_bind_ok h
    cases h
    rw [hlength, searchEnd_ok_iff (Nat.le_refl _)] at hfound
    obtain ⟨last, hlast, hend, hmax, rfl⟩ := hfound
    exact ⟨last, hend, fun k hk hmark => hmax k hk hmark.lt hmark, by omega⟩
  · rintro ⟨last, hend, hmax, rfl⟩
    have hfound : searchEnd data data.length 0 = .ok (0 + data.length - last - 2) :=
      (searchEnd_ok_iff (Nat.le_refl _)).mpr ⟨last, hend.lt, hend, fun k hk _ => hmax k hk, rfl⟩
    rw [getFileEnd2, hlength, hfound]
    have hlast := hend.lt
    exact congrArg Except.ok (by omega)

theorem only_getFileEnd2 (data : List UInt8) (pos endPos : Nat) :
    Only IsOutside (getFileEnd2 data pos endPos) :=
  (only_searchEnd _ _ _).bind fun _ => only_ok _

end Search

-- The cases of the switch.
section Cases

variable {data : List UInt8} {s u : DecodeState} {pos : Nat}

theorem quantifyCase_ok_iff : (∃ u, quantifyCase data s = .ok u) ↔ QuantifyInside data s.posTot := by
  rw [quantifyCase, exists_bind_ok]
  apply exists_congr
  intro len
  rw [getDataLength_eq_ok]
  apply and_congr_right
  intro _
  rw [exists_bind_ok]
  constructor
  · rintro ⟨table, htable, -⟩
    have hinside := fileRange_ok_iff.mp ⟨table, htable⟩
    omega
  · intro h
    obtain ⟨table, htable⟩ : ∃ table, fileRange data (s.posTot + 3) (len - 3) = .ok table :=
      fileRange_ok_iff.mpr (by omega)
    exact ⟨table, htable, _, rfl⟩

theorem quantifyCase_posTot (h : quantifyCase data s = .ok u) : u.posTot = s.posTot + 3 := by
  obtain ⟨len, -, h⟩ := of_bind_ok h
  obtain ⟨table, -, h⟩ := of_bind_ok h
  cases h
  rfl

theorem only_quantifyCase (data : List UInt8) (s : DecodeState) : Only IsOutside (quantifyCase data s) :=
  (only_getDataLength _ _).bind fun _ => (only_fileRange _ _ _).bind fun _ => only_ok _

theorem idsInside_iff {stride : Nat} :
    (∃ count, fileByte data pos = .ok count ∧ ∃ ids, readIds data stride count.toNat pos = .ok ids) ↔
      IdsInside data pos stride := by
  apply exists_congr
  intro count
  rw [fileByte_eq_ok, readIds_ok_iff]
  apply and_congr_right
  intro hcount
  have hlt := (List.getElem?_eq_some_iff.mp hcount).1
  constructor
  · rintro (hzero | hinside)
    · rw [hzero]
      exact hlt
    · exact hinside
  · exact Or.inr

theorem imgInfoCase_inside {r : Option DecodeState} (h : imgInfoCase data s = .ok r) :
    r = none ∧ OtherSize data s.posTot ∨
      ∃ u, r = some u ∧ u.posTot = s.posTot ∧ ImgInfoInside data s.posTot := by
  obtain ⟨len, -, h⟩ := of_bind_ok h
  obtain ⟨height, hheight, h⟩ := of_bind_ok h
  obtain ⟨width, hwidth, h⟩ := of_bind_ok h
  rw [getDataLength_eq_ok] at hheight hwidth
  split at h
  · rename_i hother
    cases h
    exact .inl ⟨rfl, height, width, hheight, hwidth, hother⟩
  · rename_i hsame
    obtain ⟨count, hcount, h⟩ := of_bind_ok h
    obtain ⟨ids, hids, h⟩ := of_bind_ok h
    cases h
    obtain ⟨rfl, rfl⟩ : height = 512 ∧ width = 640 := by omega
    exact .inr ⟨_, rfl, rfl, hheight, hwidth, idsInside_iff.mp ⟨count, hcount, ids, hids⟩⟩

-- The first length is read for nothing, and the size stands behind it.
theorem imgInfoCase_otherSize (h : OtherSize data s.posTot) : imgInfoCase data s = .ok none := by
  obtain ⟨height, width, hheight, hwidth, hother⟩ := h
  have hlt := hheight.lt
  obtain ⟨len, hlen⟩ := exists_lengthAt (show s.posTot + 1 < data.length by omega)
  rw [imgInfoCase, getDataLength_eq_ok.mpr hlen, getDataLength_eq_ok.mpr hheight,
    getDataLength_eq_ok.mpr hwidth]
  exact if_pos hother

theorem imgInfoCase_sameSize (h : ImgInfoInside data s.posTot) :
    ∃ u, imgInfoCase data s = .ok (some u) := by
  obtain ⟨hheight, hwidth, hids⟩ := h
  obtain ⟨count, hcount, ids, hids⟩ := idsInside_iff.mpr hids
  have hlt := hheight.lt
  obtain ⟨len, hlen⟩ := exists_lengthAt (show s.posTot + 1 < data.length by omega)
  rw [imgInfoCase, getDataLength_eq_ok.mpr hlen, getDataLength_eq_ok.mpr hheight,
    getDataLength_eq_ok.mpr hwidth]
  dsimp only [bind, Except.bind]
  rw [if_neg (by decide), hcount]
  dsimp only
  rw [hids]
  exact ⟨_, rfl⟩

theorem only_imgInfoCase (data : List UInt8) (s : DecodeState) : Only IsOutside (imgInfoCase data s) := by
  refine (only_getDataLength _ _).bind fun _ => (only_getDataLength _ _).bind fun _ =>
    (only_getDataLength _ _).bind fun _ => ?_
  split
  · exact only_ok _
  · exact (only_fileByte _ _).bind fun _ => (only_readIds _ _ _ _).bind fun _ => only_ok _

theorem tableCase_ok_iff : (∃ u, tableCase data s = .ok u) ↔ TableInside data s.posTot := by
  rw [tableCase, exists_bind_ok]
  apply exists_congr
  intro len
  rw [getDataLength_eq_ok]
  apply and_congr_right
  intro hlen
  have hlt := hlen.lt
  rw [exists_bind_ok]
  constructor
  · rintro ⟨table, htable, hrest⟩
    obtain ⟨pdata, hpdata, -⟩ := exists_bind_ok.mp hrest
    have hinside := fileRange_ok_iff.mp ⟨table, htable⟩
    have hcounts := huffLoop_ok_iff.mp ⟨pdata, hpdata⟩
    omega
  · intro h
    obtain ⟨table, htable⟩ : ∃ table, fileRange data s.posTot len = .ok table :=
      fileRange_ok_iff.mpr (by omega)
    obtain ⟨pdata, hpdata⟩ : ∃ pdata, huffLoop data 16 (s.posTot + 3) 0 = .ok pdata :=
      huffLoop_ok_iff.mpr (by omega)
    exact ⟨table, htable, exists_bind_ok.mpr ⟨pdata, hpdata, _, rfl⟩⟩

theorem tableCase_posTot (h : tableCase data s = .ok u) : u.posTot = s.posTot + 19 := by
  obtain ⟨len, -, h⟩ := of_bind_ok h
  obtain ⟨table, -, h⟩ := of_bind_ok h
  obtain ⟨pdata, -, h⟩ := of_bind_ok h
  cases h
  rfl

theorem only_tableCase (data : List UInt8) (s : DecodeState) : Only IsOutside (tableCase data s) :=
  (only_getDataLength _ _).bind fun _ => (only_fileRange _ _ _).bind fun _ =>
    (only_huffLoop _ _ _ _).bind fun _ => only_ok _

-- The bytes up to the end marker are in the file, unless there are less than none of them.
theorem avoids_copyData_iff {last : Nat} (hlast : last + 1 < data.length) :
    Avoids IsOutside (copyData data pos (last + 2 - pos)) ↔ pos ≤ last + 2 ∨ last + 18 ≤ pos := by
  have hround : (last + 2 - pos : Int) + leftnum (last + 2 - pos) < 0 ↔ last + 18 ≤ pos := by
    unfold leftnum DATA_MOD
    split <;> omega
  unfold copyData
  split
  · rename_i hnegative
    constructor
    · intro _
      exact .inr (hround.mp hnegative)
    · rintro _ e he ⟨index, rfl⟩
      cases he
  · rename_i hnegative
    rw [hround] at hnegative
    rw [(only_fileRange _ _ _).avoids_bind_iff]
    constructor
    · rintro ⟨bytes, hbytes, -⟩
      have hinside := fileRange_ok_iff.mp ⟨bytes, hbytes⟩
      omega
    · intro h
      obtain ⟨bytes, hbytes⟩ : ∃ bytes, fileRange data pos (last + 2 - pos) = .ok bytes :=
        fileRange_ok_iff.mpr (by omega)
      exact ⟨bytes, hbytes, avoids_ok _⟩

theorem avoids_dataStartCase_iff (hne : data ≠ []) :
    Avoids IsOutside (dataStartCase data s) ↔ ScanInside data s.posTot := by
  constructor
  · intro h
    obtain ⟨count, hcount, h⟩ := (only_fileByte _ _).avoids_bind_iff.mp h
    obtain ⟨ids, hids, h⟩ := (only_readIds _ _ _ _).avoids_bind_iff.mp h
    obtain ⟨len, hlen, h⟩ := (only_getDataLength _ _).avoids_bind_iff.mp h
    obtain ⟨dataLen, hdataLen, h⟩ := (only_getFileEnd2 _ _ _).avoids_bind_iff.mp h
    obtain ⟨last, hend, hmax, rfl⟩ := (getFileEnd2_ok_iff hne).mp hdataLen
    exact ⟨len, last, idsInside_iff.mp ⟨count, hcount, ids, hids⟩, getDataLength_eq_ok.mp hlen, hend, hmax,
      (avoids_copyData_iff hend.lt).mp h.of_bind⟩
  · rintro ⟨len, last, hids, hlen, hend, hmax, hcopy⟩
    obtain ⟨count, hcount, ids, hids⟩ := idsInside_iff.mpr hids
    have hdataLen : getFileEnd2 data (s.posTot + len) (data.length - 1) =
      .ok (last + 2 - ↑(s.posTot + len)) :=
      (getFileEnd2_ok_iff hne).mpr ⟨last, hend, hmax, rfl⟩
    refine (only_fileByte _ _).avoids_bind_iff.mpr ⟨count, hcount, ?_⟩
    refine (only_readIds _ _ _ _).avoids_bind_iff.mpr ⟨ids, hids, ?_⟩
    refine (only_getDataLength _ _).avoids_bind_iff.mpr ⟨len, getDataLength_eq_ok.mpr hlen, ?_⟩
    refine (only_getFileEnd2 _ _ _).avoids_bind_iff.mpr ⟨_, hdataLen, ?_⟩
    exact ((avoids_copyData_iff hend.lt).mpr hcopy).bind fun _ => avoids_ok _

end Cases

-- One round of the loop, and all of them.
section Rounds

variable {data : List UInt8} {s : DecodeState} {pos next n : Nat} {b key : UInt8} {P : Nat → Prop}

theorem segment_byte_iff (hbyte : data[pos]? = some b) (hne : b ≠ START) :
    Segment data pos next ↔ next = pos + 1 := by
  constructor
  · intro h
    cases h with
    | byte => rfl
    | marker hstart =>
        rw [hstart] at hbyte
        exact absurd (Option.some.inj hbyte).symm hne
  · rintro rfl
    exact .byte hbyte hne

theorem segment_marker_iff (hstart : data[pos]? = some START) (hkey : data[pos + 1]? = some key) :
    Segment data pos next ↔ Passes data (pos + 2) key next := by
  constructor
  · intro h
    cases h with
    | byte hbyte hne =>
        rw [hstart] at hbyte
        exact absurd (Option.some.inj hbyte).symm hne
    | marker _ hkey' hpasses =>
        rw [hkey] at hkey'
        rw [Option.some.inj hkey']
        exact hpasses
  · exact .marker hstart hkey

theorem final_marker_iff (hstart : data[pos]? = some START) (hkey : data[pos + 1]? = some key) :
    Final data pos ↔ Ends data (pos + 2) key := by
  constructor
  · rintro ⟨key', -, hkey', hends⟩
    rw [hkey] at hkey'
    rw [Option.some.inj hkey']
    exact hends
  · intro hends
    exact ⟨key, hstart, hkey, hends⟩

theorem Final.start (h : Final data pos) : data[pos]? = some START := by
  obtain ⟨key, hstart, -⟩ := h
  exact hstart

theorem Segment.lt (h : Segment data pos next) : pos < data.length := by
  cases h with
  | byte hbyte => exact (List.getElem?_eq_some_iff.mp hbyte).1
  | marker hstart => exact (List.getElem?_eq_some_iff.mp hstart).1

theorem Passes.le (h : Passes data pos key next) : pos ≤ next := by
  unfold Passes at h
  split at h
  · omega
  split at h
  · omega
  split at h <;> omega

-- Only a byte that is no marker is passed alone.
theorem Segment.advance (h : Segment data pos next) :
    pos + 2 ≤ next ∨ next = pos + 1 ∧ data[pos]? ≠ some START := by
  cases h with
  | byte hbyte hne =>
      right
      rw [hbyte]
      exact ⟨rfl, fun h => hne (Option.some.inj h)⟩
  | marker _ _ hpasses => exact .inl hpasses.le

theorem complete_iff :
    Complete data pos ↔ Final data pos ∨ ∃ next, Segment data pos next ∧ Complete data next := by
  constructor
  · rintro ⟨last, hpath, hfinal⟩
    cases hpath.cases_head with
    | inl hsame => exact .inl (hsame ▸ hfinal)
    | inr hstep =>
        obtain ⟨next, hseg, hrest⟩ := hstep
        exact .inr ⟨next, hseg, last, hrest, hfinal⟩
  · rintro (hfinal | ⟨next, hseg, last, hrest, hfinal⟩)
    · exact ⟨pos, .refl, hfinal⟩
    · exact ⟨last, .head hseg hrest, hfinal⟩

-- A case that goes on at one place.
theorem avoids_case_iff {x : Except DecodeFault DecodeState} {f : DecodeState → Except DecodeFault Decoded}
    {inside : Prop} (honly : Only IsOutside x) (hok : (∃ u, x = .ok u) ↔ inside)
    (hpos : ∀ u, x = .ok u → u.posTot = next)
    (hP : ∀ u, inside → u.posTot = next → (Avoids IsOutside (f u) ↔ P u.posTot)) :
    Avoids IsOutside (x.bind f) ↔ ∃ p, (inside ∧ p = next) ∧ P p := by
  rw [show x.bind f = x >>= f from rfl, honly.avoids_bind_iff]
  constructor
  · rintro ⟨u, hu, hrest⟩
    have hinside := hok.mp ⟨u, hu⟩
    exact ⟨u.posTot, ⟨hinside, hpos u hu⟩, (hP u hinside (hpos u hu)).mp hrest⟩
  · rintro ⟨p, ⟨hinside, rfl⟩, hp⟩
    obtain ⟨u, hu⟩ := hok.mpr hinside
    refine ⟨u, hu, (hP u hinside (hpos u hu)).mpr ?_⟩
    rw [hpos u hu]
    exact hp

theorem not_ends (himg : key ≠ IMGINFO) (hdata : key ≠ DATA_START) : ¬Ends data pos key := by
  rintro (⟨h, -⟩ | ⟨h, -⟩)
  · exact himg h
  · exact hdata h

theorem avoids_imgInfo_iff {f : DecodeState → Except DecodeFault Decoded} {d : Decoded}
    (hP : ∀ u, ImgInfoInside data s.posTot → u.posTot = s.posTot → (Avoids IsOutside (f u) ↔ P u.posTot)) :
    Avoids IsOutside ((imgInfoCase data s).bind fun
        | none => .ok d
        | some u => f u) ↔
      OtherSize data s.posTot ∨ ImgInfoInside data s.posTot ∧ P s.posTot := by
  refine Iff.trans (only_imgInfoCase data s).avoids_bind_iff ?_
  constructor
  · rintro ⟨r, hr, hrest⟩
    obtain ⟨rfl, hother⟩ | ⟨u, rfl, hu, hinside⟩ := imgInfoCase_inside hr
    · exact .inl hother
    · exact .inr ⟨hinside, hu ▸ (hP u hinside hu).mp hrest⟩
  · rintro (hother | ⟨hinside, hp⟩)
    · exact ⟨none, imgInfoCase_otherSize hother, avoids_ok d⟩
    · obtain ⟨u, hu⟩ := imgInfoCase_sameSize hinside
      obtain ⟨hnone, -⟩ | ⟨u', hsome, hpos, -⟩ := imgInfoCase_inside hu
      · cases hnone
      · cases hsome
        exact ⟨some u, hu, (hP u hinside hpos).mpr (hpos.symm ▸ hp)⟩

theorem avoids_marker_iff (hstart : data[s.posTot]? = some START) (hkey : data[s.posTot + 1]? = some key)
    (hP : ∀ u, Passes data (s.posTot + 2) key u.posTot → (Avoids IsOutside (scan data n u) ↔ P u.posTot)) :
    Avoids IsOutside (scan data (n + 1) s) ↔
      Ends data (s.posTot + 2) key ∨ ∃ next, Passes data (s.posTot + 2) key next ∧ P next := by
  rw [scan_marker hstart hkey]
  by_cases hquantify : key = QUANTIFY
  · subst hquantify
    rw [if_pos rfl, or_iff_right (not_ends (by decide) (by decide))]
    exact avoids_case_iff (only_quantifyCase data (behind s)) quantifyCase_ok_iff
      (fun u => quantifyCase_posTot) fun u hinside hu => hP u ⟨hinside, hu⟩
  rw [if_neg hquantify]
  by_cases himgInfo : key = IMGINFO
  · subst himgInfo
    rw [if_pos rfl]
    have hgoes : ∀ u, ImgInfoInside data (behind s).posTot → u.posTot = (behind s).posTot →
        (Avoids IsOutside (scan data n u) ↔ P u.posTot) := fun u hinside hu => hP u ⟨hinside, hu⟩
    refine Iff.trans (avoids_imgInfo_iff hgoes) ?_
    constructor
    · rintro (hother | ⟨hinside, hp⟩)
      · exact .inl (.inl ⟨rfl, hother⟩)
      · exact .inr ⟨s.posTot + 2, ⟨hinside, rfl⟩, hp⟩
    · rintro ((⟨-, hother⟩ | ⟨hdata, -⟩) | ⟨next, ⟨hinside, rfl⟩, hp⟩)
      · exact .inl hother
      · exact absurd hdata (by decide)
      · exact .inr ⟨hinside, hp⟩
  rw [if_neg himgInfo]
  by_cases htable : key = TABLE
  · subst htable
    rw [if_pos rfl, or_iff_right (not_ends (by decide) (by decide))]
    exact avoids_case_iff (only_tableCase data (behind s)) tableCase_ok_iff (fun u => tableCase_posTot)
      fun u hinside hu => hP u ⟨hinside, hu⟩
  rw [if_neg htable]
  unfold Passes at hP ⊢
  simp only [if_neg hquantify, if_neg himgInfo, if_neg htable] at hP ⊢
  by_cases hdata : key = DATA_START
  · have hne : data ≠ [] := by
      rintro rfl
      cases hstart
    rw [if_pos hdata, avoids_dataStartCase_iff hne]
    constructor
    · intro h
      exact .inl (.inr ⟨hdata, h⟩)
    · rintro ((⟨himg, -⟩ | ⟨-, h⟩) | ⟨next, ⟨hnot, -⟩, -⟩)
      · exact absurd himg himgInfo
      · exact h
      · exact absurd hdata hnot
  · rw [if_neg hdata, or_iff_right (not_ends himgInfo hdata), hP (behind s) ⟨hdata, rfl⟩]
    constructor
    · intro hp
      exact ⟨s.posTot + 2, ⟨hdata, rfl⟩, hp⟩
    · rintro ⟨next, ⟨-, rfl⟩, hp⟩
      exact hp

theorem avoids_scan_succ_iff
    (hP : ∀ u, Segment data s.posTot u.posTot → (Avoids IsOutside (scan data n u) ↔ P u.posTot)) :
    Avoids IsOutside (scan data (n + 1) s) ↔
      Final data s.posTot ∨ ∃ next, Segment data s.posTot next ∧ P next := by
  by_cases hpos : data.length ≤ s.posTot
  · have hnone := List.getElem?_eq_none hpos
    rw [scan_end hpos]
    constructor
    · intro h
      exact absurd h (not_avoids_error ⟨_, rfl⟩)
    · rintro (hfinal | ⟨next, hseg, -⟩)
      · exact absurd (hnone.symm.trans hfinal.start) nofun
      · exact absurd hseg.lt (Nat.not_lt.mpr hpos)
  have hbyte := List.getElem?_eq_getElem (Nat.lt_of_not_le hpos)
  by_cases hne : data[s.posTot] = START
  · rw [hne] at hbyte
    by_cases hkey : data.length ≤ s.posTot + 1
    · have hnone := List.getElem?_eq_none hkey
      rw [scan_marker_end hbyte hkey]
      constructor
      · intro h
        exact absurd h (not_avoids_error ⟨_, rfl⟩)
      · rintro (⟨key, -, hkey', -⟩ | ⟨next, hseg, -⟩)
        · exact absurd (hnone.symm.trans hkey') nofun
        · cases hseg with
          | byte hbyte' hne' => exact absurd (Option.some.inj (hbyte'.symm.trans hbyte)) hne'
          | marker _ hkey' => exact absurd (hnone.symm.trans hkey') nofun
    · have hkey' := List.getElem?_eq_getElem (Nat.lt_of_not_le hkey)
      simp only [segment_marker_iff hbyte hkey'] at hP ⊢
      rw [final_marker_iff hbyte hkey']
      exact avoids_marker_iff hbyte hkey' hP
  · simp only [segment_byte_iff hbyte hne] at hP ⊢
    rw [scan_skip hbyte hne, hP { s with posTot := s.posTot + 1 } rfl]
    constructor
    · intro hp
      exact .inr ⟨s.posTot + 1, rfl, hp⟩
    · rintro (hfinal | ⟨next, rfl, hp⟩)
      · exact absurd (Option.some.inj (hbyte.symm.trans hfinal.start)) hne
      · exact hp

-- The rounds run out behind the file only, as the marker at index 2 takes two bytes.
theorem avoids_scan_iff (hthird : data[2]? = some START) (hlength : 4 ≤ data.length)
    (hrounds : data.length < s.posTot + n ∨ s.posTot + n = data.length ∧ s.posTot ≤ 2) (hn : 0 < n) :
    Avoids IsOutside (scan data n s) ↔ Complete data s.posTot := by
  induction n generalizing s with
  | zero => exact absurd hn (Nat.lt_irrefl 0)
  | succ n ih =>
      rw [complete_iff]
      apply avoids_scan_succ_iff
      intro u hseg
      have hlt := hseg.lt
      apply ih
      · obtain hfar | ⟨hnext, hbyte⟩ := hseg.advance
        · omega
        · have hnot : s.posTot ≠ 2 := by
            intro htwo
            rw [htwo] at hbyte
            exact hbyte hthird
          omega
      · omega

end Rounds

-- Exactly these files are read inside.
theorem reads_inside_iff (content : List UInt8) :
    (∀ index, getDecodeTable content ≠ .error (.outOfFile index)) ↔
      ∃ third, (loaded content)[2]? = some third ∧
        (third ≠ START ∨ ∃ fourth, (loaded content)[3]? = some fourth ∧
          (fourth ≠ 0xE0 ∨ Complete (loaded content) 0)) := by
  have havoids : (∀ index, getDecodeTable content ≠ .error (.outOfFile index)) ↔
      Avoids IsOutside (getDecodeTable content) := by
    constructor
    · rintro h e he ⟨index, rfl⟩
      exact h index he
    · intro h index he
      exact h _ he ⟨index, rfl⟩
  rw [havoids, getDecodeTable]
  refine Iff.trans (only_fileByte _ _).avoids_bind_iff ?_
  apply exists_congr
  intro third
  rw [fileByte_eq_ok]
  apply and_congr_right
  intro hthird
  by_cases hstart : third = START
  · rw [if_neg (not_not.mpr hstart), or_iff_right (not_not.mpr hstart)]
    refine Iff.trans (only_fileByte _ _).avoids_bind_iff ?_
    apply exists_congr
    intro fourth
    rw [fileByte_eq_ok]
    apply and_congr_right
    intro hfourth
    by_cases happ : fourth = 0xE0
    · have hlength := (List.getElem?_eq_some_iff.mp hfourth).1
      rw [if_neg (not_not.mpr happ), or_iff_right (not_not.mpr happ)]
      exact avoids_scan_iff (hstart ▸ hthird) hlength (.inr ⟨Nat.zero_add _, Nat.zero_le _⟩)
        (Nat.zero_lt_of_lt hlength)
    · rw [if_pos happ]
      exact ⟨fun _ => .inl happ, fun _ => avoids_ok _⟩
  · rw [if_pos hstart]
    exact ⟨fun _ => .inl hstart, fun _ => avoids_ok _⟩

example : (getDecodeTable [0xFF, 0xD8, 0xFF, 0xE0, 0xFF, 0xDA, 0, 3, 0, 7, 0xFF, 0xD9]).isOk = true := by
  decide

-- The last header has no marker behind it.
theorem read_behind_file : getDecodeTable [0xFF, 0xD8, 0xFF, 0xE0] = .error (.outOfFile 4) := by decide

end FpgaDecode

end Vcu
