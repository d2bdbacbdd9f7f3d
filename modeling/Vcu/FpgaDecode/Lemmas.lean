import Vcu.Common
import Vcu.FpgaDecode

namespace Vcu

namespace FpgaDecode

section Reads

variable {data : List UInt8} {pos index : Nat} {b : UInt8}

theorem fileByte_eq_ok : fileByte data index = .ok b ↔ data[index]? = some b := by
  unfold fileByte
  cases data[index]? with
  | none => exact ⟨nofun, nofun⟩
  | some c =>
      constructor
      · intro h
        rw [Except.ok.inj h]
      · intro h
        rw [Option.some.inj h]

theorem fileByte_of_le (h : data.length ≤ index) : fileByte data index = .error (.outOfFile index) := by
  unfold fileByte
  rw [List.getElem?_eq_none h]

theorem fileByte_of_lt (h : index < data.length) : fileByte data index = .ok data[index] :=
  fileByte_eq_ok.mpr (List.getElem?_eq_getElem h)

theorem fileRange_length {len : Nat} {bytes : List UInt8} (h : fileRange data pos len = .ok bytes) :
    bytes.length = len := by
  unfold fileRange at h
  split at h
  · rename_i hinside
    cases h
    rw [List.length_take, List.length_drop, Int.toNat_natCast]
    omega
  · cases h

end Reads

-- The loop, by what it reads.
section Scan

variable {data : List UInt8} {s : DecodeState} {i : Nat} {b : UInt8}

-- The position behind a marker.
def behind (s : DecodeState) : DecodeState := { s with posTot := s.posTot + 2 }

theorem scan_end (h : data.length ≤ s.posTot) : scan data (i + 1) s = .error (.outOfFile s.posTot) := by
  rw [scan, fileByte_of_le h]
  rfl

theorem scan_skip (h : data[s.posTot]? = some b) (hb : b ≠ START) :
    scan data (i + 1) s = scan data i { s with posTot := s.posTot + 1 } := by
  rw [scan, fileByte_eq_ok.mpr h]
  exact if_pos hb

theorem scan_marker_end (h : data[s.posTot]? = some START) (hend : data.length ≤ s.posTot + 1) :
    scan data (i + 1) s = .error (.outOfFile (s.posTot + 1)) := by
  rw [scan, fileByte_eq_ok.mpr h, fileByte_of_le hend]
  rfl

theorem scan_marker (h : data[s.posTot]? = some START) (hb : data[s.posTot + 1]? = some b) :
    scan data (i + 1) s =
      if b = QUANTIFY then (quantifyCase data (behind s)).bind (scan data i)
      else if b = IMGINFO then
        (imgInfoCase data (behind s)).bind fun
          | none => .ok (decoded (behind s) (-1))
          | some u => scan data i u
      else if b = TABLE then (tableCase data (behind s)).bind (scan data i)
      else if b = DATA_START then dataStartCase data (behind s)
      else scan data i (behind s) := by
  rw [scan, fileByte_eq_ok.mpr h, fileByte_eq_ok.mpr hb]
  rfl

end Scan

-- What the cases do to the Huffman buffer. It only grows.
section Buffers

variable {data : List UInt8} {s u : DecodeState} {d : Decoded}

theorem quantifyCase_pHuff (h : quantifyCase data s = .ok u) : u.pHuff = s.pHuff := by
  unfold quantifyCase at h
  obtain ⟨len, -, h⟩ := of_bind_ok h
  obtain ⟨table, -, h⟩ := of_bind_ok h
  cases h
  rfl

theorem imgInfoCase_pHuff (h : imgInfoCase data s = .ok (some u)) : u.pHuff = s.pHuff := by
  unfold imgInfoCase at h
  obtain ⟨_, -, h⟩ := of_bind_ok h
  obtain ⟨height, -, h⟩ := of_bind_ok h
  obtain ⟨width, -, h⟩ := of_bind_ok h
  split at h
  · cases h
  · obtain ⟨count, -, h⟩ := of_bind_ok h
    obtain ⟨ids, -, h⟩ := of_bind_ok h
    cases h
    rfl

theorem tableCase_pHuff (h : tableCase data s = .ok u) :
    ∃ len table pdata, getDataLength data s.posTot = .ok len ∧ fileRange data s.posTot len = .ok table ∧
      huffLoop data 16 (s.posTot + 3) 0 = .ok pdata ∧
      u.pHuff = s.pHuff ++ table ++ pdata.flatMap fun entry => LittleEndian.encode 2 entry.toNat := by
  unfold tableCase at h
  obtain ⟨len, hlen, h⟩ := of_bind_ok h
  obtain ⟨table, htable, h⟩ := of_bind_ok h
  obtain ⟨pdata, hpdata, h⟩ := of_bind_ok h
  cases h
  exact ⟨len, table, pdata, hlen, htable, hpdata, rfl⟩

theorem dataStartCase_pHuff (h : dataStartCase data s = .ok d) :
    d.pHuff = s.pHuff ++ huffPadding s.huffLength := by
  unfold dataStartCase at h
  obtain ⟨count, -, h⟩ := of_bind_ok h
  obtain ⟨ids, -, h⟩ := of_bind_ok h
  obtain ⟨len, -, h⟩ := of_bind_ok h
  obtain ⟨dataLen, -, h⟩ := of_bind_ok h
  obtain ⟨pDetData, -, h⟩ := of_bind_ok h
  cases h
  rfl

theorem scan_pHuff {n : Nat} (h : scan data n s = .ok d) : s.pHuff <+: d.pHuff := by
  induction n generalizing s with
  | zero =>
      cases h
      exact List.prefix_rfl
  | succ n ih =>
      by_cases hpos : data.length ≤ s.posTot
      · rw [scan_end hpos] at h
        cases h
      have hkey := List.getElem?_eq_getElem (Nat.lt_of_not_le hpos)
      by_cases hstart : data[s.posTot] = START
      · rw [hstart] at hkey
        by_cases hpos' : data.length ≤ s.posTot + 1
        · rw [scan_marker_end hkey hpos'] at h
          cases h
        rw [scan_marker hkey (List.getElem?_eq_getElem (Nat.lt_of_not_le hpos'))] at h
        split at h
        · obtain ⟨u, hu, h⟩ := of_bind_ok h
          have hsame := quantifyCase_pHuff hu
          exact hsame ▸ ih h
        split at h
        · obtain ⟨result, hu, h⟩ := of_bind_ok h
          cases result with
          | none =>
              cases h
              exact List.prefix_rfl
          | some u =>
              have hsame := imgInfoCase_pHuff hu
              exact hsame ▸ ih h
        split at h
        · obtain ⟨u, hu, h⟩ := of_bind_ok h
          obtain ⟨len, table, pdata, -, -, -, hgrows⟩ := tableCase_pHuff hu
          refine List.IsPrefix.trans ?_ (ih h)
          rw [hgrows, List.append_assoc]
          exact List.prefix_append _ _
        split at h
        · rw [dataStartCase_pHuff h]
          exact List.prefix_append _ _
        · exact ih (s := behind s) h
      · rw [scan_skip hkey hstart] at h
        exact ih (s := { s with posTot := s.posTot + 1 }) h

end Buffers

end FpgaDecode

end Vcu
