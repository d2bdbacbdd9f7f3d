import Vcu.FpgaDecode.HuffmanCodes
import Vcu.FpgaDecode.Reads
import Vcu.Lib.Cursor

namespace Vcu

namespace FpgaDecode

open Cursor

def bigEndian (n : Nat) : List UInt8 := [UInt8.ofNat (n / 256), UInt8.ofNat n]

-- A byte behind 0xFF that the switch has a case for.
def IsKey (b : UInt8) : Prop := b = QUANTIFY ∨ b = IMGINFO ∨ b = TABLE ∨ b = DATA_START

instance (b : UInt8) : Decidable (IsKey b) := inferInstanceAs (Decidable (_ ∨ _ ∨ _ ∨ _))

-- Bytes that the loop passes one by one, or two by two, without a case of the switch.
inductive Quiet : List UInt8 → Prop where
  | nil : Quiet []
  | byte {b : UInt8} {bytes : List UInt8} (hb : b ≠ START) (h : Quiet bytes) : Quiet (b :: bytes)
  | marker {key : UInt8} {bytes : List UInt8} (hkey : ¬ IsKey key) (h : Quiet bytes) :
      Quiet (START :: key :: bytes)

-- A segment of a JPEG file. Those of a marker without a case are skipped.
inductive JpegSegment where
  | other (marker : UInt8) (body : List UInt8)
  | quantify (id : UInt8) (values : List UInt8)
  | table (id : UInt8) (counts symbols : List UInt8)

namespace JpegSegment

def marker : JpegSegment → UInt8
  | other marker _ => marker
  | quantify .. => QUANTIFY
  | table .. => TABLE

-- What stands behind the marker. The length counts itself.
def body : JpegSegment → List UInt8
  | other _ body => bigEndian (body.length + 2) ++ body
  | quantify id values => bigEndian (values.length + 3) ++ id :: values
  | table id counts symbols => bigEndian (counts.length + symbols.length + 3) ++ id :: (counts ++ symbols)

def bytes (segment : JpegSegment) : List UInt8 := START :: segment.marker :: segment.body

-- What the FPGA gets of it for its quantization tables and for its Huffman tables, where the segment
-- is followed by the first codes.
def qt : JpegSegment → List UInt8
  | quantify _ values => values
  | _ => []

def huff : JpegSegment → List UInt8
  | table id counts symbols =>
      (table id counts symbols).body ++
        (huffTable counts 0).flatMap fun entry => LittleEndian.encode 2 entry.toNat
  | _ => []

-- The loop goes on behind the header of a table, so that it must not find a marker in the table.
def Valid : JpegSegment → Prop
  | other marker body => ¬ IsKey marker ∧ Quiet (bigEndian (body.length + 2) ++ body)
  | quantify _ values => values.length + 3 < 65536 ∧ Quiet values
  | table _ counts symbols =>
      counts.length = 16 ∧ counts.length + symbols.length + 3 < 65536 ∧ Quiet symbols

end JpegSegment

-- A file with a picture of 640 x 512. The segments before and behind the frame header have one table
-- each, and `spectral` is the end of the scan header.
structure Jpeg where
  app0 : List UInt8
  before : List JpegSegment
  precision : UInt8
  components : List (UInt8 × UInt8 × UInt8)
  after : List JpegSegment
  selectors : List (UInt8 × UInt8)
  spectral : List UInt8
  data : List UInt8
  trailer : List UInt8

namespace Jpeg

variable (j : Jpeg)

def segments : List JpegSegment := j.before ++ j.after

def frame : List UInt8 :=
  bigEndian (3 * j.components.length + 8) ++ j.precision :: (bigEndian 512 ++ bigEndian 640 ++
    UInt8.ofNat j.components.length :: j.components.flatMap fun c => [c.1, c.2.1, c.2.2])

def scanHeader : List UInt8 :=
  bigEndian (2 * j.selectors.length + j.spectral.length + 3) ++
    UInt8.ofNat j.selectors.length :: (j.selectors.flatMap (fun c => [c.1, c.2]) ++ j.spectral)

-- The entropy-coded data with the end marker.
def coded : List UInt8 := j.data ++ [START, DATA_END]

def bytes : List UInt8 :=
  [START, 0xD8] ++ (JpegSegment.other 0xE0 j.app0).bytes ++ j.before.flatMap JpegSegment.bytes ++
    START :: IMGINFO :: j.frame ++ j.after.flatMap JpegSegment.bytes ++
    START :: DATA_START :: j.scanHeader ++ j.coded ++ j.trailer

-- The data in blocks of 16 bytes.
def padded : List UInt8 := j.coded ++ List.replicate ((16 - j.coded.length % 16) % 16) cMa

def huff : List UInt8 := j.segments.flatMap JpegSegment.huff

-- The fields that the header has of this picture.
def fields : List UInt8 :=
  LittleEndian.encode 2 512 ++ LittleEndian.encode 2 640 ++ j.components.map (fun c => c.2.2) ++
    j.selectors.map Prod.snd

structure Valid : Prop where
  app0 : (JpegSegment.other 0xE0 j.app0).Valid
  segments : ∀ segment ∈ j.segments, segment.Valid
  frame : Quiet j.frame
  fields : j.fields.length ≤ 60
  spectral : j.spectral.length = 3
  trailer : ∀ k, ¬ EndMarker j.trailer k
  huff : j.huff.length < 65536
  length : j.bytes.length < 2147483648

-- What the FPGA gets of the file.
def tables : Decoded where
  ret := 0
  pHead := startHead.take 20 ++ LittleEndian.encode 3 (j.padded.length / 16) ++ startHead.drop 23 ++
    j.fields ++ List.replicate (60 - j.fields.length) 0 ++ LittleEndian.encode 4 0xFFFFFFFF
  pQt := j.segments.flatMap JpegSegment.qt
  pHuff := j.huff ++ if j.huff = [] then [] else List.replicate (16 - j.huff.length % 16) cMa
  detData := some (j.padded, j.padded.length)

end Jpeg

-- The reads at a position, by what stands there.
section Reads

variable {data bytes : List UInt8} {pos n : Nat}

theorem bigEndian_toNat (hn : n < 65536) :
    (UInt8.ofNat (n / 256)).toNat * 0x100 + (UInt8.ofNat n).toNat = n := by
  rw [UInt8.toNat_ofNat', UInt8.toNat_ofNat']
  omega

theorem getDataLength_of_has (h : Has data pos (bigEndian n)) (hn : n < 65536) :
    getDataLength data pos = .ok n := by
  obtain ⟨hhigh, h⟩ := has_cons.mp h
  exact getDataLength_eq_ok.mpr ⟨_, _, hhigh, (has_cons.mp h).1, (bigEndian_toNat hn).symm⟩

theorem fileRange_of_has (h : Has data pos bytes) : fileRange data pos bytes.length = .ok bytes := by
  have hinside : (bytes.length : Int) = 0 ∨ 0 ≤ (bytes.length : Int) ∧
      pos + (bytes.length : Int).toNat ≤ data.length := by
    by_cases hne : bytes = []
    · exact .inl (by rw [hne]; rfl)
    · exact .inr ⟨Int.natCast_nonneg _, h.le hne⟩
  rw [fileRange, if_pos hinside, Int.toNat_natCast, h.take]

-- The last byte of each component.
theorem readIds_of_has {α : Type} {items : List α} (stride : Nat) (block : α → List UInt8) (id : α → UInt8)
    (hblock : ∀ x, ∃ front, block x = front ++ [id x] ∧ front.length + 1 = stride)
    (h : Has data (pos + 1) (items.flatMap block)) :
    readIds data stride items.length pos = .ok (items.map id) := by
  induction items generalizing pos with
  | nil => rfl
  | cons x items ih =>
      obtain ⟨front, hfront, hlen⟩ := hblock x
      rw [List.flatMap_cons, hfront, List.append_assoc, has_append, List.singleton_append, has_cons] at h
      obtain ⟨-, hid, hrest⟩ := h
      have hnext : pos + 1 + front.length = pos + stride := by omega
      rw [hnext] at hid hrest
      rw [List.length_cons, readIds, fileByte_eq_ok.mpr hid]
      dsimp only [bind, Except.bind]
      rw [ih hrest]
      rfl

theorem huffLoop_of_has {counts : List UInt8} (h : Has data pos counts) (hlen : counts.length = 16) :
    huffLoop data 16 pos 0 = .ok (huffTable counts 0) :=
  huffLoop_eq hlen (fun _ hi => h.getElem? (by rwa [hlen])) 0

end Reads

-- The cases of the switch on what a segment has behind its marker.
section Cases

variable {data : List UInt8} {s : DecodeState}

theorem quantifyCase_of_has {id : UInt8} {values : List UInt8}
    (h : Has data s.posTot (JpegSegment.quantify id values).body) (hlen : values.length + 3 < 65536) :
    quantifyCase data s = .ok { s with posTot := s.posTot + 3, pQt := s.pQt ++ values } := by
  obtain ⟨hlength, h⟩ := has_append.mp h
  have hvalues : Has data (s.posTot + 3) values := (has_cons.mp h).2
  have hrange : (((values.length + 3 : Nat) : Int) - 3) = values.length := by omega
  rw [quantifyCase, getDataLength_of_has hlength hlen]
  dsimp only [bind, Except.bind]
  rw [hrange, fileRange_of_has hvalues]
  rfl

theorem tableCase_of_has {id : UInt8} {counts symbols : List UInt8}
    (h : Has data s.posTot (JpegSegment.table id counts symbols).body) (hcounts : counts.length = 16)
    (hlen : counts.length + symbols.length + 3 < 65536) :
    tableCase data s = .ok { s with
      posTot := s.posTot + 19
      pHuff := s.pHuff ++ (JpegSegment.table id counts symbols).huff
      huffLength := s.huffLength + UInt16.ofNat (counts.length + symbols.length + 3) + 32 } := by
  have hbody : (JpegSegment.table id counts symbols).body.length = counts.length + symbols.length + 3 := by
    simp [JpegSegment.body, bigEndian]
  have hrange := fileRange_of_has h
  rw [hbody] at hrange
  obtain ⟨hlength, h⟩ := has_append.mp h
  have hcodes : Has data (s.posTot + 3) counts := (has_append.mp (has_cons.mp h).2).1
  rw [tableCase, getDataLength_of_has hlength hlen]
  dsimp only [bind, Except.bind]
  rw [hrange, huffLoop_of_has hcodes hcounts]
  dsimp only [pure, Except.pure]
  rw [JpegSegment.huff, List.append_assoc]

theorem imgInfoCase_of_has {j : Jpeg} (h : Has data s.posTot j.frame) (hcount : j.components.length < 256) :
    imgInfoCase data s = .ok (some { s with
      pHead := put s.pHead s.posHead
        (LittleEndian.encode 2 512 ++ LittleEndian.encode 2 640 ++ j.components.map fun c => c.2.2)
      posHead := s.posHead + (j.components.length + 4) }) := by
  obtain ⟨hlength, h⟩ := has_append.mp h
  obtain ⟨-, h⟩ := has_cons.mp h
  obtain ⟨hsize, h⟩ := has_append.mp h
  have hheight : Has data (s.posTot + 3) (bigEndian 512) := (has_append.mp hsize).1
  have hwidth : Has data (s.posTot + 5) (bigEndian 640) := (has_append.mp hsize).2
  have hnumber : data[s.posTot + 7]? = some (UInt8.ofNat j.components.length) := (has_cons.mp h).1
  have hcomponents : Has data (s.posTot + 7 + 1) (j.components.flatMap fun c => [c.1, c.2.1, c.2.2]) :=
    (has_cons.mp h).2
  have hids := readIds_of_has 3 (fun c : UInt8 × UInt8 × UInt8 => [c.1, c.2.1, c.2.2])
    (fun c => c.2.2) (fun c => ⟨[c.1, c.2.1], rfl, rfl⟩) hcomponents
  have htoNat : (UInt8.ofNat j.components.length).toNat = j.components.length := by
    rw [UInt8.toNat_ofNat', Nat.mod_eq_of_lt hcount]
  rw [imgInfoCase, getDataLength_of_has hlength (by omega)]
  dsimp only [bind, Except.bind]
  rw [getDataLength_of_has hheight (by decide)]
  dsimp only [Except.bind]
  rw [getDataLength_of_has hwidth (by decide)]
  dsimp only [Except.bind]
  rw [if_neg (by decide), fileByte_eq_ok.mpr hnumber]
  dsimp only [Except.bind]
  have hblock : (LittleEndian.encode 2 512 ++ LittleEndian.encode 2 640 ++
      j.components.map fun c => c.2.2).length = j.components.length + 4 := by
    simp
    omega
  rw [htoNat, hids]
  dsimp only [pure, Except.pure]
  rw [hblock]

theorem leftnum_natCast (n : Nat) : leftnum n = ((16 - n % 16) % 16 : Nat) := by
  rw [leftnum, DATA_MOD]
  split <;> omega

-- The last end marker is the one behind the data.
theorem getFileEnd2_of_has {j : Jpeg} {pos : Nat} (hcoded : Has data pos j.coded)
    (htail : Has data (pos + j.coded.length) j.trailer)
    (hdata : pos + j.coded.length + j.trailer.length = data.length)
    (htrailer : ∀ k, ¬ EndMarker j.trailer k) :
    getFileEnd2 data pos (data.length - 1) = .ok j.coded.length := by
  have hlen : j.coded.length = j.data.length + 2 := List.length_append
  have hne : data ≠ [] := by
    intro hnil
    rw [hnil, List.length_nil] at hdata
    omega
  obtain ⟨hstart, hend⟩ := has_cons.mp (has_append.mp hcoded).2
  have hend := (has_cons.mp hend).1
  refine (getFileEnd2_ok_iff hne).mpr ⟨pos + j.data.length, ⟨hstart, hend⟩, ?_, by omega⟩
  intro k hk hmark
  by_cases hnext : k = pos + j.data.length + 1
  · have := hmark.1
    rw [hnext, hend] at this
    cases this
  · have hlt := hmark.lt
    refine htrailer (k - (pos + j.coded.length)) ⟨?_, ?_⟩
    · rw [← htail.getElem? (by omega), ← hmark.1]
      congr 1
      omega
    · rw [← htail.getElem? (by omega), ← hmark.2]
      congr 1
      omega

theorem copyData_of_has {j : Jpeg} {pos : Nat} (h : Has data pos j.coded) :
    copyData data pos j.coded.length = .ok j.padded := by
  have hleft := leftnum_natCast j.coded.length
  rw [copyData, if_neg (by omega), fileRange_of_has h, hleft, Int.toNat_natCast]
  rfl

theorem dataStartCase_of_has {j : Jpeg} (h : Has data s.posTot (j.scanHeader ++ j.coded ++ j.trailer))
    (hdata : s.posTot + (j.scanHeader ++ j.coded ++ j.trailer).length = data.length)
    (hspectral : j.spectral.length = 3) (hcount : j.selectors.length < 256)
    (htrailer : ∀ k, ¬ EndMarker j.trailer k) :
    dataStartCase data s = .ok {
      ret := 0
      pHead := put (put s.pHead s.posHead (j.selectors.map Prod.snd)) posDataBlocks
        (LittleEndian.encode 3 (j.padded.length / 16))
      pQt := s.pQt
      pHuff := s.pHuff ++ huffPadding s.huffLength
      detData := some (j.padded, j.padded.length) } := by
  have hheader : j.scanHeader.length = 2 * j.selectors.length + j.spectral.length + 3 := by
    simp [Jpeg.scanHeader, bigEndian]
    omega
  obtain ⟨h, htail⟩ := has_append.mp h
  obtain ⟨hscan, hcoded⟩ := has_append.mp h
  obtain ⟨hlength, hrest⟩ := has_append.mp hscan
  have hnumber : data[s.posTot + 2]? = some (UInt8.ofNat j.selectors.length) := (has_cons.mp hrest).1
  have hselectors : Has data (s.posTot + 2 + 1) (j.selectors.flatMap fun c => [c.1, c.2]) :=
    (has_append.mp (has_cons.mp hrest).2).1
  have hids := readIds_of_has 2 (fun c : UInt8 × UInt8 => [c.1, c.2]) Prod.snd
    (fun c => ⟨[c.1], rfl, rfl⟩) hselectors
  have htoNat : (UInt8.ofNat j.selectors.length).toNat = j.selectors.length := by
    rw [UInt8.toNat_ofNat', Nat.mod_eq_of_lt hcount]
  rw [hheader] at hcoded
  rw [List.length_append, hheader, ← Nat.add_assoc s.posTot] at htail
  rw [List.length_append, List.length_append, hheader] at hdata
  have hend := getFileEnd2_of_has hcoded htail (by omega) htrailer
  have hdetlen : (j.coded.length : Int) + leftnum j.coded.length = j.padded.length := by
    rw [leftnum_natCast, Jpeg.padded, List.length_append, List.length_replicate, Int.natCast_add]
  rw [dataStartCase, fileByte_eq_ok.mpr hnumber]
  dsimp only [bind, Except.bind]
  rw [htoNat, hids]
  dsimp only [Except.bind]
  rw [getDataLength_of_has hlength (by omega)]
  dsimp only [Except.bind]
  rw [hend]
  dsimp only [Except.bind]
  rw [copyData_of_has hcoded, hdetlen]
  rfl

end Cases

-- The rounds of the loop lead from one state to another one, where rounds are left for what follows.
def Leads (data : List UInt8) (s t : DecodeState) : Prop :=
  ∀ n, data.length ≤ s.posTot + n → ∃ m, data.length ≤ t.posTot + m ∧ scan data n s = scan data m t

-- The state behind some segments.
def after (s : DecodeState) (segments : List JpegSegment) : DecodeState where
  posTot := s.posTot + (segments.flatMap JpegSegment.bytes).length
  pHead := s.pHead
  posHead := s.posHead
  pQt := s.pQt ++ segments.flatMap JpegSegment.qt
  pHuff := s.pHuff ++ segments.flatMap JpegSegment.huff
  huffLength := s.huffLength + UInt16.ofNat (segments.flatMap JpegSegment.huff).length

section Rounds

variable {data bytes : List UInt8} {s t u : DecodeState} {segment : JpegSegment}
  {segments : List JpegSegment}

theorem Leads.refl (data : List UInt8) (s : DecodeState) : Leads data s s := fun n hn => ⟨n, hn, rfl⟩

theorem Leads.trans (h : Leads data s t) (h' : Leads data t u) : Leads data s u := by
  intro n hn
  obtain ⟨m, hm, hscan⟩ := h n hn
  obtain ⟨k, hk, hscan'⟩ := h' m hm
  exact ⟨k, hk, hscan.trans hscan'⟩

theorem Leads.of_round (hin : s.posTot < data.length) (hlt : s.posTot < t.posTot)
    (h : ∀ n, scan data (n + 1) s = scan data n t) : Leads data s t := by
  intro n hn
  cases n with
  | zero => omega
  | succ n => exact ⟨n, by omega, h n⟩

theorem leads_other {key : UInt8} (hstart : data[s.posTot]? = some START)
    (hkey : data[s.posTot + 1]? = some key) (hnot : ¬ IsKey key) : Leads data s (behind s) := by
  simp only [IsKey, not_or] at hnot
  obtain ⟨hquantify, himg, htable, hdata⟩ := hnot
  refine Leads.of_round (List.getElem?_eq_some_iff.mp hstart).1 (Nat.lt_add_of_pos_right (by decide)) ?_
  intro n
  rw [scan_marker hstart hkey, if_neg hquantify, if_neg himg, if_neg htable, if_neg hdata]

theorem leads_quiet (hquiet : Quiet bytes) (h : Has data s.posTot bytes) :
    Leads data s { s with posTot := s.posTot + bytes.length } := by
  induction hquiet generalizing s with
  | nil => exact Leads.refl data s
  | byte hb _ ih =>
      obtain ⟨hbyte, hrest⟩ := has_cons.mp h
      refine (Leads.of_round (List.getElem?_eq_some_iff.mp hbyte).1 ?_
        fun n => scan_skip hbyte hb).trans ?_
      · exact Nat.lt_succ_self _
      · have hnext := ih (s := { s with posTot := s.posTot + 1 }) hrest
        rwa [Nat.add_assoc, Nat.add_comm 1] at hnext
  | marker hkey _ ih =>
      obtain ⟨hstart, hrest⟩ := has_cons.mp h
      obtain ⟨hmarker, hrest⟩ := has_cons.mp hrest
      have hnext := ih (s := behind s) hrest
      rw [behind, Nat.add_assoc, Nat.add_comm 2] at hnext
      exact (leads_other hstart hmarker hkey).trans hnext

theorem length_huffTable (counts : List UInt8) (value : UInt16) :
    (huffTable counts value).length = counts.length := by
  induction counts generalizing value with
  | nil => rfl
  | cons c counts ih => rw [huffTable, List.length_cons, List.length_cons, ih]

theorem length_huff {id : UInt8} {counts symbols : List UInt8} (hcounts : counts.length = 16) :
    (JpegSegment.table id counts symbols).huff.length = counts.length + symbols.length + 3 + 32 := by
  rw [JpegSegment.huff, List.length_append, JpegSegment.body, List.length_append, List.length_cons,
    List.length_append, List.length_flatMap]
  simp [bigEndian, length_huffTable, hcounts]
  omega

theorem leads_segment (hvalid : segment.Valid) (h : Has data s.posTot segment.bytes) :
    Leads data s (after s [segment]) := by
  obtain ⟨hstart, h⟩ := has_cons.mp h
  obtain ⟨hmarker, h⟩ := has_cons.mp h
  have hin := (List.getElem?_eq_some_iff.mp hstart).1
  cases segment with
  | other marker body =>
      obtain ⟨hkey, hquiet⟩ := hvalid
      have hafter : after s [.other marker body] =
          { behind s with posTot := s.posTot + 2 + (bigEndian (body.length + 2) ++ body).length } := by
        simp [after, behind, JpegSegment.bytes, JpegSegment.body, JpegSegment.qt, JpegSegment.huff]
        omega
      rw [hafter]
      exact (leads_other hstart hmarker hkey).trans (leads_quiet (s := behind s) hquiet h)
  | quantify id values =>
      obtain ⟨hlen, hquiet⟩ := hvalid
      have hcase := quantifyCase_of_has (s := behind s) h hlen
      have hvalues : Has data (s.posTot + 5) values := (has_cons.mp (has_append.mp h).2).2
      have hround : Leads data s { behind s with posTot := s.posTot + 5, pQt := s.pQt ++ values } := by
        refine Leads.of_round hin (Nat.lt_add_of_pos_right (by decide)) fun n => ?_
        rw [scan_marker hstart (show _ = some QUANTIFY from hmarker), if_pos rfl, hcase]
        rfl
      have hafter : after s [.quantify id values] =
          { behind s with posTot := s.posTot + 5 + values.length, pQt := s.pQt ++ values } := by
        simp [after, behind, JpegSegment.bytes, JpegSegment.body, JpegSegment.qt, JpegSegment.huff, bigEndian]
        omega
      rw [hafter]
      exact hround.trans (leads_quiet hquiet hvalues)
  | table id counts symbols =>
      obtain ⟨hcounts, hlen, hquiet⟩ := hvalid
      have hcase := tableCase_of_has (s := behind s) h hcounts hlen
      have hsymbols : Has data (s.posTot + 21) symbols := by
        have hrest := (has_append.mp (has_cons.mp (has_append.mp h).2).2).2
        rwa [hcounts] at hrest
      have hround : Leads data s { behind s with
          posTot := s.posTot + 21
          pHuff := s.pHuff ++ (JpegSegment.table id counts symbols).huff
          huffLength := s.huffLength + UInt16.ofNat (counts.length + symbols.length + 3) + 32 } := by
        refine Leads.of_round hin (Nat.lt_add_of_pos_right (by decide)) fun n => ?_
        rw [scan_marker hstart (show _ = some TABLE from hmarker), if_neg (by decide), if_neg (by decide),
          if_pos rfl, hcase]
        rfl
      have hafter : after s [.table id counts symbols] = { behind s with
          posTot := s.posTot + 21 + symbols.length
          pHuff := s.pHuff ++ (JpegSegment.table id counts symbols).huff
          huffLength := s.huffLength + UInt16.ofNat (counts.length + symbols.length + 3) + 32 } := by
        have hbytes : (JpegSegment.table id counts symbols).bytes.length = 21 + symbols.length := by
          simp [JpegSegment.bytes, JpegSegment.body, bigEndian, hcounts]
          omega
        simp only [after, behind, List.flatMap_singleton, hbytes, length_huff hcounts, JpegSegment.qt,
          List.append_nil, UInt16.ofNat_add, UInt16.add_assoc, Nat.add_assoc]
        rfl
      rw [hafter]
      exact hround.trans (leads_quiet hquiet hsymbols)

theorem after_cons (s : DecodeState) (segment : JpegSegment) (segments : List JpegSegment) :
    after s (segment :: segments) = after (after s [segment]) segments := by
  simp only [after, List.flatMap_cons, List.flatMap_nil, List.append_nil, List.length_append,
    List.append_assoc, Nat.add_assoc, UInt16.ofNat_add, UInt16.add_assoc]

theorem leads_segments (hvalid : ∀ segment ∈ segments, segment.Valid)
    (h : Has data s.posTot (segments.flatMap JpegSegment.bytes)) : Leads data s (after s segments) := by
  induction segments generalizing s with
  | nil =>
      have hafter : after s [] = s := by simp [after]
      rw [hafter]
      exact Leads.refl data s
  | cons segment segments ih =>
      rw [List.flatMap_cons, has_append] at h
      obtain ⟨hfirst, hrest⟩ := h
      rw [after_cons]
      refine (leads_segment (hvalid segment List.mem_cons_self) hfirst).trans
        (ih (fun x hx => hvalid x (List.mem_cons_of_mem segment hx)) ?_)
      simpa [after] using hrest

theorem leads_frame {j : Jpeg} (hquiet : Quiet j.frame) (hcount : j.components.length < 256)
    (h : Has data s.posTot (START :: IMGINFO :: j.frame)) :
    Leads data s { s with
      posTot := s.posTot + 2 + j.frame.length
      pHead := put s.pHead s.posHead
        (LittleEndian.encode 2 512 ++ LittleEndian.encode 2 640 ++ j.components.map fun c => c.2.2)
      posHead := s.posHead + (j.components.length + 4) } := by
  obtain ⟨hstart, h⟩ := has_cons.mp h
  obtain ⟨hmarker, h⟩ := has_cons.mp h
  have hcase := imgInfoCase_of_has (s := behind s) h hcount
  have hround : Leads data s { s with
      posTot := s.posTot + 2
      pHead := put s.pHead s.posHead
        (LittleEndian.encode 2 512 ++ LittleEndian.encode 2 640 ++ j.components.map fun c => c.2.2)
      posHead := s.posHead + (j.components.length + 4) } := by
    refine Leads.of_round (List.getElem?_eq_some_iff.mp hstart).1 (Nat.lt_add_of_pos_right (by decide)) ?_
    intro n
    rw [scan_marker hstart hmarker, if_neg (by decide), if_pos rfl, hcase]
    rfl
  exact hround.trans (leads_quiet hquiet h)

end Rounds

-- The header of the tables. It ends with four bytes that nothing else is written to.
section Head

theorem put_append {front gap back src : List UInt8} (h : gap.length = src.length) :
    put (front ++ (gap ++ back)) front.length src = front ++ (src ++ back) := by
  rw [put, List.take_left, ← h, ← List.length_append, ← List.append_assoc, List.drop_left,
    List.append_assoc]

theorem initialHead_eq : initialHead =
    startHead ++ (List.replicate 60 0 ++ LittleEndian.encode 4 0xFFFFFFFF) := by decide

theorem startHead_eq : startHead = startHead.take 20 ++ ([0, 0, 0] ++ startHead.drop 23) := by decide

theorem put_initialHead {j : Jpeg} (hfields : j.fields.length ≤ 60) :
    put (put (put initialHead startHead.length
        (LittleEndian.encode 2 512 ++ LittleEndian.encode 2 640 ++ j.components.map fun c => c.2.2))
        (startHead.length + (j.components.length + 4)) (j.selectors.map Prod.snd)) posDataBlocks
        (LittleEndian.encode 3 (j.padded.length / 16)) = j.tables.pHead := by
  have hfirst : (LittleEndian.encode 2 512 ++ LittleEndian.encode 2 640 ++
      j.components.map fun c => c.2.2).length = j.components.length + 4 := by
    simp
    omega
  have hlen : j.fields.length = j.components.length + 4 + j.selectors.length := by
    rw [Jpeg.fields, List.length_append, hfirst, List.length_map]
  have hgap : (List.replicate 60 0 : List UInt8) = List.replicate (j.components.length + 4) 0 ++
      (List.replicate j.selectors.length 0 ++ List.replicate (60 - j.fields.length) 0) := by
    rw [List.replicate_append_replicate, List.replicate_append_replicate]
    congr 1
    omega
  have hposition : startHead.length + (j.components.length + 4) = (startHead ++
      (LittleEndian.encode 2 512 ++ LittleEndian.encode 2 640 ++
        j.components.map fun c => c.2.2)).length := by
    rw [List.length_append, hfirst]
  have hblocks : posDataBlocks = (startHead.take 20).length := by decide
  rw [initialHead_eq, hgap, List.append_assoc (List.replicate _ _),
    put_append (by rw [List.length_replicate, hfirst]), List.append_assoc (List.replicate _ _),
    hposition, ← List.append_assoc startHead, put_append (by rw [List.length_replicate, List.length_map])]
  conv_lhs => rw [startHead_eq]
  simp only [List.append_assoc]
  rw [hblocks, put_append (by rw [LittleEndian.length_encode]; rfl)]
  simp only [Jpeg.tables, Jpeg.fields, List.append_assoc]

end Head

theorem huffPadding_eq {n : Nat} (hn : n < 65536) :
    huffPadding (UInt16.ofNat n) = if n = 0 then [] else List.replicate (16 - n % 16) cMa := by
  have htoNat : (UInt16.ofNat n).toNat = n := by rw [UInt16.toNat_ofNat', Nat.mod_eq_of_lt hn]
  have hpos : 0 < UInt16.ofNat n ↔ n ≠ 0 := by
    rw [UInt16.lt_iff_toNat_lt, htoNat]
    exact Nat.pos_iff_ne_zero
  rw [huffPadding, htoNat]
  simp only [hpos, ite_not]

-- The state before the header of the scan.
theorem leads_scan {data : List UInt8} {j : Jpeg} (hvalid : j.Valid) (h : Has data 0 j.bytes) :
    ∃ t, Leads data startState t ∧
      Has data t.posTot (START :: DATA_START :: j.scanHeader ++ j.coded ++ j.trailer) ∧
      t.posTot + (START :: DATA_START :: j.scanHeader ++ j.coded ++ j.trailer).length = j.bytes.length ∧
      t.pHead = put initialHead startHead.length
        (LittleEndian.encode 2 512 ++ LittleEndian.encode 2 640 ++ j.components.map fun c => c.2.2) ∧
      t.posHead = startHead.length + (j.components.length + 4) ∧
      t.pQt = j.segments.flatMap JpegSegment.qt ∧ t.pHuff = j.huff ∧
      t.huffLength = UInt16.ofNat j.huff.length := by
  have hcount : j.components.length < 256 := by
    have := hvalid.fields
    simp [Jpeg.fields] at this
    omega
  have hbefore : ∀ segment ∈ .other 0xE0 j.app0 :: j.before, segment.Valid :=
    List.forall_mem_cons.mpr ⟨hvalid.app0, fun x hx => hvalid.segments x (List.mem_append_left _ hx)⟩
  have hafter : ∀ segment ∈ j.after, segment.Valid :=
    fun x hx => hvalid.segments x (List.mem_append_right _ hx)
  have hparts : j.bytes = START :: 0xD8 ::
      ((.other 0xE0 j.app0 :: j.before).flatMap JpegSegment.bytes ++ (START :: IMGINFO :: j.frame ++
        (j.after.flatMap JpegSegment.bytes ++
          (START :: DATA_START :: j.scanHeader ++ j.coded ++ j.trailer)))) := by
    simp [Jpeg.bytes]
  rw [hparts] at h ⊢
  obtain ⟨hstart, h⟩ := has_cons.mp h
  obtain ⟨hsoi, h⟩ := has_cons.mp h
  obtain ⟨hone, h⟩ := has_append.mp h
  obtain ⟨hframe, h⟩ := has_append.mp h
  obtain ⟨htwo, hscan⟩ := has_append.mp h
  have h1 : Leads data startState (behind startState) := leads_other hstart hsoi (by decide)
  have h2 := leads_segments (s := behind startState) hbefore hone
  have h3 := leads_frame (s := after (behind startState) (.other 0xE0 j.app0 :: j.before)) hvalid.frame hcount
    hframe
  have h4 := h1.trans (h2.trans (h3.trans (leads_segments hafter ?_)))
  · refine ⟨_, h4, ?_, ?_, rfl, rfl, ?_, ?_, ?_⟩
    · convert hscan using 1
      simp only [after, behind, startState, List.length_cons]
      omega
    · simp only [after, behind, startState, List.length_cons, List.length_append]
      omega
    · simp [after, behind, startState, Jpeg.segments, JpegSegment.qt]
    · simp [after, behind, startState, Jpeg.huff, Jpeg.segments, JpegSegment.huff]
    · simp [after, behind, startState, Jpeg.huff, Jpeg.segments, JpegSegment.huff]
  · convert htwo using 1
    simp only [after, behind, startState, List.length_cons]
    omega

theorem loaded_of_lt {content : List UInt8} (h : content.length < 2147483648) : loaded content = content := by
  have hsize : (Int32.ofNat content.length).toInt = content.length := Int32.toInt_ofNat_of_lt h
  rw [loaded, hsize, Int.toNat_natCast, List.take_length]

theorem getDecodeTable_of_app0 {content : List UInt8} (h : content.length < 2147483648)
    (hthird : content[2]? = some START) (hfourth : content[3]? = some 0xE0) :
    getDecodeTable content = scan content content.length startState := by
  rw [getDecodeTable, loaded_of_lt h, fileByte_eq_ok.mpr hthird, fileByte_eq_ok.mpr hfourth]
  rfl

-- The scan header in the state before it.
theorem dataStartCase_tables {data : List UInt8} {s : DecodeState} {j : Jpeg} (hvalid : j.Valid)
    (h : Has data s.posTot (j.scanHeader ++ j.coded ++ j.trailer))
    (hdata : s.posTot + (j.scanHeader ++ j.coded ++ j.trailer).length = data.length)
    (hhead : s.pHead = put initialHead startHead.length
      (LittleEndian.encode 2 512 ++ LittleEndian.encode 2 640 ++ j.components.map fun c => c.2.2))
    (hpos : s.posHead = startHead.length + (j.components.length + 4))
    (hqt : s.pQt = j.segments.flatMap JpegSegment.qt) (hhuff : s.pHuff = j.huff)
    (hlength : s.huffLength = UInt16.ofNat j.huff.length) : dataStartCase data s = .ok j.tables := by
  have hcount : j.selectors.length < 256 := by
    have := hvalid.fields
    simp [Jpeg.fields] at this
    omega
  rw [dataStartCase_of_has h hdata hvalid.spectral hcount hvalid.trailer, hhead, hpos,
    put_initialHead hvalid.fields, hqt, hhuff, hlength, huffPadding_eq hvalid.huff]
  simp only [Jpeg.tables, List.length_eq_zero_iff]

-- Every such file is turned into its tables: the quantization tables and the Huffman tables in their
-- order, each Huffman table with its first codes, the header with the size and the table numbers, and
-- the data with its end marker in blocks of 16 bytes.
theorem jpeg_tables (j : Jpeg) (h : j.Valid) : getDecodeTable j.bytes = .ok j.tables := by
  obtain ⟨t, hleads, hscan, hend, hhead, hpos, hqt, hhuff, hlength⟩ := leads_scan h (has_self j.bytes)
  obtain ⟨m, hm, hrun⟩ := hleads j.bytes.length (Nat.le_add_left _ _)
  obtain ⟨hstart, hrest⟩ := has_cons.mp hscan
  obtain ⟨hmarker, hrest⟩ := has_cons.mp hrest
  have hcase := dataStartCase_tables (s := behind t) h hrest
    (by rw [← hend]; simp only [behind, List.length_cons, List.length_append]; omega) hhead hpos hqt hhuff
    hlength
  have hrounds : m ≠ 0 := by
    rintro rfl
    have := (List.getElem?_eq_some_iff.mp hstart).1
    omega
  obtain ⟨m, rfl⟩ := Nat.exists_eq_succ_of_ne_zero hrounds
  rw [getDecodeTable_of_app0 h.length rfl rfl, hrun, scan_marker hstart hmarker, if_neg (by decide),
    if_neg (by decide), if_neg (by decide), if_pos rfl, hcase]

theorem quiet_of_notMem {bytes : List UInt8} (h : START ∉ bytes) : Quiet bytes := by
  induction bytes with
  | nil => exact .nil
  | cons b bytes ih =>
      rw [List.mem_cons, not_or] at h
      exact .byte (Ne.symm h.1) (ih h.2)

-- One table of each kind, and an end marker within the data.
def smallJpeg : Jpeg where
  app0 := [0x4A, 0x46, 0x49, 0x46, 0]
  before := [.quantify 0 (List.replicate 64 16)]
  precision := 8
  components := [(1, 0x11, 0)]
  after := [.table 0 twelveCodes [0, 1, 2, 3, 4, 5, 6, 7, 8, 9, 10, 11]]
  selectors := [(1, 0)]
  spectral := [0, 63, 0]
  data := [0x12, 0xFF, 0xD9, 0x34]
  trailer := [0, 0]

theorem smallJpeg_valid : smallJpeg.Valid where
  app0 := ⟨by decide, quiet_of_notMem (by decide)⟩
  segments := by
    refine List.forall_mem_cons.mpr ⟨⟨by decide, quiet_of_notMem (by decide)⟩, ?_⟩
    exact List.forall_mem_singleton.mpr ⟨rfl, by decide, quiet_of_notMem (by decide)⟩
  frame := quiet_of_notMem (by decide)
  fields := by decide
  spectral := rfl
  trailer := by
    intro k hmark
    have hmem := List.mem_of_getElem? hmark.1
    revert hmem
    decide
  huff := by decide
  length := by decide +kernel

theorem jpeg_tables_small : getDecodeTable smallJpeg.bytes = .ok smallJpeg.tables :=
  jpeg_tables smallJpeg smallJpeg_valid

end FpgaDecode

end Vcu
