import Mathlib.Data.List.TakeWhile
import Vcu.Common.Positions
import Vcu.FileManager
import Vcu.Lib.Lines
import Vcu.Lib.Loop

namespace Vcu

open Loop StdString

-- Whether a line leaves the parser inside a section. A header opens one and an empty line ends it.
def inSection (inside : Bool) (line : List Char) : Bool :=
  if inside then !line.isEmpty else line.head? = some '['

section Getline

variable {line : List Char} {s : IfStream}

theorem getline_line (hline : '\n' ∉ line) (rest str : List Char) :
    getline { rest := line ++ '\n' :: rest } str = ({ rest := rest }, line) := by
  have hall : ∀ c ∈ line, decide (c ≠ '\n') = true := fun c hc =>
    decide_eq_true fun he => hline (he ▸ hc)
  rw [getline]
  simp only [Bool.or_self, Bool.false_eq_true, if_false]
  rw [List.takeWhile_append_of_pos hall, List.dropWhile_append_of_pos hall]
  simp

theorem getline_last (hline : '\n' ∉ line) (str : List Char) :
    getline { rest := line } str = ({ rest := [], eof := true, fail := line.isEmpty }, line) := by
  have hall : ∀ c ∈ line, decide (c ≠ '\n') = true := fun c hc =>
    decide_eq_true fun he => hline (he ▸ hc)
  rw [getline]
  simp only [Bool.or_self, Bool.false_eq_true, if_false]
  rw [List.takeWhile_eq_self_iff.mpr hall, List.dropWhile_eq_nil_iff.mpr hall]

theorem getline_eof (h : s.eof = true) (str : List Char) : getline s str = ({ s with fail := true }, str) := by
  rw [getline, h, Bool.true_or, if_pos rfl]

end Getline

section Entry

theorem sizeT_le (n : Nat) : sizeT n ≤ n := by
  rw [sizeT]
  omega

-- No line makes substr throw.
theorem lineEntry_isSome (temp : List Char) : (lineEntry temp).isSome := by
  have hval : sizeT (intPos (find temp ['=']) + 1) ≤ temp.length := by
    cases hpos : find temp ['='] with
    | none => exact Nat.zero_le _
    | some pos => exact Nat.le_trans (sizeT_le (pos + 1)) (find_lt hpos)
  rw [lineEntry, substrAt, if_neg (Nat.not_lt_zero _), substrAt, if_neg (Nat.not_lt.mpr hval)]
  rfl

theorem headName_isSome {lineStr : List Char} (h : lineStr ≠ []) : (headName lineStr).isSome := by
  rw [headName, substrAt, if_neg (Nat.not_lt.mpr (List.length_pos_iff.mpr h))]
  rfl

end Entry

section Steps

variable {stream next : IfStream} {head line last rest temp : List Char} {inside : Bool}
  {mpVal : List (List Char × List Char)} {cfgs : List (List Char × List (List Char × List Char))}
  {p : CfgParser}

theorem outer_step (cfgs : List (List Char × List (List Char × List Char)))
    (hgood : (stream.eof || stream.fail) = false) (hget : getline stream [] = (next, line)) :
    (inSection false line = false ∧ (CfgParser.outer stream cfgs).step = some (.outer next cfgs)) ∨
      inSection false line = true ∧
        ∃ head, (CfgParser.outer stream cfgs).step = some (.inner next head [] [] cfgs) := by
  rw [CfgParser.step, hgood, if_neg Bool.false_ne_true, hget, inSection, if_neg Bool.false_ne_true]
  simp only
  by_cases hempty : line = []
  · exact .inl ⟨by rw [hempty]; rfl, if_pos hempty⟩
  · rw [if_neg hempty]
    by_cases hheader : line.head? = some '['
    · obtain ⟨head, hhead⟩ := Option.isSome_iff_exists.mp (headName_isSome hempty)
      rw [if_pos hheader, hhead]
      exact .inr ⟨decide_eq_true hheader, head, rfl⟩
    · exact .inl ⟨decide_eq_false hheader, if_neg hheader⟩

theorem inner_step (head : List Char) (mpVal : List (List Char × List Char))
    (cfgs : List (List Char × List (List Char × List Char)))
    (hget : getline stream temp = (next, line)) :
    (line = [] ∧ (CfgParser.inner stream head temp mpVal cfgs).step =
        some (.outer next (cfgs ++ [(head, mpVal)]))) ∨
      line ≠ [] ∧ ∃ mpVal', (CfgParser.inner stream head temp mpVal cfgs).step =
        some (.inner next head line mpVal' cfgs) := by
  rw [CfgParser.step, hget]
  simp only
  by_cases hempty : line = []
  · exact .inl ⟨hempty, if_pos hempty⟩
  · rw [if_neg hempty]
    refine .inr ⟨hempty, ?_⟩
    split
    · exact ⟨mpVal, rfl⟩
    · obtain ⟨entry, hentry⟩ := Option.isSome_iff_exists.mp (lineEntry_isSome line)
      rw [hentry]
      exact ⟨mapInsert mpVal entry, rfl⟩

theorem ends_outer_eof (heof : stream.eof = true) : Ends CfgParser.step (.outer stream cfgs) := by
  apply ends_of_none
  rw [CfgParser.step, heof, Bool.true_or, if_pos rfl]

-- At the end of the file the inner loop sees its last line again and again.
theorem ends_inner_eof_iff (heof : stream.eof = true) :
    Ends CfgParser.step (.inner stream head temp mpVal cfgs) ↔ temp = [] := by
  by_cases hempty : temp = []
  · refine iff_of_true ?_ hempty
    rcases inner_step head mpVal cfgs (getline_eof heof temp) with
      ⟨-, hstep⟩ | ⟨hne, -⟩
    · exact (ends_iff_of_step hstep).mpr (ends_outer_eof heof)
    · exact absurd hempty hne
  · refine iff_of_false ?_ hempty
    refine not_ends_of_invariant
      (fun p => ∃ stream mpVal, p = .inner stream head temp mpVal cfgs ∧ stream.eof = true) ?_
      ⟨stream, mpVal, rfl, heof⟩
    rintro p ⟨stream, mpVal, rfl, heof⟩
    rcases inner_step head mpVal cfgs (getline_eof heof temp) with
      ⟨hnil, -⟩ | ⟨-, mpVal', hstep⟩
    · exact absurd hnil hempty
    · exact ⟨_, hstep, _, mpVal', rfl, heof⟩

-- Where the parser stands in a stream.
inductive Standing (stream : IfStream) : Bool → CfgParser → Prop where
  | outer (cfgs : List (List Char × List (List Char × List Char))) :
      Standing stream false (.outer stream cfgs)
  | inner (head temp : List Char) (mpVal : List (List Char × List Char))
      (cfgs : List (List Char × List (List Char × List Char))) :
      Standing stream true (.inner stream head temp mpVal cfgs)

theorem step_line (hline : '\n' ∉ line)
    (hp : Standing { rest := line ++ '\n' :: rest } inside p) :
    ∃ q, p.step = some q ∧ Standing { rest := rest } (inSection inside line) q := by
  cases hp with
  | outer cfgs =>
      rcases outer_step cfgs rfl (getline_line hline rest []) with ⟨hmode, hstep⟩ | ⟨hmode, head, hstep⟩
      · rw [hmode]
        exact ⟨_, hstep, .outer cfgs⟩
      · rw [hmode]
        exact ⟨_, hstep, .inner head [] [] cfgs⟩
  | inner head temp mpVal cfgs =>
      rcases inner_step head mpVal cfgs (getline_line hline rest temp) with ⟨hnil, hstep⟩ | ⟨hne, mpVal', hstep⟩
      · subst hnil
        exact ⟨_, hstep, .outer _⟩
      · rw [inSection, if_pos rfl, List.isEmpty_eq_false_iff.mpr hne]
        exact ⟨_, hstep, .inner head line mpVal' cfgs⟩

theorem ends_last_iff (hlast : '\n' ∉ last) (hp : Standing { rest := last } inside p) :
    Ends CfgParser.step p ↔ last = [] ∨ inside = false := by
  cases hp with
  | outer cfgs =>
      refine iff_of_true ?_ (.inr rfl)
      rcases outer_step cfgs rfl (getline_last hlast []) with ⟨-, hstep⟩ | ⟨-, head, hstep⟩
      · exact (ends_iff_of_step hstep).mpr (ends_outer_eof rfl)
      · exact (ends_iff_of_step hstep).mpr ((ends_inner_eof_iff rfl).mpr rfl)
  | inner head temp mpVal cfgs =>
      rw [or_iff_left Bool.noConfusion]
      rcases inner_step head mpVal cfgs (getline_last hlast temp) with ⟨hnil, hstep⟩ | ⟨hne, mpVal', hstep⟩
      · exact iff_of_true ((ends_iff_of_step hstep).mpr (ends_outer_eof rfl)) hnil
      · rw [ends_iff_of_step hstep]
        exact ends_inner_eof_iff rfl

theorem ends_join_iff {lines : List (List Char)} (hlines : ∀ line ∈ lines, '\n' ∉ line)
    (hlast : '\n' ∉ last) (hp : Standing { rest := Lines.join '\n' lines last } inside p) :
    Ends CfgParser.step p ↔ last = [] ∨ lines.foldl inSection inside = false := by
  induction lines generalizing inside p with
  | nil => exact ends_last_iff hlast hp
  | cons line lines ih =>
      rw [Lines.join_cons] at hp
      obtain ⟨q, hstep, hq⟩ := step_line (hlines line List.mem_cons_self) hp
      rw [ends_iff_of_step hstep, List.foldl_cons]
      exact ih (fun l hl => hlines l (List.mem_cons_of_mem _ hl)) hq

end Steps

-- The loops end exactly if the file ends with a newline, or its last line does not lie in a section.
theorem parserBasicCfg_ends_iff (content : List Char) :
    Ends CfgParser.step (parserBasicCfg content) ↔
      (Lines.cut '\n' content).2 = [] ∨
        (Lines.cut '\n' content).1.foldl inSection false = false := by
  obtain ⟨hlines, hlast⟩ := Lines.not_mem_cut '\n' content
  refine ends_join_iff hlines hlast ?_
  rw [Lines.join_cut]
  exact .outer []

-- A section whose last line has no newline.
theorem not_ends_without_newline :
    ¬ Ends CfgParser.step (parserBasicCfg "[fpga_cfg]\ninput_reg=0".toList) := by
  have hstart : Standing { rest := Lines.join '\n' ["[fpga_cfg]".toList] "input_reg=0".toList } false
      (parserBasicCfg "[fpga_cfg]\ninput_reg=0".toList) := .outer []
  rw [ends_join_iff (by decide) (by decide) hstart]
  decide

end Vcu
