import Vcu.Lib.Lines
import Vcu.Lib.Loop
import Vcu.FileManager.Termination
import Vcu.YoloDetect.NetCfg

namespace Vcu

open Loop StdString

-- What a network configuration says.
inductive CfgItem where
  | header (name : List Char)
  | assign (key value : List Char)
  deriving DecidableEq

def CfgItem.WellFormed : CfgItem → Prop
  | .header name => ' ' ∉ name ∧ ']' ∉ name ∧ '\n' ∉ name
  | .assign key value =>
      (key ≠ [] ∧ key.head? ≠ some '[' ∧ ' ' ∉ key ∧ '#' ∉ key ∧ '=' ∉ key ∧ '\n' ∉ key) ∧
        ' ' ∉ value ∧ '#' ∉ value ∧ '\n' ∉ value

instance : DecidablePred CfgItem.WellFormed
  | .header _ => inferInstanceAs (Decidable (_ ∧ _))
  | .assign _ _ => inferInstanceAs (Decidable (_ ∧ _))

-- An assignment goes under the latest section header.
def perform (state : List Char × NetData) : CfgItem → List Char × NetData
  | .header name => (name, state.2)
  | .assign key value => (state.1, state.2.assign state.1 key value)

-- The line is the text with any number of spaces anywhere in it.
def Spaced (str line : List Char) : Prop := line.filter (· ≠ ' ') = str

instance (str line : List Char) : Decidable (Spaced str line) := inferInstanceAs (Decidable (_ = _))

inductive Rendering : List CfgItem → List (List Char) → Prop where
  | nil : Rendering [] []
  | blank {items : List CfgItem} {line : List Char} {lines : List (List Char)} (hline : Spaced [] line)
      (h : Rendering items lines) : Rendering items (line :: lines)
  | comment {items : List CfgItem} {line comment : List Char} {lines : List (List Char)}
      (hline : Spaced [] line) (hcomment : '\n' ∉ comment) (h : Rendering items lines) :
      Rendering items ((line ++ '#' :: comment) :: lines)
  | header {items : List CfgItem} {name line : List Char} {lines : List (List Char)}
      (hline : Spaced ('[' :: (name ++ [']'])) line) (h : Rendering items lines) :
      Rendering (.header name :: items) (line :: lines)
  | assign {items : List CfgItem} {key value line : List Char} {lines : List (List Char)}
      (hline : Spaced (key ++ '=' :: value) line) (h : Rendering items lines) :
      Rendering (.assign key value :: items) (line :: lines)
  | assignComment {items : List CfgItem} {key value line comment : List Char}
      {lines : List (List Char)} (hline : Spaced (key ++ '=' :: value) line)
      (hcomment : '\n' ∉ comment) (h : Rendering items lines) :
      Rendering (.assign key value :: items) ((line ++ '#' :: comment) :: lines)

-- A file with or without a final newline.
def FileText (lines : List (List Char)) (text : List Char) : Prop :=
  text = Lines.join '\n' lines [] ∨
    ∃ init last, lines = init ++ [last] ∧ text = Lines.join '\n' init last

section Lines

variable {str line name key value comment : List Char} {mpNetData : NetData}

theorem rmStrSpace_eq_filter (str : List Char) : rmStrSpace str = str.filter (· ≠ ' ') := by
  induction str using rmStrSpace.induct with
  | case1 str pos hpos ih =>
      have hstep : rmStrSpace str = rmStrSpace (str.eraseIdx pos) := by
        rw [rmStrSpace]
        split
        · rename_i p hp
          rw [Option.some.inj (hpos.symm.trans hp)]
        · rename_i hnone
          cases hpos.symm.trans hnone
      rw [findFirstOf_eq_find] at hpos
      obtain ⟨a, b, rfl, -, rfl⟩ := exists_of_find hpos
      rw [hstep, ih, List.eraseIdx_append_of_length_le (Nat.le_refl _), Nat.sub_self,
        List.eraseIdx_cons_zero, List.filter_append, List.filter_append]
      rfl
  | case2 str hnone =>
      rw [rmStrSpace]
      split
      · rename_i p hp
        cases hnone.symm.trans hp
      · rw [findFirstOf_eq_find] at hnone
        refine (List.filter_eq_self.mpr ?_).symm
        intro c hc
        refine decide_eq_true ?_
        rintro rfl
        exact not_mem_of_find hnone hc

theorem headerKey_eq (hname : ']' ∉ name) : headerKey ('[' :: (name ++ [']'])) = name := by
  have hpos : find ('[' :: (name ++ [']'])) [']'] = some (name.length + 1) := by
    rw [find, if_neg (by simp), find_append hname, find_self]
    rfl
  rw [headerKey, findFirstOf_eq_find, hpos]
  simp [substr]

theorem cutComment_of_not_mem (h : '#' ∉ str) : cutComment str = str := by
  rw [cutComment, findFirstOf_eq_find, find_of_not_mem h]

theorem cutComment_append (h : '#' ∉ str) (comment : List Char) :
    cutComment (str ++ '#' :: comment) = str := by
  rw [cutComment, findFirstOf_eq_find, find_append h, find_self]
  simp [substr]

theorem splitLine_eq (hkey : '=' ∉ key) (value : List Char) :
    splitLine (key ++ '=' :: value) = (key, value) := by
  have hdrop : (key ++ '=' :: value).drop (key.length + 1) = value := by simp [List.drop_append]
  rw [splitLine, findFirstOf_eq_find, find_append hkey, find_self]
  simp only [Option.map_some, Nat.add_zero, substr, List.drop_zero, List.take_left, hdrop]
  rw [List.length_append, List.length_cons, List.take_of_length_le (by omega)]

theorem filter_append_comment (hline : Spaced str line) (comment : List Char) :
    rmStrSpace (line ++ '#' :: comment) = str ++ '#' :: comment.filter (· ≠ ' ') := by
  rw [rmStrSpace_eq_filter, List.filter_append, hline]
  rfl

theorem Spaced.mem_of_ne (hline : Spaced str line) {c : Char} (hc : c ∈ line) (hne : c ≠ ' ') :
    c ∈ str := by
  rw [← hline]
  exact List.mem_filter.mpr ⟨hc, decide_eq_true hne⟩

-- What a rendered line makes of the state is what its item makes of it.
theorem readLine_blank (hline : Spaced [] line) : readLine key mpNetData line = (key, mpNetData) := by
  rw [readLine]
  split
  · rfl
  · rw [rmStrSpace_eq_filter, hline]
    rfl

theorem readLine_comment (hline : Spaced [] line) (comment : List Char) :
    readLine key mpNetData (line ++ '#' :: comment) = (key, mpNetData) := by
  rw [readLine, if_neg (List.append_ne_nil_of_right_ne_nil _ (List.cons_ne_nil _ _)),
    filter_append_comment hline]
  rfl

theorem readLine_header (hline : Spaced ('[' :: (name ++ [']'])) line) (hname : ']' ∉ name) :
    readLine key mpNetData line = (name, mpNetData) := by
  have hne : line ≠ [] := by
    rintro rfl
    cases hline
  rw [readLine, if_neg hne, rmStrSpace_eq_filter, hline]
  simp only [List.cons_ne_nil, if_false, List.head?_cons, Option.some.injEq, Char.reduceEq, if_true,
    headerKey_eq hname]

theorem readLine_assign {head : List Char} (hread : rmStrSpace line = key ++ '=' :: (value ++ str))
    (hcut : cutComment (key ++ '=' :: (value ++ str)) = key ++ '=' :: value)
    (hwf : (CfgItem.assign key value).WellFormed) :
    readLine head mpNetData line = (head, mpNetData.assign head key value) := by
  obtain ⟨⟨hne, hbracket, -, hhash, hequal, -⟩, -⟩ := hwf
  have hline : line ≠ [] := by
    rintro rfl
    rw [rmStrSpace_eq_filter] at hread
    cases key <;> cases hread
  have hhead : (key ++ '=' :: (value ++ str)).head? = key.head? := by
    cases key with
    | nil => exact absurd rfl hne
    | cons c key => rfl
  have hcomment : key.head? ≠ some '#' := fun h => hhash (List.mem_of_mem_head? h)
  rw [readLine, if_neg hline, hread]
  simp only [hcut, splitLine_eq hequal, hhead, if_neg hcomment, if_neg hbracket]
  rw [if_neg (List.append_ne_nil_of_right_ne_nil _ (List.cons_ne_nil _ _))]

end Lines

section Run

variable {items : List CfgItem} {lines : List (List Char)} {text : List Char}

def readLines (state : List Char × NetData) (lines : List (List Char)) : List Char × NetData :=
  lines.foldl (fun state line => readLine state.1 state.2 line) state

theorem Rendering.readLines (h : Rendering items lines) (hwf : ∀ item ∈ items, item.WellFormed)
    (state : List Char × NetData) : readLines state lines = items.foldl perform state := by
  induction h generalizing state with
  | nil => rfl
  | blank hline _ ih =>
      rw [Vcu.readLines, List.foldl_cons, readLine_blank hline]
      exact ih hwf state
  | comment hline _ _ ih =>
      rw [Vcu.readLines, List.foldl_cons, readLine_comment hline]
      exact ih hwf state
  | header hline _ ih =>
      have hname := (hwf _ List.mem_cons_self).2.1
      rw [Vcu.readLines, List.foldl_cons, readLine_header hline hname]
      exact ih (fun item hitem => hwf item (List.mem_cons_of_mem _ hitem)) _
  | @assign items key value line lines hline _ ih =>
      have hitem : (CfgItem.assign key value).WellFormed := hwf _ List.mem_cons_self
      have hcut : cutComment (key ++ '=' :: (value ++ [])) = key ++ '=' :: value := by
        rw [List.append_nil]
        apply cutComment_of_not_mem
        simp [hitem.1.2.2.2.1, hitem.2.2.1]
      rw [Vcu.readLines, List.foldl_cons, readLine_assign ?_ hcut hitem]
      · exact ih (fun item hitem => hwf item (List.mem_cons_of_mem _ hitem)) _
      · rw [List.append_nil, rmStrSpace_eq_filter, hline]
  | @assignComment items key value line comment lines hline _ _ ih =>
      have hitem : (CfgItem.assign key value).WellFormed := hwf _ List.mem_cons_self
      have hhash : '#' ∉ key ++ '=' :: value := by simp [hitem.1.2.2.2.1, hitem.2.2.1]
      have hread := filter_append_comment hline comment
      have hcut := cutComment_append hhash (comment.filter (· ≠ ' '))
      rw [List.append_assoc, List.cons_append] at hread hcut
      rw [Vcu.readLines, List.foldl_cons, readLine_assign hread hcut hitem]
      exact ih (fun item hitem => hwf item (List.mem_cons_of_mem _ hitem)) _

theorem Rendering.newline_not_mem (h : Rendering items lines) (hwf : ∀ item ∈ items, item.WellFormed) :
    ∀ line ∈ lines, '\n' ∉ line := by
  have hspaced {str line : List Char} (hline : Spaced str line) (hstr : '\n' ∉ str) : '\n' ∉ line :=
    fun hmem => hstr (hline.mem_of_ne hmem (by decide))
  induction h with
  | nil => nofun
  | blank hline _ ih => exact List.forall_mem_cons.mpr ⟨hspaced hline List.not_mem_nil, ih hwf⟩
  | comment hline hcomment _ ih =>
      refine List.forall_mem_cons.mpr ⟨?_, ih hwf⟩
      simp [hspaced hline List.not_mem_nil, hcomment]
  | header hline _ ih =>
      obtain ⟨hname, hrest⟩ := List.forall_mem_cons.mp hwf
      refine List.forall_mem_cons.mpr ⟨hspaced hline ?_, ih hrest⟩
      simp [hname.2.2]
  | assign hline _ ih =>
      obtain ⟨hitem, hrest⟩ := List.forall_mem_cons.mp hwf
      refine List.forall_mem_cons.mpr ⟨hspaced hline ?_, ih hrest⟩
      simp [hitem.1.2.2.2.2.2, hitem.2.2.2]
  | assignComment hline hcomment _ ih =>
      obtain ⟨hitem, hrest⟩ := List.forall_mem_cons.mp hwf
      refine List.forall_mem_cons.mpr ⟨?_, ih hrest⟩
      have hassign := hspaced hline (by simp [hitem.1.2.2.2.2.2, hitem.2.2.2])
      simp [hassign, hcomment]

-- Nothing is written with empty lines only.
theorem Rendering.items_eq_nil (h : Rendering items lines) (hlines : ∀ line ∈ lines, line = []) :
    items = [] := by
  induction h with
  | nil => rfl
  | blank _ _ ih => exact ih fun line hline => hlines line (List.mem_cons_of_mem _ hline)
  | comment => exact absurd (hlines _ List.mem_cons_self) (by simp)
  | header hline =>
      rw [hlines _ List.mem_cons_self] at hline
      cases hline
  | @assign items key value line lines hline =>
      rw [hlines _ List.mem_cons_self] at hline
      cases key <;> cases hline
  | assignComment => exact absurd (hlines _ List.mem_cons_self) (by simp)

theorem step_netCfg {stream next : IfStream} {line key : List Char} {mpNetData : NetData}
    (hgood : (stream.eof || stream.fail) = false) (hget : getline stream [] = (next, line)) :
    (NetCfgParser.mk stream key mpNetData).step =
      some { stream := next
             key := (readLine key mpNetData line).1
             mpNetData := (readLine key mpNetData line).2 } := by
  rw [NetCfgParser.step, hgood, if_neg Bool.false_ne_true, hget]

theorem rounds_netCfg (hlines : ∀ line ∈ lines, '\n' ∉ line) (last : List Char)
    (state : List Char × NetData) :
    rounds NetCfgParser.step lines.length
        { stream := { rest := Lines.join '\n' lines last }, key := state.1, mpNetData := state.2 } =
      some { stream := { rest := last }
             key := (readLines state lines).1
             mpNetData := (readLines state lines).2 } := by
  induction lines generalizing state with
  | nil => rfl
  | cons line lines ih =>
      have hline := hlines line List.mem_cons_self
      rw [Lines.join_cons, List.length_cons, rounds_succ_of_step (step_netCfg rfl (getline_line hline _ _))]
      exact ih (fun l hl => hlines l (List.mem_cons_of_mem _ hl)) _

-- The last line may be empty, and then the file ends with a newline.
theorem rounds_netCfg_end (hlines : ∀ line ∈ lines, '\n' ∉ line) {last : List Char} (hlast : '\n' ∉ last)
    (hne : Lines.join '\n' lines last ≠ []) (key : List Char) (mpNetData : NetData) :
    ∃ p, rounds NetCfgParser.step (lines.length + 1)
        (parserNetCfg (Lines.join '\n' lines last) key mpNetData) = some p ∧
      p.step = none ∧ p.mpNetData = (readLines (key, mpNetData) (lines ++ [last])).2 := by
  refine ⟨{ stream := { rest := [], eof := true, fail := last.isEmpty }
            key := (readLines (key, mpNetData) (lines ++ [last])).1
            mpNetData := (readLines (key, mpNetData) (lines ++ [last])).2 }, ?_, rfl, rfl⟩
  rw [parserNetCfg, List.isEmpty_eq_false_iff.mpr hne, rounds_add,
    rounds_netCfg hlines last (key, mpNetData), Option.bind_some,
    rounds_succ_of_step (step_netCfg rfl (getline_last hlast [])), rounds]
  simp only [readLines, List.foldl_append, List.foldl_cons, List.foldl_nil]

theorem readLines_nil_last (state : List Char × NetData) (lines : List (List Char)) :
    readLines state (lines ++ [[]]) = readLines state lines := by
  rw [readLines, List.foldl_append]
  rfl

theorem Rendering.rounds (h : Rendering items lines) (hwf : ∀ item ∈ items, item.WellFormed)
    (htext : FileText lines text) (hne : items ≠ []) (key : List Char) (mpNetData : NetData) :
    ∃ n p, Loop.rounds NetCfgParser.step n (parserNetCfg text key mpNetData) = some p ∧
      p.step = none ∧ p.mpNetData = (items.foldl perform (key, mpNetData)).2 := by
  have hlines := h.newline_not_mem hwf
  rw [← h.readLines hwf]
  rcases htext with rfl | ⟨init, last, rfl, rfl⟩
  · have htext : Lines.join '\n' lines [] ≠ [] := by
      cases lines with
      | nil =>
          cases h
          exact absurd rfl hne
      | cons line lines =>
          rw [Lines.join_cons]
          exact List.append_ne_nil_of_right_ne_nil _ (List.cons_ne_nil _ _)
    obtain ⟨p, hrun, hend, hp⟩ := rounds_netCfg_end hlines List.not_mem_nil htext key mpNetData
    rw [readLines_nil_last] at hp
    exact ⟨_, p, hrun, hend, hp⟩
  · have htext : Lines.join '\n' init last ≠ [] := by
      intro hnil
      obtain ⟨hinit, rfl⟩ := List.append_eq_nil_iff.mp hnil
      refine hne (h.items_eq_nil ?_)
      cases init with
      | nil => simp
      | cons line init => simp at hinit
    have hinit : ∀ line ∈ init, '\n' ∉ line := fun line hline => hlines line (List.mem_append_left _ hline)
    obtain ⟨p, hrun, hend, hp⟩ :=
      rounds_netCfg_end hinit (hlines last List.mem_concat_self) htext key mpNetData
    exact ⟨_, p, hrun, hend, hp⟩

end Run

section Value

variable {items : List CfgItem} {head key : List Char}

def NetData.value (mpNetData : NetData) (head key : List Char) : Option (List Char) :=
  mpNetData[head]?.bind fun m => m[key]?

-- The value that the last assignment to the key gives, where `current` is the section so far.
def latest (head key : List Char) : List Char → List CfgItem → Option (List Char)
  | _, [] => none
  | _, .header name :: items => latest head key name items
  | current, .assign str1 str2 :: items =>
      (latest head key current items).or
        (if current = head ∧ str1 = key then some str2 else none)

theorem value_assign (mpNetData : NetData) (current str1 str2 head key : List Char) :
    (mpNetData.assign current str1 str2).value head key =
      if current = head ∧ str1 = key then some str2 else mpNetData.value head key := by
  rw [NetData.assign, NetData.value, NetData.value, Std.ExtTreeMap.getElem?_alter]
  simp only [Std.LawfulEqCmp.compare_eq_iff_eq]
  by_cases hhead : current = head
  · subst hhead
    rw [if_pos rfl, Option.bind_some, Std.ExtTreeMap.getElem?_insert]
    simp only [Std.LawfulEqCmp.compare_eq_iff_eq, true_and]
    cases mpNetData[current]? with
    | none => simp
    | some m => rfl
  · simp [hhead]

theorem value_perform (items : List CfgItem) (current : List Char) (mpNetData : NetData)
    (head key : List Char) :
    (items.foldl perform (current, mpNetData)).2.value head key =
      (latest head key current items).or (mpNetData.value head key) := by
  induction items generalizing current mpNetData with
  | nil => rfl
  | cons item items ih =>
      cases item with
      | header name => exact ih name mpNetData
      | assign str1 str2 =>
          rw [List.foldl_cons, perform, ih, value_assign, latest, Option.or_assoc]
          congr 1
          split <;> rfl

end Value

-- The parser ends and has carried out the assignments in their order, each under the latest
-- section header.
theorem parserNetCfg_recovers {name : List Char} {items : List CfgItem} {lines : List (List Char)}
    {text : List Char} (hwf : ∀ item ∈ CfgItem.header name :: items, item.WellFormed)
    (hlines : Rendering (.header name :: items) lines) (htext : FileText lines text)
    (key : List Char) (mpNetData : NetData) :
    ∃ n p, rounds NetCfgParser.step n (parserNetCfg text key mpNetData) = some p ∧ p.step = none ∧
      p.mpNetData = (items.foldl perform (name, mpNetData)).2 ∧
      ∀ head key, p.mpNetData.value head key =
        (latest head key name items).or (mpNetData.value head key) := by
  obtain ⟨n, p, hrun, hend, hp⟩ := hlines.rounds hwf htext (List.cons_ne_nil _ _) key mpNetData
  refine ⟨n, p, hrun, hend, hp, ?_⟩
  intro head key
  rw [hp]
  exact value_perform items name mpNetData head key

theorem parserNetCfg_recovers_yolo :
    ∃ n p, rounds NetCfgParser.step n
        (parserNetCfg "[yolo _1]\n # grid\n\nmask = 6,7 #anchors".toList [] ∅) = some p ∧
      p.step = none ∧
      p.mpNetData = ([CfgItem.assign "mask".toList "6,7".toList].foldl perform ("yolo_1".toList, ∅)).2 ∧
      ∀ head key, p.mpNetData.value head key =
        (latest head key "yolo_1".toList [.assign "mask".toList "6,7".toList]).or
          (NetData.value ∅ head key) :=
  have hassign : Rendering [.assign "mask".toList "6,7".toList] ["mask = 6,7 ".toList ++ '#' :: "anchors".toList] :=
    .assignComment (by decide) (by decide) .nil
  have hgrid : Rendering [.assign "mask".toList "6,7".toList] ((" ".toList ++ '#' :: " grid".toList) :: _) :=
    .comment (by decide) (by decide) (.blank (by decide) hassign)
  have hheader : Rendering [.header "yolo_1".toList, .assign "mask".toList "6,7".toList] ("[yolo _1]".toList :: _) :=
    .header (by decide) hgrid
  parserNetCfg_recovers (by decide) hheader
    (.inr ⟨["[yolo _1]".toList, " # grid".toList, []], "mask = 6,7 #anchors".toList, rfl, rfl⟩) [] ∅

end Vcu
