import Vcu.Common.Configuration
import Vcu.Common.SplitRounds
import Vcu.FileManager.Termination
import Vcu.YoloDetect.Rendering

namespace Vcu

open Loop StdString

-- What parserCfg does with a line, which it takes apart as parserNetCfg does.
def readCfgLine (key : List Char) (maps : NetMaps) (strLine : List Char) : List Char × NetMaps :=
  if strLine = [] then (key, maps)
  else
    let strLine := rmStrSpace strLine
    if strLine = [] then (key, maps)
    else if strLine.head? = some '#' then (key, maps)
    else if strLine.head? = some '[' then (headerKey strLine, maps)
    else (key, maps.setCfg key (splitLine (cutComment strLine)))

-- `key` is static here too.
structure CfgFileParser where
  stream : IfStream
  key : List Char
  maps : NetMaps
  deriving DecidableEq

def CfgFileParser.step (p : CfgFileParser) : Option CfgFileParser :=
  if p.stream.eof || p.stream.fail then none
  else
    let (stream, strLine) := getline p.stream []
    let (key, maps) := readCfgLine p.key p.maps strLine
    some { stream := stream, key := key, maps := maps }

def parserCfg (content key : List Char) (maps : NetMaps) : CfgFileParser :=
  { stream := { rest := content, fail := content.isEmpty }, key := key, maps := maps }

-- An assignment goes to the map of the latest section.
def insertItem (state : List Char × NetMaps) : CfgItem → List Char × NetMaps
  | .header name => (name, state.2)
  | .assign key value => (state.1, state.2.setCfg state.1 (key, value))

-- The value that the first assignment to the key gives, where `current` is the section so far.
def firstValue (head key : List Char) : List Char → List CfgItem → Option (List Char)
  | _, [] => none
  | _, .header name :: items => firstValue head key name items
  | current, .assign str1 str2 :: items =>
      if current = head ∧ str1 = key then some str2 else firstValue head key current items

section Lines

variable {str line name key value head : List Char} {maps : NetMaps}

theorem readCfgLine_of_head {c : Char} (hread : rmStrSpace line = c :: str) (key : List Char) (maps : NetMaps) :
    readCfgLine key maps line =
      if c = '#' then (key, maps)
      else if c = '[' then (headerKey (c :: str), maps)
      else (key, maps.setCfg key (splitLine (cutComment (c :: str)))) := by
  have hline : line ≠ [] := by
    rintro rfl
    rw [rmStrSpace_eq_filter] at hread
    cases hread
  rw [readCfgLine, if_neg hline, hread]
  simp only [List.cons_ne_nil, if_false, List.head?_cons, Option.some.injEq]

theorem readCfgLine_blank (hline : Spaced [] line) : readCfgLine key maps line = (key, maps) := by
  rw [readCfgLine]
  split
  · rfl
  · rw [rmStrSpace_eq_filter, hline]
    rfl

theorem readCfgLine_assign (hread : rmStrSpace line = key ++ '=' :: str)
    (hcut : cutComment (key ++ '=' :: str) = key ++ '=' :: value)
    (hwf : (CfgItem.assign key value).WellFormed) :
    readCfgLine head maps line = (head, maps.setCfg head (key, value)) := by
  obtain ⟨⟨hne, hbracket, -, hhash, hequal, -⟩, -⟩ := hwf
  cases key with
  | nil => exact absurd rfl hne
  | cons c key =>
      have hcomment : c ≠ '#' := fun h => hhash (h ▸ List.mem_cons_self)
      have hheader : c ≠ '[' := fun h => hbracket (h ▸ rfl)
      rw [List.cons_append] at hread hcut
      rw [readCfgLine_of_head hread, if_neg hcomment, if_neg hheader, hcut, splitLine_eq hequal]

end Lines

section Run

variable {items : List CfgItem} {lines : List (List Char)} {text : List Char}

def readCfgLines (state : List Char × NetMaps) (lines : List (List Char)) : List Char × NetMaps :=
  lines.foldl (fun state line => readCfgLine state.1 state.2 line) state

theorem Rendering.readCfgLines (h : Rendering items lines) (hwf : ∀ item ∈ items, item.WellFormed)
    (state : List Char × NetMaps) : readCfgLines state lines = items.foldl insertItem state := by
  induction h generalizing state with
  | nil => rfl
  | blank hline _ ih =>
      rw [Vcu.readCfgLines, List.foldl_cons, readCfgLine_blank hline]
      exact ih hwf state
  | @comment items line comment lines hline _ _ ih =>
      rw [Vcu.readCfgLines, List.foldl_cons, readCfgLine_of_head (filter_append_comment hline comment), if_pos rfl]
      exact ih hwf state
  | @header items name line lines hline _ ih =>
      have hname := (hwf _ List.mem_cons_self).2.1
      have hread : rmStrSpace line = '[' :: (name ++ [']']) := (rmStrSpace_eq_filter line).trans hline
      rw [Vcu.readCfgLines, List.foldl_cons, readCfgLine_of_head hread, if_neg (by decide), if_pos rfl,
        headerKey_eq hname]
      exact ih (fun item hitem => hwf item (List.mem_cons_of_mem _ hitem)) _
  | @assign items key value line lines hline _ ih =>
      have hitem : (CfgItem.assign key value).WellFormed := hwf _ List.mem_cons_self
      have hread : rmStrSpace line = key ++ '=' :: value := (rmStrSpace_eq_filter line).trans hline
      have hhash : '#' ∉ key ++ '=' :: value := by simp [hitem.1.2.2.2.1, hitem.2.2.1]
      rw [Vcu.readCfgLines, List.foldl_cons, readCfgLine_assign hread (cutComment_of_not_mem hhash) hitem]
      exact ih (fun item hitem => hwf item (List.mem_cons_of_mem _ hitem)) _
  | @assignComment items key value line comment lines hline _ _ ih =>
      have hitem : (CfgItem.assign key value).WellFormed := hwf _ List.mem_cons_self
      have hhash : '#' ∉ key ++ '=' :: value := by simp [hitem.1.2.2.2.1, hitem.2.2.1]
      have hread := filter_append_comment hline comment
      have hcut := cutComment_append hhash (comment.filter (· ≠ ' '))
      rw [List.append_assoc, List.cons_append] at hread hcut
      rw [Vcu.readCfgLines, List.foldl_cons, readCfgLine_assign hread hcut hitem]
      exact ih (fun item hitem => hwf item (List.mem_cons_of_mem _ hitem)) _

theorem step_cfgFile {stream next : IfStream} {line key : List Char} {maps : NetMaps}
    (hgood : (stream.eof || stream.fail) = false) (hget : getline stream [] = (next, line)) :
    (CfgFileParser.mk stream key maps).step =
      some { stream := next
             key := (readCfgLine key maps line).1
             maps := (readCfgLine key maps line).2 } := by
  rw [CfgFileParser.step, hgood, if_neg Bool.false_ne_true, hget]

-- The loop takes the lines one after another, and the text behind the last newline ends it.
theorem exits_cfgFile (hlines : ∀ line ∈ lines, '\n' ∉ line) {last : List Char} (hlast : '\n' ∉ last)
    (state : List Char × NetMaps) :
    ∃ p, Exits CfgFileParser.step
        { stream := { rest := Lines.join '\n' lines last }, key := state.1, maps := state.2 } p ∧
      p.maps = (readCfgLines state (lines ++ [last])).2 := by
  induction lines generalizing state with
  | nil => exact ⟨_, Exits.of_step (step_cfgFile rfl (getline_last hlast [])) (Exits.of_none rfl), rfl⟩
  | cons line lines ih =>
      obtain ⟨hline, hlines⟩ := List.forall_mem_cons.mp hlines
      obtain ⟨p, hexits, hp⟩ := ih hlines (readCfgLine state.1 state.2 line)
      refine ⟨p, Exits.of_step ?_ hexits, hp⟩
      rw [Lines.join_cons]
      exact step_cfgFile rfl (getline_line hline _ _)

theorem FileText.eq_nil (h : FileText lines []) : ∀ line ∈ lines, line = [] := by
  rcases h with h | ⟨init, last, rfl, h⟩
  · cases lines with
    | nil => nofun
    | cons line lines =>
        rw [Lines.join_cons] at h
        exact absurd h.symm (List.append_ne_nil_of_right_ne_nil _ (List.cons_ne_nil _ _))
  · cases init with
    | nil =>
        rw [List.nil_append]
        exact fun line hline => (List.mem_singleton.mp hline).trans h.symm
    | cons line init =>
        rw [Lines.join_cons] at h
        exact absurd h.symm (List.append_ne_nil_of_right_ne_nil _ (List.cons_ne_nil _ _))

theorem Rendering.exits_cfgFile (h : Rendering items lines) (hwf : ∀ item ∈ items, item.WellFormed)
    (htext : FileText lines text) (key : List Char) (maps : NetMaps) :
    ∃ p, Exits CfgFileParser.step (parserCfg text key maps) p ∧
      p.maps = (items.foldl insertItem (key, maps)).2 := by
  have hlines := h.newline_not_mem hwf
  by_cases hempty : text = []
  · -- the stream has failed before the first round
    subst hempty
    obtain rfl := h.items_eq_nil htext.eq_nil
    exact ⟨_, Exits.of_none rfl, rfl⟩
  · rw [← h.readCfgLines hwf]
    have hstart : parserCfg text key maps = { stream := { rest := text }, key := key, maps := maps } := by
      rw [parserCfg, List.isEmpty_eq_false_iff.mpr hempty]
    rw [hstart]
    rcases htext with rfl | ⟨init, last, rfl, rfl⟩
    · obtain ⟨p, hexits, hp⟩ := Vcu.exits_cfgFile hlines List.not_mem_nil (key, maps)
      refine ⟨p, hexits, hp.trans ?_⟩
      rw [Vcu.readCfgLines, List.foldl_append]
      rfl
    · exact Vcu.exits_cfgFile (fun line hline => hlines line (List.mem_append_left _ hline))
        (hlines last List.mem_concat_self) (key, maps)

end Run

section Numbers

theorem foldl_digits (l : List Char) (n : Nat) :
    l.foldl (fun (n : Int) c => 10 * n + (c.toNat - 48 : Nat)) n = (Nat.ofDigitChars 10 l n : Int) := by
  induction l generalizing n with
  | nil => rfl
  | cons c l ih =>
      have hnext : (10 * (n : Int) + ((c.toNat - 48 : Nat) : Int)) = ((10 * n + (c.toNat - 48) : Nat) : Int) := by
        omega
      rw [List.foldl_cons, hnext, ih, Nat.ofDigitChars_cons]
      rfl

theorem atoi_toDigits (n : Nat) : atoi (Nat.toDigits 10 n) = n := by
  have hdigits : ∀ c ∈ Nat.toDigits 10 n, 48 ≤ c.toNat ∧ c.toNat ≤ 57 := by
    intro c hc
    have hdigit := Nat.isDigit_of_mem_toDigits (by decide) (by decide) hc
    simpa [Char.isDigit, UInt32.le_iff_toNat_le] using hdigit
  have hspace := dropWhile_isspace fun c hc => (hdigits c hc).1
  have htake : (Nat.toDigits 10 n).takeWhile (fun c => '0' ≤ c && c ≤ '9') = Nat.toDigits 10 n := by
    refine List.takeWhile_eq_self_iff.mpr fun c hc => ?_
    obtain ⟨hlow, hhigh⟩ := hdigits c hc
    simp only [Bool.and_eq_true, decide_eq_true_eq]
    exact ⟨UInt32.le_iff_toNat_le.mpr hlow, UInt32.le_iff_toNat_le.mpr hhigh⟩
  have hvalue := foldl_digits (Nat.toDigits 10 n) 0
  rw [Nat.ofDigitChars_ten_toDigits] at hvalue
  rw [atoi, hspace]
  cases htext : Nat.toDigits 10 n with
  | nil => exact absurd htext Nat.toDigits_ne_nil
  | cons c rest =>
      have hc := hdigits c (htext ▸ List.mem_cons_self)
      have hminus : c ≠ '-' := by
        rintro rfl
        exact absurd hc.1 (by decide)
      have hplus : c ≠ '+' := by
        rintro rfl
        exact absurd hc.1 (by decide)
      rw [htext] at htake hvalue
      dsimp only
      rw [if_neg hminus, if_neg hplus, htake]
      exact hvalue

theorem stringToNum_toDigits {port : Int} (hlow : 0 ≤ port) (hhigh : port < 2147483648) :
    stringToNum (Nat.toDigits 10 port.toNat) = port := by
  rw [stringToNum, atoi_toDigits]
  omega

def quoted (t : List Char) : List Char := '"' :: (t ++ ['"'])

theorem unquote_quoted {t : List Char} (h : t.length < npos) : unquote (quoted t) = some t := by
  have hcount : sizeT (((quoted t).length : Int) - 2) = t.length := by
    rw [quoted, List.length_cons, List.length_append, List.length_singleton,
      show ((t.length + 1 + 1 : Nat) : Int) - 2 = (t.length : Int) by omega, sizeT]
    rw [npos] at h
    omega
  rw [unquote, hcount, quoted, substrAt, if_neg (by simp), substr, List.drop_succ_cons, List.drop_zero,
    List.take_left]

end Numbers

section Maps

theorem find?_mapInsert (m : List (List Char × List Char)) (p : List Char × List Char) (k : List Char) :
    (mapInsert m p).find? (fun q => q.1 = k) =
      (m.find? fun q => q.1 = k).or (if p.1 = k then some p else none) := by
  rw [mapInsert]
  split
  · rename_i hany
    obtain ⟨q, hq, hkey⟩ := List.any_eq_true.mp hany
    split
    · rename_i hk
      -- the key is there already
      have hfound : (m.find? fun q => q.1 = k).isSome := by
        rw [List.find?_isSome]
        exact ⟨q, hq, by rw [← hk]; exact hkey⟩
      obtain ⟨r, hr⟩ := Option.isSome_iff_exists.mp hfound
      rw [hr]
      rfl
    · rw [Option.or_none]
  · rw [List.find?_append, List.find?_singleton]
    congr 1
    split
    · rename_i hk
      rw [if_pos (of_decide_eq_true hk)]
    · rename_i hk
      rw [if_neg fun h => hk (decide_eq_true h)]

-- One of the maps, as setCfg fills it.
structure Section (get : NetMaps → List (List Char × List Char)) (name : String) : Prop where
  setCfg : ∀ (m : NetMaps) key val,
    get (m.setCfg key val) = if key = name.toList then mapInsert (get m) val else get m

theorem section_camera : Section NetMaps.mpCamera "camera" := by
  refine ⟨fun m key val => ?_⟩
  unfold NetMaps.setCfg
  split
  · rfl
  · split
    · rfl
    · split
      · rfl
      · rfl

theorem section_rtp : Section NetMaps.mpRtp "rtp_send" := by
  have hne : "camera".toList ≠ "rtp_send".toList := by decide
  refine ⟨fun m key val => ?_⟩
  unfold NetMaps.setCfg
  by_cases hcamera : key = "camera".toList
  · rw [if_pos hcamera, if_neg (hcamera ▸ hne)]
  · rw [if_neg hcamera]
    split
    · rfl
    · split
      · rfl
      · rfl

theorem section_box : Section NetMaps.mpBox "box_send" := by
  have hne : "camera".toList ≠ "box_send".toList := by decide
  have hne' : "rtp_send".toList ≠ "box_send".toList := by decide
  refine ⟨fun m key val => ?_⟩
  unfold NetMaps.setCfg
  by_cases hcamera : key = "camera".toList
  · rw [if_pos hcamera, if_neg (hcamera ▸ hne)]
  · rw [if_neg hcamera]
    by_cases hrtp : key = "rtp_send".toList
    · rw [if_pos hrtp, if_neg (hrtp ▸ hne')]
    · rw [if_neg hrtp]
      split
      · rfl
      · rfl

-- A map knows the first setting of each key in its sections.
theorem find?_insertItem {get : NetMaps → List (List Char × List Char)} {head : String} (hget : Section get head)
    (items : List CfgItem) (current : List Char) (maps : NetMaps) (key : List Char) :
    ((get (items.foldl insertItem (current, maps)).2).find? fun q => q.1 = key).map Prod.snd =
      (((get maps).find? fun q => q.1 = key).map Prod.snd).or (firstValue head.toList key current items) := by
  induction items generalizing current maps with
  | nil => rw [List.foldl_nil, firstValue, Option.or_none]
  | cons item items ih =>
      rw [List.foldl_cons, ih]
      cases item with
      | header name => rfl
      | assign str1 str2 =>
          rw [insertItem, hget.setCfg, firstValue]
          by_cases hhead : current = head.toList
          · rw [if_pos hhead, find?_mapInsert]
            by_cases hkey : str1 = key
            · rw [if_pos hkey, if_pos ⟨hhead, hkey⟩]
              cases (get maps).find? fun q => q.1 = key with
              | none => rfl
              | some q => rfl
            · rw [if_neg hkey, if_neg fun h => hkey h.2, Option.or_none]
          · rw [if_neg hhead, if_neg fun h => hhead h.1]

theorem mapAt_insertItem {get : NetMaps → List (List Char × List Char)} {head : String} (hget : Section get head)
    {items : List CfgItem} {current key value : List Char} {maps : NetMaps} (hempty : get maps = [])
    (h : firstValue head.toList key current items = some value) :
    mapAt (get (items.foldl insertItem (current, maps)).2) key = value := by
  rw [mapAt, find?_insertItem hget, hempty, h]
  rfl

end Maps

-- What a file says about a key of a section. An entry that is there already stays.
def setting (items : List CfgItem) (head key : String) : Option (List Char) :=
  firstValue head.toList key.toList [] items

structure NetParaCfg.WrittenIn (items : List CfgItem) (para : NetParaCfg) : Prop where
  url : setting items "camera" "url" = some (quoted para.url)
  cameraIP : setting items "camera" "ip" = some para.cameraIP
  cameraPort : setting items "camera" "port" = some (Nat.toDigits 10 para.cameraPort.toNat)
  cameraUser : setting items "camera" "user" = some (quoted para.cameraUser)
  cameraPassword : setting items "camera" "password" = some (quoted para.cameraPassword)
  rtpSendIP : setting items "rtp_send" "ip" = some para.rtpSendIP
  rtpSendPort : setting items "rtp_send" "port" = some (Nat.toDigits 10 para.rtpSendPort.toNat)
  boxSendIP : setting items "box_send" "ip" = some para.boxSendIP
  boxSendPort : setting items "box_send" "port" = some (Nat.toDigits 10 para.boxSendPort.toNat)
  ports : ∀ port ∈ [para.cameraPort, para.rtpSendPort, para.boxSendPort], 0 ≤ port ∧ port < 2147483648
  fits : ∀ text ∈ [para.url, para.cameraUser, para.cameraPassword], text.length < npos

theorem NetParaCfg.WrittenIn.initCfg {items : List CfgItem} {para : NetParaCfg} (h : para.WrittenIn items) :
    (items.foldl insertItem ([], {})).2.initCfg = some para := by
  have hquoted {key : String} {text : List Char} (hkey : setting items "camera" key = some (quoted text))
      (htext : text ∈ [para.url, para.cameraUser, para.cameraPassword]) :
      unquote (mapAt (items.foldl insertItem ([], {})).2.mpCamera key.toList) = some text := by
    rw [mapAt_insertItem section_camera rfl hkey]
    exact unquote_quoted (h.fits text htext)
  have hport {get : NetMaps → List (List Char × List Char)} {head : String} {port : Int} (hget : Section get head)
      (hempty : get {} = []) (hkey : setting items head "port" = some (Nat.toDigits 10 port.toNat))
      (hmem : port ∈ [para.cameraPort, para.rtpSendPort, para.boxSendPort]) :
      stringToNum (mapAt (get (items.foldl insertItem ([], {})).2) "port".toList) = port := by
    rw [mapAt_insertItem hget hempty hkey]
    exact stringToNum_toDigits (h.ports port hmem).1 (h.ports port hmem).2
  rw [NetMaps.initCfg, hquoted h.cameraUser (by simp), hquoted h.cameraPassword (by simp), hquoted h.url (by simp),
    hport section_camera rfl h.cameraPort (by simp), hport section_rtp rfl h.rtpSendPort (by simp),
    hport section_box rfl h.boxSendPort (by simp), mapAt_insertItem section_camera rfl h.cameraIP,
    mapAt_insertItem section_rtp rfl h.rtpSendIP, mapAt_insertItem section_box rfl h.boxSendIP]
  rfl

-- However the file is laid out (spaces anywhere, comments, empty lines, sections in any order and in several
-- pieces, keys and sections that nobody reads, keys that come again), the program ends up with the
-- configuration that the file states.
theorem net_cfg_loaded (items : List CfgItem) (lines : List (List Char)) (text : List Char) (para : NetParaCfg)
    (hwf : ∀ item ∈ items, item.WellFormed) (hlines : Rendering items lines) (htext : FileText lines text)
    (hpara : para.WrittenIn items) :
    ∃ p, Exits CfgFileParser.step (parserCfg text [] {}) p ∧ p.maps.initCfg = some para := by
  obtain ⟨p, hexits, hp⟩ := hlines.exits_cfgFile hwf htext [] {}
  refine ⟨p, hexits, ?_⟩
  rw [hp]
  exact hpara.initCfg

def gardenNet : NetParaCfg where
  url := "rtsp://192.168.3.18:554/cam".toList
  cameraIP := "192.168.3.18".toList
  cameraPort := 554
  cameraUser := []
  cameraPassword := "secret".toList
  rtpSendIP := "192.168.3.110".toList
  rtpSendPort := 8880
  boxSendIP := "192.168.3.110".toList
  boxSendPort := 7780

def gardenFile : List Char :=
  "# garden\n[ camera]\nip = 192.168.3.18\nport=554 # rtsp\n\nuser= \"\"\npassword=\"secret\"\n".toList ++
    "url=\"rtsp://192.168.3.18:554/cam\"\n[rtp_send]\nip=192.168.3.110\nport=8880\n[box_send]\n".toList ++
    "ip=192.168.3.110\nport=7780\n[camera]\nport=8554".toList

theorem net_cfg_loaded_garden :
    ∃ p, Exits CfgFileParser.step (parserCfg gardenFile [] {}) p ∧ p.maps.initCfg = some gardenNet := by
  have hagain : Rendering [.header "camera".toList, .assign "port".toList "8554".toList]
      ["[camera]".toList, "port=8554".toList] := .header (by decide) (.assign (by decide) .nil)
  have hbox : Rendering (.header "box_send".toList :: .assign "ip".toList "192.168.3.110".toList ::
        .assign "port".toList "7780".toList :: _)
      ("[box_send]".toList :: "ip=192.168.3.110".toList :: "port=7780".toList :: _) :=
    .header (by decide) (.assign (by decide) (.assign (by decide) hagain))
  have hrtp : Rendering (.header "rtp_send".toList :: .assign "ip".toList "192.168.3.110".toList ::
        .assign "port".toList "8880".toList :: _)
      ("[rtp_send]".toList :: "ip=192.168.3.110".toList :: "port=8880".toList :: _) :=
    .header (by decide) (.assign (by decide) (.assign (by decide) hbox))
  have hlogin : Rendering (.assign "user".toList "\"\"".toList :: .assign "password".toList "\"secret\"".toList ::
        .assign "url".toList "\"rtsp://192.168.3.18:554/cam\"".toList :: _)
      ("user= \"\"".toList :: "password=\"secret\"".toList :: "url=\"rtsp://192.168.3.18:554/cam\"".toList :: _) :=
    .assign (by decide) (.assign (by decide) (.assign (by decide) hrtp))
  have hport : Rendering (.assign "port".toList "554".toList :: _)
      (("port=554 ".toList ++ '#' :: " rtsp".toList) :: [] :: _) :=
    .assignComment (by decide) (by decide) (.blank (by decide) hlogin)
  have hcamera : Rendering (.header "camera".toList :: .assign "ip".toList "192.168.3.18".toList :: _)
      (([] ++ '#' :: " garden".toList) :: "[ camera]".toList :: "ip = 192.168.3.18".toList :: _) :=
    .comment (by decide) (by decide) (.header (by decide) (.assign (by decide) hport))
  refine net_cfg_loaded _ _ gardenFile gardenNet (by decide) hcamera
    (.inr ⟨(Lines.cut '\n' gardenFile).1, (Lines.cut '\n' gardenFile).2, ?_, (Lines.join_cut _).symm⟩)
    ⟨by decide, by decide, by decide, by decide, by decide, by decide, by decide, by decide, by decide, by decide,
      by decide⟩
  decide +kernel

end Vcu
