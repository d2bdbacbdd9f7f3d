import Vcu.FileManager.Termination

namespace Vcu

open Loop StdString

-- What a file has configured so far. The section that is being read comes last.
def CfgParser.collected : CfgParser → List (List Char × List (List Char × List Char))
  | .outer _ cfgs => cfgs
  | .inner _ head _ mpVal cfgs => cfgs ++ [(head, mpVal)]
  | .exited => []

def configured (content : List Char) (n : Nat) :
    Option (List (List Char × List (List Char × List Char))) :=
  (rounds CfgParser.step n (parserBasicCfg content)).map CfgParser.collected

structure Word (s : List Char) : Prop where
  nonempty : s ≠ []
  space : ' ' ∉ s
  hash : '#' ∉ s
  equal : '=' ∉ s
  newline : '\n' ∉ s

def bareLine (key value : List Char) : List Char := key ++ '=' :: value

def commentedLine (key value : List Char) (spaces : Nat) (comment : List Char) : List Char :=
  bareLine key value ++ (List.replicate spaces ' ' ++ '#' :: comment)

theorem sizeT_natCast {n : Nat} (h : n ≤ 2147483647) : sizeT n = n := by
  rw [sizeT]
  omega

section Entry

variable {key value comment tail : List Char} {spaces : Nat}

-- Where parserBasicCfg takes the value of a line to end.
def valueEnd (temp : List Char) : Int :=
  let pos2 := intPos (find temp ['#'])
  let postemp := intPos (findFirstOf temp [' '] (some 0))
  if pos2 ≠ -1 then if postemp ≠ -1 then pos2 - (pos2 - postemp) else pos2 else temp.length

theorem lineEntry_of_valueEnd (hkey : '=' ∉ key) {len : Nat}
    (hfits : (key ++ '=' :: tail).length ≤ 2147483647) (hend : valueEnd (key ++ '=' :: tail) = len)
    (hlen : key.length + 1 + value.length = len) (hvalue : tail.take value.length = value) :
    lineEntry (key ++ '=' :: tail) = some (key, value) := by
  have hpos : find (key ++ '=' :: tail) ['='] = some key.length := by
    rw [find_append hkey, find_self]
    rfl
  have hle : value.length ≤ tail.length := by
    rw [← hvalue, List.length_take]
    exact Nat.min_le_right ..
  rw [List.length_append, List.length_cons] at hfits
  have hkey' : sizeT (key.length : Int) = key.length := sizeT_natCast (by omega)
  have hnext : sizeT ((key.length : Int) + 1) = key.length + 1 := by
    have h := sizeT_natCast (n := key.length + 1) (by omega)
    exact_mod_cast h
  have hcount : sizeT ((len : Int) - key.length - 1) = value.length := by
    have h := sizeT_natCast (n := value.length) (by omega)
    rw [← h]
    congr 1
    omega
  have hlineEntry : lineEntry (key ++ '=' :: tail) =
      (substrAt (key ++ '=' :: tail) 0 (sizeT (intPos (find (key ++ '=' :: tail) ['='])))).bind
        fun k => (substrAt (key ++ '=' :: tail)
          (sizeT (intPos (find (key ++ '=' :: tail) ['=']) + 1))
          (sizeT (valueEnd (key ++ '=' :: tail) - intPos (find (key ++ '=' :: tail) ['=']) - 1))).bind
        fun v => some (k, v) := rfl
  have hdrop : (key ++ '=' :: tail).drop (key.length + 1) = tail := by simp [List.drop_append]
  have hinside : ¬ key.length + 1 > (key ++ '=' :: tail).length := by
    rw [List.length_append, List.length_cons]
    omega
  rw [hlineEntry, hpos, intPos, hend, hkey', hnext, hcount, substrAt, if_neg (Nat.not_lt_zero _),
    Option.bind_some, substrAt, if_neg hinside, Option.bind_some, substr, substr, List.drop_zero,
    List.take_left, hdrop, hvalue]

theorem lineEntry_bareLine (hkey : Word key) (hvalue : Word value)
    (hfits : (bareLine key value).length ≤ 2147483647) :
    lineEntry (bareLine key value) = some (key, value) := by
  have hhash : find (bareLine key value) ['#'] = none := by
    apply find_of_not_mem
    simp [bareLine, hkey.hash, hvalue.hash]
  have hend : valueEnd (bareLine key value) = (bareLine key value).length := by
    rw [valueEnd, hhash]
    rfl
  refine lineEntry_of_valueEnd hkey.equal hfits hend ?_ List.take_length
  rw [bareLine, List.length_append, List.length_cons]
  omega

theorem not_mem_bareLine {c : Char} (hkey : c ∉ key) (hvalue : c ∉ value) (hc : c ≠ '=') :
    c ∉ bareLine key value := by
  simp [bareLine, hkey, hvalue, hc]

-- The first space of the line decides, also where it lies behind the '#'.
theorem lineEntry_commentedLine (hkey : Word key) (hvalue : Word value)
    (hfits : (commentedLine key value spaces comment).length ≤ 2147483647) :
    ∃ val, lineEntry (commentedLine key value spaces comment) = some (key, val) ∧
      (val = value ↔ 0 < spaces ∨ ' ' ∉ comment) := by
  have hspace := not_mem_bareLine hkey.space hvalue.space (by decide)
  have hhash : find (commentedLine key value spaces comment) ['#'] =
      some ((bareLine key value).length + spaces) := by
    rw [commentedLine, find_append (not_mem_bareLine hkey.hash hvalue.hash (by decide)),
      find_append (by simp [List.mem_replicate]), find_self]
    simp
  have htemp : commentedLine key value spaces comment =
      key ++ '=' :: (value ++ (List.replicate spaces ' ' ++ '#' :: comment)) := by
    simp [commentedLine, bareLine]
  have hbare : (bareLine key value).length = key.length + 1 + value.length := by
    rw [bareLine, List.length_append, List.length_cons]
    omega
  -- The end of the value, given the first space.
  have hend : ∀ {val : List Char} {postemp : Option Nat},
      find (commentedLine key value spaces comment) [' '] = postemp →
      postemp.getD ((bareLine key value).length + spaces) = key.length + 1 + val.length →
      (value ++ (List.replicate spaces ' ' ++ '#' :: comment)).take val.length = val →
      lineEntry (commentedLine key value spaces comment) = some (key, val) := by
    intro val postemp hpostemp hlen htake
    rw [htemp] at hfits hpostemp hhash ⊢
    refine lineEntry_of_valueEnd hkey.equal hfits ?_ rfl htake
    have hfound (n : Nat) : (n : Int) ≠ -1 := by omega
    rw [valueEnd, hhash, findFirstOf_eq_find, hpostemp]
    cases postemp with
    | none =>
        simp only [intPos, Option.getD_none, ne_eq, hfound, not_true, not_false_eq_true, if_true,
          if_false] at hlen ⊢
        omega
    | some p =>
        simp only [intPos, Option.getD_some, ne_eq, hfound, not_false_eq_true, if_true] at hlen ⊢
        omega
  cases spaces with
  | succ n =>
      have hfirst : find (commentedLine key value (n + 1) comment) [' '] =
          some (bareLine key value).length := by
        rw [commentedLine, find_append hspace, List.replicate_succ, List.cons_append, find_self]
        rfl
      refine ⟨value, hend hfirst hbare List.take_left, ?_⟩
      simp
  | zero =>
      have hfind : find (commentedLine key value 0 comment) [' '] =
          (find comment [' ']).map ((bareLine key value).length + 1 + ·) := by
        rw [commentedLine, find_append hspace, List.replicate_zero, List.nil_append, find,
          if_neg (by simp), Option.map_map]
        congr 1
        funext n
        rw [Function.comp_apply]
        omega
      by_cases hcomment : ' ' ∈ comment
      · obtain ⟨p, hp⟩ := Option.isSome_iff_exists.mp (find_isSome hcomment)
        have hlt := find_lt hp
        rw [hp] at hfind
        refine ⟨value ++ '#' :: comment.take p, hend hfind ?_ ?_, ?_⟩
        · simp only [Option.map_some, Option.getD_some, List.length_append, List.length_cons,
            List.length_take, Nat.min_eq_left (Nat.le_of_lt hlt)]
          omega
        · rw [List.length_append, List.length_cons, List.length_take, Nat.min_eq_left (Nat.le_of_lt hlt),
            List.take_length_add_append]
          rfl
        · simp [hcomment]
      · rw [find_of_not_mem hcomment] at hfind
        exact ⟨value, hend hfind hbare List.take_left, by simp [hcomment]⟩

end Entry

section Insert

variable {m : List (List Char × List Char)} {k v w : List Char}

theorem mapInsert_of_mem (h : (k, w) ∈ m) (v : List Char) : mapInsert m (k, v) = m := by
  rw [mapInsert, if_pos]
  exact List.any_eq_true.mpr ⟨(k, w), h, decide_eq_true rfl⟩

theorem mapInsert_of_not_mem (h : ¬ ∃ w, (k, w) ∈ m) (v : List Char) :
    mapInsert m (k, v) = m ++ [(k, v)] := by
  rw [mapInsert, if_neg]
  intro hany
  obtain ⟨q, hq, he⟩ := List.any_eq_true.mp hany
  obtain rfl : q.1 = k := of_decide_eq_true he
  exact h ⟨q.2, hq⟩

theorem mem_mapInsert (m : List (List Char × List Char)) (k v : List Char) :
    ∃ w, (k, w) ∈ mapInsert m (k, v) := by
  by_cases h : ∃ w, (k, w) ∈ m
  · obtain ⟨w, hw⟩ := h
    rw [mapInsert_of_mem hw]
    exact ⟨w, hw⟩
  · rw [mapInsert_of_not_mem h]
    exact ⟨v, List.mem_append_right _ List.mem_cons_self⟩

theorem mapInsert_eq_iff : mapInsert m (k, w) = mapInsert m (k, v) ↔ w = v ∨ ∃ u, (k, u) ∈ m := by
  by_cases h : ∃ u, (k, u) ∈ m
  · obtain ⟨u, hu⟩ := h
    rw [mapInsert_of_mem hu, mapInsert_of_mem hu]
    exact iff_of_true rfl (.inr ⟨u, hu⟩)
  · rw [mapInsert_of_not_mem h, mapInsert_of_not_mem h, List.append_cancel_left_eq, or_iff_left h]
    simp

end Insert

section Reading

variable {line tail : List Char} {stream : IfStream} {inside : Bool} {p : CfgParser}
  {lines : List (List Char)}

def CfgParser.withStream (stream : IfStream) : CfgParser → CfgParser
  | .outer _ cfgs => .outer stream cfgs
  | .inner _ head temp mpVal cfgs => .inner stream head temp mpVal cfgs
  | .exited => .exited

theorem collected_withStream (stream : IfStream) (p : CfgParser) :
    (p.withStream stream).collected = p.collected := by
  cases p <;> rfl

theorem Standing.withStream (h : Standing stream inside p) (stream' : IfStream) :
    Standing stream' inside (p.withStream stream') := by
  cases h with
  | outer cfgs => exact .outer cfgs
  | inner head temp mpVal cfgs => exact .inner head temp mpVal cfgs

-- What lies behind a line does not matter while it is read.
theorem step_withStream (hline : '\n' ∉ line) (p : CfgParser) (rest : List Char) :
    (p.withStream { rest := line ++ '\n' :: rest }).step =
      (p.withStream { rest := line ++ '\n' :: [] }).step.map (·.withStream { rest := rest }) := by
  cases p with
  | exited => rfl
  | outer stream cfgs =>
      simp only [CfgParser.withStream, CfgParser.step, getline_line hline, Bool.or_self,
        Bool.false_eq_true, if_false]
      split
      · rfl
      · split
        · split <;> rfl
        · rfl
  | inner stream head temp mpVal cfgs =>
      simp only [CfgParser.withStream, CfgParser.step, getline_line hline]
      split
      · rfl
      · split
        · rfl
        · split <;> rfl

theorem rounds_lines (hlines : ∀ line ∈ lines, '\n' ∉ line) (hp : Standing stream inside p) :
    ∃ q, Standing { rest := [] } (lines.foldl inSection inside) q ∧ ∀ tail,
      rounds CfgParser.step lines.length (p.withStream { rest := Lines.join '\n' lines tail }) =
        some (q.withStream { rest := tail }) := by
  induction lines generalizing inside stream p with
  | nil =>
      refine ⟨p.withStream { rest := [] }, hp.withStream _, ?_⟩
      intro tail
      cases p <;> rfl
  | cons line lines ih =>
      have hline := hlines line List.mem_cons_self
      obtain ⟨q, hstep, hq⟩ := step_line hline (hp.withStream { rest := line ++ '\n' :: [] })
      obtain ⟨r, hr, hrun⟩ := ih (fun l hl => hlines l (List.mem_cons_of_mem _ hl)) hq
      refine ⟨r, hr, ?_⟩
      intro tail
      have hnext : (p.withStream { rest := line ++ '\n' :: Lines.join '\n' lines tail }).step =
          some (q.withStream { rest := Lines.join '\n' lines tail }) := by
        rw [step_withStream hline, hstep, Option.map_some]
      rw [Lines.join_cons, List.length_cons, rounds_succ_of_step hnext]
      exact hrun tail

-- Nor do the rounds before a line depend on it.
theorem configured_lines (hlines : ∀ line ∈ lines, '\n' ∉ line) {n : Nat} (hn : n ≤ lines.length)
    (tail tail' : List Char) :
    configured (Lines.join '\n' lines tail) n = configured (Lines.join '\n' lines tail') n := by
  have htake : ∀ line ∈ lines.take n, '\n' ∉ line := fun line h => hlines line (List.mem_of_mem_take h)
  obtain ⟨q, -, hrun⟩ := rounds_lines htake (show Standing { rest := [] } false _ from .outer [])
  rw [List.length_take, Nat.min_eq_left hn] at hrun
  have hsplit (t : List Char) : configured (Lines.join '\n' lines t) n = some q.collected := by
    have h := hrun (Lines.join '\n' (lines.drop n) t)
    rw [← Lines.join_append, List.take_append_drop] at h
    rw [configured, parserBasicCfg, ← collected_withStream]
    exact congrArg (Option.map CfgParser.collected) h
  rw [hsplit, hsplit]

end Reading

section Lockstep

variable {key value val comment line tail : List Char} {spaces : Nat} {stream : IfStream}
  {head temp : List Char} {mpVal : List (List Char × List Char)}
  {cfgs : List (List Char × List (List Char × List Char))} {p q : CfgParser}

-- A line whose entry is in the map.
def Stored (mpVal : List (List Char × List Char)) (temp : List Char) : Prop :=
  temp ≠ [] ∧ temp.head? ≠ some '#' ∧ ∃ k v w, lineEntry temp = some (k, v) ∧ (k, w) ∈ mpVal

-- Parsers that differ only in the line they have read last. The next getline replaces it, or the
-- file is over and the line comes again and again.
inductive Alike : CfgParser → CfgParser → Prop where
  | same (p : CfgParser) : Alike p p
  | reading (rest head temp temp' : List Char) (mpVal : List (List Char × List Char))
      (cfgs : List (List Char × List (List Char × List Char))) :
      Alike (.inner { rest := rest } head temp mpVal cfgs) (.inner { rest := rest } head temp' mpVal cfgs)
  | stuck {stream : IfStream} (head temp temp' : List Char) (mpVal : List (List Char × List Char))
      (cfgs : List (List Char × List (List Char × List Char))) (heof : stream.eof = true)
      (htemp : Stored mpVal temp) (htemp' : Stored mpVal temp') :
      Alike (.inner stream head temp mpVal cfgs) (.inner stream head temp' mpVal cfgs)

theorem step_entry (hline : line ≠ []) (hcomment : line.head? ≠ some '#')
    (hentry : lineEntry line = some (key, val)) {next : IfStream}
    (hget : getline stream temp = (next, line)) :
    (CfgParser.inner stream head temp mpVal cfgs).step =
      some (.inner next head line (mapInsert mpVal (key, val)) cfgs) := by
  rw [CfgParser.step, hget]
  simp only
  rw [if_neg hline, if_neg hcomment, hentry]

theorem Stored.step_eof (h : Stored mpVal temp) (heof : stream.eof = true) :
    (CfgParser.inner stream head temp mpVal cfgs).step =
      some (.inner { stream with fail := true } head temp mpVal cfgs) := by
  obtain ⟨hne, hhead, k, v, w, hentry, hmem⟩ := h
  rw [step_entry hne hhead hentry (getline_eof heof temp), mapInsert_of_mem hmem]

theorem Alike.collected (h : Alike p q) : p.collected = q.collected := by
  cases h <;> rfl

theorem Alike.step (h : Alike p q) : Option.Rel Alike p.step q.step := by
  have hsame : ∀ next : Option CfgParser, Option.Rel Alike next next := by
    intro next
    cases next with
    | none => exact .none
    | some p => exact .some (.same p)
  cases h with
  | same => exact hsame p.step
  | reading rest head temp temp' mpVal cfgs => exact hsame (CfgParser.inner _ head temp mpVal cfgs).step
  | stuck head temp temp' mpVal cfgs heof htemp htemp' =>
      rw [htemp.step_eof heof, htemp'.step_eof heof]
      exact .some (.stuck head temp temp' mpVal cfgs heof htemp htemp')

-- The stream behind a line. The last line of a file may have no newline.
def afterLine : List Char → IfStream
  | [] => { rest := [], eof := true }
  | _ :: rest => { rest := rest }

theorem getline_tail (hline : line ≠ []) (hnewline : '\n' ∉ line)
    (htail : tail = [] ∨ ∃ rest, tail = '\n' :: rest) (temp : List Char) :
    getline { rest := line ++ tail } temp = (afterLine tail, line) := by
  rcases htail with rfl | ⟨rest, rfl⟩
  · rw [List.append_nil, getline_last hnewline, List.isEmpty_eq_false_iff.mpr hline]
    rfl
  · exact getline_line hnewline rest temp

-- An assignment of the section, written with the value `val` as the parser sees it.
structure Entry (line key val : List Char) : Prop where
  nonempty : line ≠ []
  noComment : line.head? ≠ some '#'
  newline : '\n' ∉ line
  entry : lineEntry line = some (key, val)

theorem Entry.step_tail (h : Entry line key val) (htail : tail = [] ∨ ∃ rest, tail = '\n' :: rest) :
    (CfgParser.inner { rest := line ++ tail } head temp mpVal cfgs).step =
      some (.inner (afterLine tail) head line (mapInsert mpVal (key, val)) cfgs) :=
  step_entry h.nonempty h.noComment h.entry (getline_tail h.nonempty h.newline htail temp)

theorem Entry.stored (h : Entry line key val) (mpVal : List (List Char × List Char)) :
    Stored (mapInsert mpVal (key, val)) line :=
  ⟨h.nonempty, h.noComment, key, val, (mem_mapInsert mpVal key val).choose, h.entry,
    (mem_mapInsert mpVal key val).choose_spec⟩

theorem Word.head_bareLine (hkey : Word key) (value tail : List Char) :
    bareLine key value ++ tail ≠ [] ∧ (bareLine key value ++ tail).head? ≠ some '#' := by
  cases key with
  | nil => exact absurd rfl hkey.nonempty
  | cons c key =>
      refine ⟨List.cons_ne_nil _ _, ?_⟩
      intro h
      obtain rfl : c = '#' := Option.some.inj h
      exact hkey.hash List.mem_cons_self

theorem entry_bareLine (hkey : Word key) (hvalue : Word value)
    (hfits : (bareLine key value).length ≤ 2147483647) : Entry (bareLine key value) key value := by
  have hhead := hkey.head_bareLine value []
  rw [List.append_nil] at hhead
  exact ⟨hhead.1, hhead.2, not_mem_bareLine hkey.newline hvalue.newline (by decide),
    lineEntry_bareLine hkey hvalue hfits⟩

theorem entry_commentedLine (hkey : Word key) (hvalue : Word value) (hcomment : '\n' ∉ comment)
    (hfits : (commentedLine key value spaces comment).length ≤ 2147483647) :
    ∃ val, Entry (commentedLine key value spaces comment) key val ∧
      (val = value ↔ 0 < spaces ∨ ' ' ∉ comment) := by
  obtain ⟨val, hentry, hval⟩ := lineEntry_commentedLine hkey hvalue hfits
  have hhead := hkey.head_bareLine value (List.replicate spaces ' ' ++ '#' :: comment)
  refine ⟨val, ⟨hhead.1, hhead.2, ?_, hentry⟩, hval⟩
  have hbare := not_mem_bareLine hkey.newline hvalue.newline (by decide)
  simp [commentedLine, hbare, hcomment, List.mem_replicate]

-- Two texts for one line of a section, behind the same lines and before the same tail.
theorem configured_eq_iff {lines : List (List Char)} {line' val' : List Char} (h : Entry line key val)
    (h' : Entry line' key val') (htail : tail = [] ∨ ∃ rest, tail = '\n' :: rest)
    (hrun : ∀ rest, rounds CfgParser.step lines.length (parserBasicCfg (Lines.join '\n' lines rest)) =
      some (.inner { rest := rest } head temp mpVal cfgs))
    (hlines : ∀ line ∈ lines, '\n' ∉ line) :
    (∀ n, configured (Lines.join '\n' lines (line' ++ tail)) n =
        configured (Lines.join '\n' lines (line ++ tail)) n) ↔
      val' = val ∨ ∃ w, (key, w) ∈ mpVal := by
  have hbehind {line val : List Char} (h : Entry line key val) (n : Nat) :
      configured (Lines.join '\n' lines (line ++ tail)) (lines.length + (n + 1)) =
        (rounds CfgParser.step n
          (.inner (afterLine tail) head line (mapInsert mpVal (key, val)) cfgs)).map
            CfgParser.collected := by
    rw [configured, rounds_add, hrun, Option.bind_some, rounds_succ_of_step (h.step_tail htail)]
  constructor
  · intro hsame
    have hnext := hsame (lines.length + (0 + 1))
    rw [hbehind h, hbehind h', rounds, rounds, Option.map_some, Option.map_some, Option.some_inj] at hnext
    simp only [CfgParser.collected, List.append_cancel_left_eq, List.cons.injEq, Prod.mk.injEq,
      true_and, and_true] at hnext
    exact mapInsert_eq_iff.mp hnext
  · intro hval n
    by_cases hn : n ≤ lines.length
    · exact configured_lines hlines hn _ _
    · obtain ⟨k, rfl⟩ : ∃ k, n = lines.length + (k + 1) := ⟨n - lines.length - 1, by omega⟩
      have hstored := h'.stored mpVal
      rw [hbehind h, hbehind h']
      rw [mapInsert_eq_iff.mpr hval] at hstored ⊢
      refine map_rounds_eq Alike (fun _ _ => Alike.collected) (fun _ _ => Alike.step) ?_ k
      rcases htail with rfl | ⟨rest, rfl⟩
      · exact .stuck head line' line _ cfgs rfl hstored (h.stored mpVal)
      · exact .reading rest head line' line _ cfgs

end Lockstep

-- A comment leaves the configuration as it is exactly if a space stands before its '#', it has no
-- space itself, or the section has the key already. Positions in a line are ints.
theorem comment_kept_iff {lines : List (List Char)} {key value comment tail : List Char} {spaces : Nat}
    (hlines : ∀ line ∈ lines, '\n' ∉ line) (hsection : lines.foldl inSection false = true)
    (hkey : Word key) (hvalue : Word value) (hcomment : '\n' ∉ comment)
    (htail : tail = [] ∨ ∃ rest, tail = '\n' :: rest)
    (hfits : (commentedLine key value spaces comment).length ≤ 2147483647) :
    ∃ head mpVal cfgs,
      configured (Lines.join '\n' lines (bareLine key value ++ tail)) lines.length =
        some (cfgs ++ [(head, mpVal)]) ∧
      configured (Lines.join '\n' lines (bareLine key value ++ tail)) (lines.length + 1) =
        some (cfgs ++ [(head, mapInsert mpVal (key, value))]) ∧
      ((∀ n, configured (Lines.join '\n' lines (commentedLine key value spaces comment ++ tail)) n =
          configured (Lines.join '\n' lines (bareLine key value ++ tail)) n) ↔
        0 < spaces ∨ ' ' ∉ comment ∨ ∃ w, (key, w) ∈ mpVal) := by
  obtain ⟨q, hq, hrun⟩ := rounds_lines hlines (show Standing { rest := [] } false _ from .outer [])
  rw [hsection] at hq
  cases hq with
  | inner head temp mpVal cfgs =>
      have hbare := entry_bareLine hkey hvalue (by
        rw [commentedLine, List.length_append] at hfits
        omega)
      obtain ⟨val, hentry, hval⟩ := entry_commentedLine hkey hvalue hcomment hfits
      have hrun' : ∀ rest, rounds CfgParser.step lines.length
          (parserBasicCfg (Lines.join '\n' lines rest)) =
            some (.inner { rest := rest } head temp mpVal cfgs) := hrun
      refine ⟨head, mpVal, cfgs, ?_, ?_, ?_⟩
      · rw [configured, hrun']
        rfl
      · rw [configured, rounds_add, hrun', Option.bind_some,
          rounds_succ_of_step (hbare.step_tail htail)]
        rfl
      · rw [configured_eq_iff hbare hentry htail hrun' hlines, hval, or_assoc]

theorem comment_kept_iff_fservo :
    ∃ head mpVal cfgs,
      configured "[fpga_cfg]\noutput_wait_time=3000\n".toList 1 = some (cfgs ++ [(head, mpVal)]) ∧
      configured "[fpga_cfg]\noutput_wait_time=3000\n".toList 2 =
        some (cfgs ++ [(head, mapInsert mpVal ("output_wait_time".toList, "3000".toList))]) ∧
      ((∀ n, configured "[fpga_cfg]\noutput_wait_time=3000 # in us\n".toList n =
          configured "[fpga_cfg]\noutput_wait_time=3000\n".toList n) ↔
        0 < 1 ∨ ' ' ∉ " in us".toList ∨ ∃ w, ("output_wait_time".toList, w) ∈ mpVal) := by
  have hlines : ∀ line ∈ ["[fpga_cfg]".toList], '\n' ∉ line := by decide
  have hkey : Word "output_wait_time".toList := ⟨by decide, by decide, by decide, by decide, by decide⟩
  have hvalue : Word "3000".toList := ⟨by decide, by decide, by decide, by decide, by decide⟩
  have hcomment : '\n' ∉ " in us".toList := by decide
  have htail : "\n".toList = [] ∨ ∃ rest, "\n".toList = '\n' :: rest := .inr ⟨[], rfl⟩
  have hfits : (commentedLine "output_wait_time".toList "3000".toList 1 " in us".toList).length ≤ 2147483647 := by
    decide
  have h := comment_kept_iff hlines rfl hkey hvalue hcomment htail hfits
  exact h

-- The comment has a space and the value has none before its '#'.
theorem comment_enters_value :
    configured "[fpga_cfg]\nkey_file_path=./cfg/key\n".toList 2 =
        some [("fpga_cfg".toList, [("key_file_path".toList, "./cfg/key".toList)])] ∧
      configured "[fpga_cfg]\nkey_file_path=./cfg/key#of the model\n".toList 2 =
        some [("fpga_cfg".toList, [("key_file_path".toList, "./cfg/key#of".toList)])] ∧
      ¬ ∀ n, configured "[fpga_cfg]\nkey_file_path=./cfg/key#of the model\n".toList n =
        configured "[fpga_cfg]\nkey_file_path=./cfg/key\n".toList n := by
  refine ⟨by decide +kernel, by decide +kernel, ?_⟩
  intro h
  have hread := h 2
  revert hread
  decide +kernel

end Vcu
