import Mathlib.Data.List.Basic

-- Messages of lines. Two elements, `cr` and `lf`, end a line, and an empty line ends a message.
namespace Messages

variable {α : Type*} [DecidableEq α] {cr lf quote : α}

-- The text before the end of the first line, and the text behind it. Neither element may stand alone.
def readLine (cr lf : α) : List α → Option (List α × List α)
  | [] => none
  | c :: s =>
      if c = cr then
        if s.head? = some lf then some ([], s.tail) else none
      else if c = lf then none
      else (readLine cr lf s).map fun p => (c :: p.1, p.2)

def readLines (cr lf : α) : Nat → List α → Option (List (List α) × List α)
  | 0, _ => none
  | fuel + 1, s => do
      let (line, rest) ← readLine cr lf s
      if line = [] then some ([], rest)
      else do
        let (lines, rest) ← readLines cr lf fuel rest
        some (line :: lines, rest)

def readMessages (cr lf : α) : Nat → List α → Option (List (List (List α)))
  | _, [] => some []
  | 0, _ :: _ => none
  | fuel + 1, c :: s => do
      let (lines, rest) ← readLines cr lf (s.length + 1) (c :: s)
      let messages ← readMessages cr lf fuel rest
      some (lines :: messages)

-- All of a stream, as messages.
def read (cr lf : α) (s : List α) : Option (List (List (List α))) := readMessages cr lf s.length s

omit [DecidableEq α] in
def writeLine (cr lf : α) (line : List α) : List α := line ++ [cr, lf]

omit [DecidableEq α] in
def writeMessage (cr lf : α) (lines : List (List α)) : List α :=
  lines.flatMap (writeLine cr lf) ++ [cr, lf]

-- A text that stays on its line.
def OneLine (cr lf : α) (s : List α) : Prop := cr ∉ s ∧ lf ∉ s

instance (cr lf : α) (s : List α) : Decidable (OneLine cr lf s) :=
  inferInstanceAs (Decidable (cr ∉ s ∧ lf ∉ s))

section Lines

variable {s t line : List α} {lines : List (List α)}

omit [DecidableEq α] in
theorem OneLine.append (hs : OneLine cr lf s) (ht : OneLine cr lf t) : OneLine cr lf (s ++ t) := by
  refine ⟨fun h => ?_, fun h => ?_⟩
  · exact (List.mem_append.mp h).elim hs.1 ht.1
  · exact (List.mem_append.mp h).elim hs.2 ht.2

omit [DecidableEq α] in
theorem OneLine.sublist (hs : OneLine cr lf s) (h : t.Sublist s) : OneLine cr lf t :=
  ⟨fun hc => hs.1 (h.mem hc), fun hc => hs.2 (h.mem hc)⟩

theorem readLine_write (hline : OneLine cr lf line) (rest : List α) :
    readLine cr lf (writeLine cr lf line ++ rest) = some (line, rest) := by
  induction line with
  | nil => simp [writeLine, readLine]
  | cons c line ih =>
      obtain ⟨hcr, hlf⟩ := hline
      obtain ⟨hccr, hcr⟩ := not_or.mp (mt List.mem_cons.mpr hcr)
      obtain ⟨hclf, hlf⟩ := not_or.mp (mt List.mem_cons.mpr hlf)
      have hrest := ih ⟨hcr, hlf⟩
      rw [writeLine] at hrest
      rw [writeLine, List.cons_append, List.cons_append, readLine, if_neg (Ne.symm hccr),
        if_neg (Ne.symm hclf), hrest, Option.map_some]

theorem readLines_write (hlines : ∀ line ∈ lines, OneLine cr lf line ∧ line ≠ []) (rest : List α)
    {fuel : Nat} (hfuel : lines.length < fuel) :
    readLines cr lf fuel (writeMessage cr lf lines ++ rest) = some (lines, rest) := by
  induction lines generalizing fuel with
  | nil =>
      obtain ⟨fuel, rfl⟩ := Nat.exists_eq_succ_of_ne_zero (Nat.ne_of_gt hfuel)
      have hempty : readLine cr lf ([cr, lf] ++ rest) = some ([], rest) :=
        readLine_write ⟨List.not_mem_nil, List.not_mem_nil⟩ rest
      rw [writeMessage, List.flatMap_nil, List.nil_append, readLines, hempty, Option.bind_eq_bind,
        Option.bind_some]
      exact if_pos rfl
  | cons line lines ih =>
      obtain ⟨fuel, rfl⟩ := Nat.exists_eq_succ_of_ne_zero (Nat.ne_of_gt (Nat.zero_lt_of_lt hfuel))
      obtain ⟨hline, hne⟩ := hlines line List.mem_cons_self
      have hrest := ih (fun l hl => hlines l (List.mem_cons_of_mem line hl)) (Nat.lt_of_succ_lt_succ hfuel)
      rw [writeMessage] at hrest
      rw [writeMessage, List.flatMap_cons, List.append_assoc, List.append_assoc, readLines,
        readLine_write hline, ← List.append_assoc, Option.bind_eq_bind, Option.bind_some]
      dsimp only
      rw [if_neg hne, hrest]
      rfl

omit [DecidableEq α] in
theorem length_le_writeMessage (cr lf : α) (lines : List (List α)) :
    lines.length + 2 ≤ (writeMessage cr lf lines).length := by
  induction lines with
  | nil => simp [writeMessage]
  | cons line lines ih =>
      rw [writeMessage, List.length_append] at ih
      rw [writeMessage, List.flatMap_cons, List.append_assoc, List.length_append, List.length_append,
        writeLine, List.length_append, List.length_cons]
      simp only [List.length_cons, List.length_nil] at ih ⊢
      omega

-- A stream of such messages is read as these messages.
theorem read_write {messages : List (List (List α))}
    (hmessages : ∀ lines ∈ messages, ∀ line ∈ lines, OneLine cr lf line ∧ line ≠ []) :
    read cr lf (messages.flatMap (writeMessage cr lf)) = some messages := by
  have hfuel : ∀ fuel, messages.length ≤ fuel →
      readMessages cr lf fuel (messages.flatMap (writeMessage cr lf)) = some messages := by
    induction messages with
    | nil =>
        intro fuel _
        cases fuel with
        | zero => rfl
        | succ fuel => rfl
    | cons lines messages ih =>
        intro fuel hle
        obtain ⟨fuel, rfl⟩ := Nat.exists_eq_succ_of_ne_zero (Nat.ne_of_gt (Nat.zero_lt_of_lt hle))
        have hlen := length_le_writeMessage cr lf lines
        rw [List.flatMap_cons]
        cases htext : writeMessage cr lf lines ++ messages.flatMap (writeMessage cr lf) with
        | nil =>
            have := congrArg List.length htext
            rw [List.length_append, List.length_nil] at this
            omega
        | cons c s =>
            have htotal := congrArg List.length htext
            rw [List.length_append, List.length_cons] at htotal
            have hread : readLines cr lf (s.length + 1) (c :: s) =
                some (lines, messages.flatMap (writeMessage cr lf)) := by
              rw [← htext]
              exact readLines_write (hmessages lines List.mem_cons_self) _ (by omega)
            rw [readMessages, hread, Option.bind_eq_bind, Option.bind_some]
            dsimp only
            rw [ih (fun l hl => hmessages l (List.mem_cons_of_mem lines hl)) fuel
              (Nat.le_of_succ_le_succ hle)]
            rfl
  refine hfuel _ ?_
  clear hfuel hmessages
  induction messages with
  | nil => exact Nat.zero_le _
  | cons lines messages ih =>
      have hlen := length_le_writeMessage cr lf lines
      rw [List.flatMap_cons, List.length_append, List.length_cons]
      omega

end Lines

-- Values in quotes, each behind its own key.
def readFields (quote : α) : List (List α) → List α → Option (List (List α))
  | [], s => if s = [] then some [] else none
  | key :: keys, s => do
      let s ← s.dropPrefix? key
      match s.dropWhile fun c => c ≠ quote with
      | [] => none
      | _ :: rest => (readFields quote keys rest).map ((s.takeWhile fun c => c ≠ quote) :: ·)

omit [DecidableEq α] in
def writeFields (quote : α) (fields : List (List α × List α)) : List α :=
  fields.flatMap fun field => field.1 ++ field.2 ++ [quote]

theorem readFields_write {fields : List (List α × List α)} (hfields : ∀ field ∈ fields, quote ∉ field.2) :
    readFields quote (fields.map Prod.fst) (writeFields quote fields) = some (fields.map Prod.snd) := by
  induction fields with
  | nil => rfl
  | cons field fields ih =>
      obtain ⟨key, value⟩ := field
      have hvalue : ∀ c ∈ value, (decide (c ≠ quote)) = true := by
        intro c hc
        refine decide_eq_true fun h => hfields (key, value) List.mem_cons_self ?_
        rw [← h]
        exact hc
      have hrest := ih fun f hf => hfields f (List.mem_cons_of_mem _ hf)
      have hkey : (writeFields quote ((key, value) :: fields)).dropPrefix? key =
          some (value ++ quote :: writeFields quote fields) := by
        rw [List.dropPrefix?_eq_some_iff]
        refine ⟨key, ?_, beq_self_eq_true key⟩
        simp [writeFields]
      rw [List.map_cons, readFields, hkey, Option.bind_eq_bind, Option.bind_some,
        List.dropWhile_append_of_pos hvalue, List.takeWhile_append_of_pos hvalue,
        List.dropWhile_cons_of_neg (by simp), List.takeWhile_cons_of_neg (by simp), List.append_nil]
      dsimp only
      rw [hrest, Option.map_some, List.map_cons]

end Messages
