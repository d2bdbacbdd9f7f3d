import Vcu.Common.Numbers
import Vcu.Common.Splitting
import Vcu.FileManager
import Vcu.Lib.Loop

namespace Vcu

open Loop Runs StdString

namespace StdString

def npos : Nat := 18446744073709551615

-- A position as a size_t.
def position (pos : Option Nat) : Nat := pos.getD npos

@[simp] theorem position_none : position none = npos := rfl

@[simp] theorem position_some (pos : Nat) : position (some pos) = pos := rfl

end StdString

-- A call of one of the three functions at the test of its loop, or after a substr that threw.
inductive SplitState where
  | searching (vecStr : List (List Char)) (beginPos endPos : Nat)
  | thrown

-- The two searches that stand before the loop and at the end of its body.
def searchFrom (str splitStr : List Char) (vecStr : List (List Char)) (pos : Nat) : SplitState :=
  let beginPos := position (findFirstNotOf str splitStr (some pos))
  let endPos := position (findFirstOf str splitStr (some beginPos))
  .searching vecStr beginPos endPos

def splitRound (str splitStr : List Char) : SplitState → Option SplitState
  | .thrown => none
  | .searching vecStr beginPos endPos =>
      if npos ≠ endPos ∨ npos ≠ beginPos then
        match substrAt str beginPos (sizeT ((endPos : Int) - beginPos)) with
        | none => some .thrown
        | some token => some (searchFrom str splitStr (vecStr ++ [token]) endPos)
      else none

-- The call ends and returns vecStr.
def SplitReturns (str splitStr : List Char) (vecStr : List (List Char)) : Prop :=
  ∃ beginPos endPos,
    Exits (splitRound str splitStr) (searchFrom str splitStr [] 0) (.searching vecStr beginPos endPos)

-- string_split, and split_string with a character and with a C string.
def stringSplit (splitStr : Char) (str : List Char) : List (List Char) → Prop := SplitReturns str [splitStr]

def splitStringChar (splitStr : Char) (str : List Char) : List (List Char) → Prop :=
  SplitReturns str [splitStr]

def splitStringSet (splitStr str : List Char) : List (List Char) → Prop := SplitReturns str (cStr splitStr)

section Rounds

variable {str splitStr : List Char} {vecStr : List (List Char)}

theorem splitRound_over : splitRound str splitStr (.searching vecStr npos npos) = none := by
  rw [splitRound, if_neg (by simp)]

-- A search from npos finds nothing.
theorem drop_npos (hstr : str.length < npos) : str.drop npos = [] :=
  List.drop_eq_nil_of_le (Nat.le_of_lt hstr)

theorem searchFrom_of_none (hstr : str.length < npos) {pos : Nat}
    (h : findFirstNotOf str splitStr (some pos) = none) :
    searchFrom str splitStr vecStr pos = .searching vecStr npos npos := by
  have hend : findFirstOf str splitStr (some npos) = none := by
    rw [findFirstOf, Option.bind_some, drop_npos hstr]
    rfl
  simp only [searchFrom, h, position_none, hend]

theorem searchFrom_npos (hstr : str.length < npos) :
    searchFrom str splitStr vecStr npos = .searching vecStr npos npos := by
  refine searchFrom_of_none hstr ?_
  rw [findFirstNotOf, Option.bind_some, drop_npos hstr]
  rfl

theorem searchFrom_of_some {pos beginPos : Nat}
    (h : findFirstNotOf str splitStr (some pos) = some beginPos) :
    searchFrom str splitStr vecStr pos =
      .searching vecStr beginPos (position (findFirstOf str splitStr (some beginPos))) := by
  simp only [searchFrom, h, position_some]

theorem splitRound_token {beginPos endPos : Nat} {token : List Char} (hne : npos ≠ beginPos)
    (htoken : substrAt str beginPos (sizeT ((endPos : Int) - beginPos)) = some token) :
    splitRound str splitStr (.searching vecStr beginPos endPos) =
      some (searchFrom str splitStr (vecStr ++ [token]) endPos) := by
  rw [splitRound, if_pos (.inr hne), htoken]

theorem substrAt_run (a r b : List Char) (hlen : (a ++ (r ++ b)).length < npos) :
    substrAt (a ++ (r ++ b)) a.length (sizeT (((a ++ r).length : Int) - a.length)) = some r := by
  have hle : ¬ a.length > (a ++ (r ++ b)).length := by
    rw [List.length_append]
    omega
  have hcount : sizeT (((a ++ r).length : Int) - a.length) = r.length := by
    simp only [List.length_append, npos] at hlen
    rw [sizeT, List.length_append]
    omega
  rw [substrAt, if_neg hle, hcount, substr, List.drop_left, List.take_left]

-- The last token has the length npos - beginPos, and substr cuts it.
theorem substrAt_last (a r : List Char) (hlen : (a ++ r).length < npos) :
    substrAt (a ++ r) a.length (sizeT ((npos : Int) - a.length)) = some r := by
  have hle : ¬ a.length > (a ++ r).length := by
    rw [List.length_append]
    omega
  have hcount : r.length ≤ sizeT ((npos : Int) - a.length) := by
    simp only [List.length_append, npos] at hlen ⊢
    rw [sizeT]
    omega
  rw [substrAt, if_neg hle, substr, List.drop_left, List.take_of_length_le hcount]

-- The rounds from a position put the runs of what is left behind the tokens so far.
theorem splitRound_exits (n : Nat) (vecStr : List (List Char)) (a b : List Char) (hn : b.length ≤ n)
    (hlen : (a ++ b).length < npos) :
    Exits (splitRound (a ++ b) splitStr) (searchFrom (a ++ b) splitStr vecStr a.length)
      (.searching (vecStr ++ runs (fun c => splitStr.contains c) b) npos npos) := by
  induction n generalizing vecStr a b with
  | zero =>
      obtain rfl : b = [] := List.eq_nil_of_length_eq_zero (Nat.le_zero.mp hn)
      have hnone : findFirstNotOf (a ++ []) splitStr (some a.length) = none :=
        findFirstNotOf_all (fun _ hx => absurd hx List.not_mem_nil) a
      rw [searchFrom_of_none hlen hnone, runs_nil, List.append_nil, List.append_nil]
      exact .of_none splitRound_over
  | succ n ih =>
      rcases first_run (fun c => splitStr.contains c) b with hb | ⟨d, r, b, rfl, hd, hne, hr, hend⟩
      · rw [searchFrom_of_none hlen (findFirstNotOf_all hb a), runs_of_all hb, List.append_nil]
        exact .of_none splitRound_over
      have hlt := List.length_pos_iff.mpr hne
      have hlength : (a ++ (d ++ (r ++ b))).length = (a ++ d).length + (r.length + b.length) := by
        simp only [List.length_append]
        omega
      have hbegin : npos ≠ (a ++ d).length := by omega
      rw [searchFrom_of_some (findFirstNotOf_run hd hne hr b), runs_all hd, ← List.append_assoc]
      rw [← List.append_assoc] at hlen
      -- The token ends with the string or at the next delimiter.
      rcases hend with rfl | ⟨c, t, rfl, hc⟩
      · rw [List.append_nil] at hlen ⊢
        rw [findFirstOf_end hr, position_none, runs_none hr hne]
        refine .of_step (splitRound_token hbegin (substrAt_last (a ++ d) r hlen)) ?_
        rw [searchFrom_npos hlen]
        exact .of_none splitRound_over
      · rw [findFirstOf_run hr hc, position_some, runs_append_cons hc, runs_none hr hne, ← runs_cons hc t,
          ← List.append_assoc vecStr]
        refine .of_step (splitRound_token hbegin (substrAt_run (a ++ d) r (c :: t) hlen)) ?_
        simp only [List.length_append, List.length_cons] at hn
        have hnext := ih (vecStr ++ [r]) (a ++ d ++ r) (c :: t) (by rw [List.length_cons]; omega)
          (by rwa [List.append_assoc])
        rw [List.append_assoc (a ++ d)] at hnext
        exact hnext

theorem splitReturns_iff (hstr : str.length < npos) (vecStr : List (List Char)) :
    SplitReturns str splitStr vecStr ↔ vecStr = runs (fun c => splitStr.contains c) str := by
  have hexits : Exits (splitRound str splitStr) (searchFrom str splitStr [] 0)
      (.searching (runs (fun c => splitStr.contains c) str) npos npos) :=
    splitRound_exits str.length [] [] str (Nat.le_refl _) hstr
  constructor
  · rintro ⟨beginPos, endPos, h⟩
    obtain ⟨hvec, -, -⟩ := SplitState.searching.inj (h.unique hexits)
    exact hvec
  · rintro rfl
    exact ⟨npos, npos, hexits⟩

theorem splitReturns_splitString (hstr : str.length < npos) :
    SplitReturns str splitStr (splitString str splitStr) :=
  (splitReturns_iff hstr _).mpr (splitString_eq_runs str splitStr)

end Rounds

-- What a function that splits at the delimiters `delims` is to return. No string is as long as npos.
structure Splits (delims : List Char) (returns : List Char → List (List Char) → Prop) : Prop where
  runs : ∀ str, str.length < npos → ∃ spans : List (Nat × Nat),
    (∀ b e, (b, e) ∈ spans ↔ MaximalRun (fun c => delims.contains c) str b e) ∧
      spans.Pairwise (fun x y => x.2 < y.1) ∧
      ∀ vecStr, returns str vecStr ↔ vecStr = spans.map fun x => substr str x.1 (x.2 - x.1)
  nonempty : ∀ str vecStr, str.length < npos → returns str vecStr → [] ∉ vecStr
  ends : ∀ before str after vecStr, (before ++ str ++ after).length < npos →
    (∀ c ∈ before ++ after, c ∈ delims) → (returns (before ++ str ++ after) vecStr ↔ returns str vecStr)
  between : ∀ left c more right vecStr, (left ++ c :: (more ++ right)).length < npos →
    (∀ x ∈ c :: more, x ∈ delims) →
      (returns (left ++ c :: (more ++ right)) vecStr ↔ returns (left ++ c :: right) vecStr)

theorem splits_splitReturns (delims : List Char) : Splits delims fun str => SplitReturns str delims where
  runs := by
    intro str hstr
    obtain ⟨spans, hspans⟩ := exists_spans (fun c => delims.contains c) str
    refine ⟨spans, hspans.mem_iff, hspans.ordered, fun vecStr => ?_⟩
    rw [splitReturns_iff hstr, hspans.runs_eq]
    rfl
  nonempty := by
    intro str vecStr hstr hreturns hmem
    rw [(splitReturns_iff hstr vecStr).mp hreturns] at hmem
    exact (of_mem_runs hmem).2.1 rfl
  ends := by
    intro before str after vecStr hlen hdelims
    have hstr : str.length < npos := by
      simp only [List.length_append] at hlen
      omega
    have hbefore : ∀ c ∈ before, delims.contains c = true := fun c hc =>
      List.contains_iff_mem.mpr (hdelims c (List.mem_append_left _ hc))
    have hafter : ∀ c ∈ after, delims.contains c = true := fun c hc =>
      List.contains_iff_mem.mpr (hdelims c (List.mem_append_right _ hc))
    rw [splitReturns_iff hlen, splitReturns_iff hstr, runs_all_right hafter, runs_all hbefore]
  between := by
    intro left c more right vecStr hlen hdelims
    have hshort : (left ++ c :: right).length < npos := by
      simp only [List.length_append, List.length_cons] at hlen ⊢
      omega
    have hc : delims.contains c = true := List.contains_iff_mem.mpr (hdelims c List.mem_cons_self)
    have hmore : ∀ x ∈ more, delims.contains x = true := fun x hx =>
      List.contains_iff_mem.mpr (hdelims x (List.mem_cons_of_mem c hx))
    rw [splitReturns_iff hlen, splitReturns_iff hshort, runs_append_cons hc, runs_append_cons hc,
      runs_all hmore]

-- All three functions return the maximal runs between their delimiters.
theorem split_functions (splitStr : Char) (splitSet : List Char) :
    Splits [splitStr] (stringSplit splitStr) ∧ Splits [splitStr] (splitStringChar splitStr) ∧
      Splits (cStr splitSet) (splitStringSet splitSet) :=
  ⟨splits_splitReturns [splitStr], splits_splitReturns [splitStr], splits_splitReturns (cStr splitSet)⟩

-- A comma at the front, and two where one would do.
theorem split_functions_commas :
    (∃ vecStr, stringSplit ',' [',', 'a', ',', ',', 'b'] vecStr ∧ [] ∉ vecStr) ∧
      ∀ vecStr,
        stringSplit ',' [',', 'a', ',', ',', 'b'] vecStr ↔ stringSplit ',' ['a', ',', 'b'] vecStr := by
  have hsplits := (split_functions ',' []).1
  have hlen : [',', 'a', ',', ',', 'b'].length < npos := by decide
  obtain ⟨spans, -, -, hreturns⟩ := hsplits.runs [',', 'a', ',', ',', 'b'] hlen
  refine ⟨⟨_, (hreturns _).mpr rfl, hsplits.nonempty _ _ hlen ((hreturns _).mpr rfl)⟩, fun vecStr => ?_⟩
  have hends := hsplits.ends [','] ['a', ',', ',', 'b'] [] vecStr (by decide) (by simp)
  have hbetween := hsplits.between ['a'] ',' [','] ['b'] vecStr (by decide) (by simp)
  exact hends.trans hbetween

end Vcu
