namespace Vcu

-- memcpy(dst + pos, src, n) for the range `src` of n bytes. A write that would leave the
-- buffer has no defined result.
def memcpy (dst : List UInt8) (pos : Nat) (src : List UInt8) : Option (List UInt8) :=
  if pos + src.length ≤ dst.length then
    some (dst.take pos ++ src ++ dst.drop (pos + src.length))
  else none

-- The bytes that strlen counts.
def cString (str : List UInt8) : List UInt8 := str.takeWhile fun c => c ≠ 0

theorem cString_of_notMem {t : List UInt8} (hnul : (0 : UInt8) ∉ t) (rest : List UInt8) :
    cString (t ++ 0 :: rest) = t := by
  rw [cString, List.takeWhile_append_of_pos, List.takeWhile_cons_of_neg, List.append_nil]
  · simp
  · intro c hc
    simp only [ne_eq, decide_not, Bool.not_eq_eq_eq_not, Bool.not_true, decide_eq_false_iff_not]
    rintro rfl
    exact hnul hc

theorem of_bind_ok {ε α β : Type} {x : Except ε α} {f : α → Except ε β} {b : β}
    (h : (x >>= f) = .ok b) : ∃ a, x = .ok a ∧ f a = .ok b := by
  cases x with
  | error e => cases h
  | ok a => exact ⟨a, rfl, h⟩

-- A std::string is the list of its characters, and npos is `none`.
namespace StdString

def find : List Char → List Char → Option Nat
  | [], pat => if pat.isEmpty then some 0 else none
  | c :: s, pat => if pat.isPrefixOf (c :: s) then some 0 else (find s pat).map (· + 1)

def substr (s : List Char) (pos count : Nat) : List Char := (s.drop pos).take count

def findFirstOf (s delims : List Char) (pos : Option Nat) : Option Nat :=
  pos.bind fun p => ((s.drop p).findIdx? fun c => delims.contains c).map (p + ·)

def findFirstNotOf (s delims : List Char) (pos : Option Nat) : Option Nat :=
  pos.bind fun p => ((s.drop p).findIdx? fun c => !delims.contains c).map (p + ·)

def isspace (c : Char) : Bool :=
  c = ' ' || c = '\t' || c = '\n' || c = '\r' || c.toNat = 11 || c.toNat = 12

-- A number that does not fit an int is not cut here.
def atoi (s : List Char) : Int :=
  let digits (l : List Char) : Int :=
    (l.takeWhile fun c => '0' ≤ c && c ≤ '9').foldl (fun n c => 10 * n + (c.toNat - 48 : Nat)) 0
  match s.dropWhile isspace with
  | [] => 0
  | c :: rest =>
      if c = '-' then -digits rest else if c = '+' then digits rest else digits (c :: rest)

end StdString

open StdString

-- The loop ends when both positions are npos, and the second one is npos when the first one is.
-- Each round finds a token that is not empty, so the rounds that `fuel` allows are enough.
def splitLoop (s delims : List Char) : Nat → Option Nat → Option Nat → List (List Char)
  | 0, _, _ => []
  | fuel + 1, beginPos, endPos =>
      match beginPos with
      | none => []
      | some b =>
          let token :=
            match endPos with
            | some e => substr s b (e - b)
            | none => s.drop b
          let beginPos := findFirstNotOf s delims endPos
          token :: splitLoop s delims fuel beginPos (findFirstOf s delims beginPos)

def splitString (s delims : List Char) : List (List Char) :=
  let beginPos := findFirstNotOf s delims (some 0)
  splitLoop s delims (s.length + 1) beginPos (findFirstOf s delims beginPos)

end Vcu
