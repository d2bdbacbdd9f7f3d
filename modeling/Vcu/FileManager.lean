import Vcu.Common

namespace Vcu

-- An open input file stream.
structure IfStream where
  rest : List Char
  eof : Bool := false
  fail : Bool := false
  deriving DecidableEq

-- std::getline on a stream that is not good leaves the string alone. Nothing to extract is a
-- failure too, but it clears the string.
def getline (s : IfStream) (str : List Char) : IfStream × List Char :=
  if s.eof || s.fail then ({ s with fail := true }, str)
  else
    let line := s.rest.takeWhile fun c => c ≠ '\n'
    match s.rest.dropWhile fun c => c ≠ '\n' with
    | [] => ({ rest := [], eof := true, fail := line.isEmpty }, line)
    | _ :: rest => ({ s with rest := rest }, line)

namespace StdString

def findLastOf (s delims : List Char) : Option Nat :=
  (s.reverse.findIdx? fun c => delims.contains c).map (s.length - 1 - ·)

-- A position as an int. Positions stay below the largest int.
def intPos : Option Nat → Int
  | some pos => pos
  | none => -1

-- A number as a size_t.
def sizeT (n : Int) : Nat := (n % 18446744073709551616).toNat

-- substr throws out_of_range for a position behind the end.
def substrAt (s : List Char) (pos count : Nat) : Option (List Char) :=
  if pos > s.length then none else some (substr s pos count)

end StdString

open StdString

-- std::map::insert keeps the value of a key that is there.
def mapInsert (m : List (List Char × List Char)) (p : List Char × List Char) :
    List (List Char × List Char) :=
  if m.any fun q => q.1 = p.1 then m else m ++ [p]

-- The key and the value of a line, or none for an exception.
def lineEntry (temp : List Char) : Option (List Char × List Char) := do
  let pos := intPos (find temp ['='])
  let pos2 := intPos (find temp ['#'])
  let postemp := intPos (findFirstOf temp [' '] (some 0))
  let len : Int :=
    if pos2 ≠ -1 then if postemp ≠ -1 then pos2 - (pos2 - postemp) else pos2 else temp.length
  let key ← substrAt temp 0 (sizeT pos)
  let val ← substrAt temp (sizeT (pos + 1)) (sizeT (len - pos - 1))
  pure (key, val)

def headName (lineStr : List Char) : Option (List Char) :=
  substrAt lineStr 1 (sizeT (intPos (findLastOf lineStr [']']) - 1))

-- Where parserBasicCfg stands: at the head of its outer loop, before a getline of the inner one,
-- or out of the program. The calls of Common::setCfg are a history.
inductive CfgParser where
  | outer (stream : IfStream) (cfgs : List (List Char × List (List Char × List Char)))
  | inner (stream : IfStream) (head temp : List Char) (mpVal : List (List Char × List Char))
      (cfgs : List (List Char × List (List Char × List Char)))
  | exited
  deriving DecidableEq

-- A round makes one call of getline.
def CfgParser.step : CfgParser → Option CfgParser
  | .outer stream cfgs =>
      if stream.eof || stream.fail then none
      else
        let (stream, lineStr) := getline stream []
        if lineStr = [] then some (.outer stream cfgs)
        else if lineStr.head? = some '[' then
          match headName lineStr with
          | some head => some (.inner stream head [] [] cfgs)
          | none => some .exited
        else some (.outer stream cfgs)
  | .inner stream head temp mpVal cfgs =>
      let (stream, temp) := getline stream temp
      if temp = [] then some (.outer stream (cfgs ++ [(head, mpVal)]))
      else if temp.head? = some '#' then some (.inner stream head temp mpVal cfgs)
      else
        match lineEntry temp with
        | some p => some (.inner stream head temp (mapInsert mpVal p) cfgs)
        | none => some .exited
  | .exited => none

-- The loops of parserBasicCfg on a file that could be opened.
def parserBasicCfg (content : List Char) : CfgParser := .outer { rest := content } []

end Vcu
