import Std.Data.ExtTreeMap
import Vcu.Common.Positions
import Vcu.FileManager

namespace Vcu

open StdString

-- A std::map whose keys are strings.
abbrev StdMap (α : Type) : Type := Std.ExtTreeMap (List Char) α compare

abbrev NetData : Type := StdMap (StdMap (List Char))

-- Each round of the loop takes out the first space.
def rmStrSpace (str : List Char) : List Char :=
  match _h : findFirstOf str [' '] (some 0) with
  | some pos => rmStrSpace (str.eraseIdx pos)
  | none => str
termination_by str.length
decreasing_by
  have hlt := findFirstOf_lt _h
  rw [List.length_eraseIdx_of_lt hlt]
  omega

-- mpNetData[key][str1] = str2. An entry that is not there is made.
def NetData.assign (mpNetData : NetData) (key str1 str2 : List Char) : NetData :=
  mpNetData.alter key fun m => some ((m.getD ∅).insert str1 str2)

-- The count of the substr is npos - 1 where there is no bracket.
def headerKey (strLine : List Char) : List Char :=
  match findFirstOf strLine [']'] (some 0) with
  | some pos => substr strLine 1 (pos - 1)
  | none => strLine.drop 1

def cutComment (strLine : List Char) : List Char :=
  match findFirstOf strLine ['#'] (some 0) with
  | some pos => substr strLine 0 pos
  | none => strLine

-- Where there is no '=', posMid + 1 is zero and both parts are the whole line.
def splitLine (strLine : List Char) : List Char × List Char :=
  match findFirstOf strLine ['='] (some 0) with
  | some posMid =>
      (substr strLine 0 posMid, substr strLine (posMid + 1) (strLine.length - posMid - 1))
  | none => (strLine, strLine)

-- What parserNetCfg does with a line that it has read. No substr of it can throw.
def readLine (key : List Char) (mpNetData : NetData) (strLine : List Char) : List Char × NetData :=
  if strLine = [] then (key, mpNetData)
  else
    let strLine := rmStrSpace strLine
    if strLine = [] then (key, mpNetData)
    else if strLine.head? = some '#' then (key, mpNetData)
    else if strLine.head? = some '[' then (headerKey strLine, mpNetData)
    else
      let (str1, str2) := splitLine (cutComment strLine)
      (key, mpNetData.assign key str1 str2)

-- `key` is static: a call starts with what the call before it has left.
structure NetCfgParser where
  stream : IfStream
  key : List Char
  mpNetData : NetData

def NetCfgParser.step (p : NetCfgParser) : Option NetCfgParser :=
  if p.stream.eof || p.stream.fail then none
  else
    let (stream, strLine) := getline p.stream []
    let (key, mpNetData) := readLine p.key p.mpNetData strLine
    some { stream := stream, key := key, mpNetData := mpNetData }

-- The loop on a file that could be opened. To insert an empty buffer into the string stream
-- makes it fail.
def parserNetCfg (content key : List Char) (mpNetData : NetData) : NetCfgParser :=
  { stream := { rest := content, fail := content.isEmpty }, key := key, mpNetData := mpNetData }

end Vcu
