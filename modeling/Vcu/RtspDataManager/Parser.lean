import Vcu.Common
import Vcu.Rtp.Model

namespace Vcu

open StdString

-- The variables of the file and of the object that a response may set. `isfirst`, `isfirst2` and
-- `onlyVideo` are the static locals of parser.
structure RtspGlobals where
  needCertify : Bool := false
  REALM : List Char := []
  NONECE : List Char := []
  SESSION : List Char := []
  TRACK : List Char := []
  RTCP_SERVER_PORT : Int := 0
  TYPE : CodecType := .H264
  isfirst : Bool := true
  isfirst2 : Bool := true
  onlyVideo : Bool := true
  deriving DecidableEq

namespace RtspGlobals

-- The value between the key and the last character, which should be a quote.
def quoted (str key : List Char) (pos : Nat) : List Char :=
  substr str (pos + key.length) (str.length - pos - 1 - key.length)

def challengePart (g : RtspGlobals) (str : List Char) : RtspGlobals :=
  match find str "realm=\"".toList with
  | some pos => { g with REALM := quoted str "realm=\"".toList pos }
  | none =>
      match find str "nonce=\"".toList with
      | some pos => { g with NONECE := quoted str "nonce=\"".toList pos }
      | none => g

def challenge (g : RtspGlobals) (response : List Char) : Except Fault RtspGlobals := do
  let g := { g with isfirst := false, needCertify := true }
  let parts := (splitString response "\r\n".toList).flatMap fun line => splitString line [',']
  let g := parts.foldl challengePart g
  fservoCheck "!NONECE.empty() && !REALM.empty()" (g.NONECE ≠ [] && g.REALM ≠ [])
  return g

-- vec[i], which is undefined behind the end of the vector.
def element (vec : List (List Char)) (i : Nat) : Except Fault (List Char) :=
  match vec[i]? with
  | some str => .ok str
  | none => .error (.outOfRange i vec.length)

def sessionId (g : RtspGlobals) (line : List Char) : Except Fault RtspGlobals := do
  let part ← element (splitString line [';']) 0
  let len := "Session: ".toList.length
  return { g with SESSION := substr part len (part.length - len) }

def serverPort (g : RtspGlobals) (line : List Char) : Except Fault RtspGlobals := do
  let g ←
    match (splitString line [';']).find? fun part => find part "server_port".toList = some 0 with
    | none => .ok g
    | some part => do
        let port ← element (splitString part ['-']) 1
        .ok { g with RTCP_SERVER_PORT := atoi port }
  fservoCheck "RTCP_SERVER_PORT != 0" (g.RTCP_SERVER_PORT ≠ 0)
  return g

def sessionLine (g : RtspGlobals) (line : List Char) : Except Fault RtspGlobals := do
  let g ← if find line "Session: ".toList = some 0 then g.sessionId line else .ok g
  if (find line "server_port=".toList).isSome then g.serverPort line else .ok g

def mediaLine (g : RtspGlobals) (str : List Char) : RtspGlobals :=
  if (find str "a=control".toList).isSome then
    match find str "track".toList with
    | some pos =>
        if g.onlyVideo then { g with TRACK := substr str pos (str.length - pos), onlyVideo := false }
        else g
    | none => g
  else if (find str "H265".toList).isSome then { g with TYPE := .H265 }
  else if (find str "H264".toList).isSome then { g with TYPE := .H264 }
  else g

def parser (g : RtspGlobals) (response : List Char) : Except Fault RtspGlobals :=
  if (find response "Unauthorized".toList).isSome && g.isfirst then g.challenge response
  else if (find response "Session: ".toList).isSome && g.isfirst2 then
    (splitString response "\r\n".toList).foldlM sessionLine { g with isfirst2 := false }
  else if (find response "v=".toList).isSome && (find response "a=control".toList).isSome &&
      (find response "track".toList).isSome then
    .ok ((splitString response "\r\n".toList).foldl mediaLine g)
  else .ok g

end RtspGlobals

end Vcu
