import Vcu.FileManager

namespace Vcu

open StdString

structure NetParaCfg where
  url : List Char
  cameraIP : List Char
  cameraPort : Int
  cameraUser : List Char
  cameraPassword : List Char
  rtpSendIP : List Char
  rtpSendPort : Int
  boxSendIP : List Char
  boxSendPort : Int
  deriving DecidableEq

-- The maps of the file that belong to the network.
structure NetMaps where
  mpCamera : List (List Char × List Char) := []
  mpRtp : List (List Char × List Char) := []
  mpBox : List (List Char × List Char) := []
  deriving DecidableEq

-- The extraction of an int stops at the first character that is no digit, and a number that does not
-- fit is cut.
def stringToNum (str : List Char) : Int := max (-2147483648) (min 2147483647 (atoi str))

-- operator[] of a map, which gives an empty text for a key that is not there.
def mapAt (m : List (List Char × List Char)) (key : List Char) : List Char :=
  ((m.find? fun p => p.1 = key).map Prod.snd).getD []

-- The text without its first and its last character. There is no text when substr throws.
def unquote (str : List Char) : Option (List Char) := substrAt str 1 (sizeT (str.length - 2))

namespace NetMaps

def setCfg (m : NetMaps) (key : List Char) (val : List Char × List Char) : NetMaps :=
  if key = "camera".toList then { m with mpCamera := mapInsert m.mpCamera val }
  else if key = "rtp_send".toList then { m with mpRtp := mapInsert m.mpRtp val }
  else if key = "box_send".toList then { m with mpBox := mapInsert m.mpBox val }
  else m

-- What initCfg does with these maps.
def initCfg (m : NetMaps) : Option NetParaCfg := do
  let cameraUser ← unquote (mapAt m.mpCamera "user".toList)
  let cameraPassword ← unquote (mapAt m.mpCamera "password".toList)
  let url ← unquote (mapAt m.mpCamera "url".toList)
  some {
    url := url
    cameraIP := mapAt m.mpCamera "ip".toList
    cameraPort := stringToNum (mapAt m.mpCamera "port".toList)
    cameraUser := cameraUser
    cameraPassword := cameraPassword
    rtpSendIP := mapAt m.mpRtp "ip".toList
    rtpSendPort := stringToNum (mapAt m.mpRtp "port".toList)
    boxSendIP := mapAt m.mpBox "ip".toList
    boxSendPort := stringToNum (mapAt m.mpBox "port".toList) }

end NetMaps

end Vcu
