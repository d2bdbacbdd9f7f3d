namespace Vcu

-- The session data that the packet parsers feed to the receiver reports. `max` is the
-- static local of setSeq.
structure RtspDataManager where
  SSRC : UInt32 := 0
  VERSION : UInt8 := 0
  SEQ : UInt16 := 0
  wrapAroundCount : UInt16 := 1
  max : UInt16 := 0
  deriving DecidableEq

namespace RtspDataManager

def setSSRC (m : RtspDataManager) (ssrc : UInt32) : RtspDataManager :=
  if m.SSRC = 0 then { m with SSRC := ssrc } else m

def setRtpVersion (m : RtspDataManager) (version : UInt8) : RtspDataManager :=
  if m.VERSION = 0 then { m with VERSION := version } else m

-- The sum seq + 65536 * wrap_around_count is stored in sixteen bits, so only seq remains.
def setSeq (m : RtspDataManager) (seq : UInt16) : RtspDataManager :=
  let wraps := if seq = 65535 then m.wrapAroundCount + 1 else m.wrapAroundCount
  let old := if seq = 65535 then 0 else m.max
  let max := if seq ≤ old then old else seq
  { m with SEQ := max, wrapAroundCount := wraps, max := max }

end RtspDataManager

end Vcu
