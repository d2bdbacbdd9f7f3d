import Vcu.Common.Configuration
import Vcu.Lib.Messages
import Vcu.RtspDataManager.Parser
import Vcu.RtspDataManager.Response

namespace Vcu

open Messages

def OPT_MSG_1 : List Char := "OPTIONS ".toList
def DESCRIBE_MSG_1 : List Char := "DESCRIBE ".toList
def SETUP_MSG_1 : List Char := "SETUP ".toList
def PLAY_MSG_1 : List Char := "PLAY ".toList

def CSEQ_HEAD : List Char := "CSeq: ".toList
def AUTHOR_MSG_1 : List Char := "Authorization: Digest username=\"".toList
def AUTHOR_MSG_2 : List Char := "\", realm=\"".toList
def AUTHOR_MSG_3 : List Char := "\", nonce=\"".toList
def AUTHOR_MSG_4 : List Char := "\", uri=\"".toList
def AUTHOR_MSG_5 : List Char := "\", response=\"".toList
def AUTHOR_MSG_6 : List Char := "\"\r\n".toList

def USER_AGENT_MSG : List Char := "User-Agent: virtual client player\r\n".toList
def TRANSPORT_MSG : List Char := "Transport: RTP/AVP;unicast;client_port=9980-9990\r\n".toList

def END : List Char := "\r\n".toList
def RTSP_END : List Char := " RTSP/1.0\r\n".toList

-- The hash works on the bytes of the strings.
def bytes (s : List Char) : Text := s.map fun c => c.toNat.toUInt8

def chars (t : Text) : List Char := t.map fun b => Char.ofNat b.toNat

def cseqStr (seqNum : Nat) : List Char := CSEQ_HEAD ++ Nat.toDigits 10 seqNum ++ "\r\n".toList

def sessionMsg (g : RtspGlobals) : List Char := "Session: ".toList ++ g.SESSION ++ "\r\n".toList

-- What the requests with credentials share. There is no text when calResponse leaves its buffer.
def authorMsg (g : RtspGlobals) (para : NetParaCfg) (seqNum : Nat) (head cmd urlEnd tail : List Char) :
    Option (List Char) := do
  let RESPONSE ← calResponse (bytes g.REALM) (bytes g.NONECE) (bytes cmd) (bytes para.cameraUser)
    (bytes para.cameraPassword) (bytes para.url)
  some (head ++ para.url ++ urlEnd ++ RTSP_END ++ cseqStr seqNum ++ AUTHOR_MSG_1 ++ para.cameraUser ++
    AUTHOR_MSG_2 ++ g.REALM ++ AUTHOR_MSG_3 ++ g.NONECE ++ AUTHOR_MSG_4 ++ para.url ++ AUTHOR_MSG_5 ++
    chars RESPONSE ++ AUTHOR_MSG_6 ++ USER_AGENT_MSG ++ tail ++ END)

def plainMsg (para : NetParaCfg) (seqNum : Nat) (head : List Char) : List Char :=
  head ++ para.url ++ RTSP_END ++ cseqStr seqNum ++ USER_AGENT_MSG ++ END

def get_opt_msg (g : RtspGlobals) (para : NetParaCfg) (seqNum : Nat) (author : Bool) : Option (List Char) :=
  if author then authorMsg g para seqNum OPT_MSG_1 "OPTIONS:".toList [] []
  else some (plainMsg para seqNum OPT_MSG_1)

def get_describe_msg (g : RtspGlobals) (para : NetParaCfg) (seqNum : Nat) (author : Bool) :
    Option (List Char) :=
  if author then authorMsg g para seqNum DESCRIBE_MSG_1 "DESCRIBE:".toList [] []
  else some (plainMsg para seqNum DESCRIBE_MSG_1)

-- A check ends the process while there is no track, and in the next two while there is no session.
def get_setup_msg (g : RtspGlobals) (para : NetParaCfg) (seqNum : Nat) : Option (List Char) :=
  if g.TRACK = [] then none
  else authorMsg g para seqNum SETUP_MSG_1 "SETUP:".toList ("/".toList ++ g.TRACK) TRANSPORT_MSG

def get_play_msg (g : RtspGlobals) (para : NetParaCfg) (seqNum : Nat) : Option (List Char) :=
  if g.SESSION = [] then none
  else authorMsg g para seqNum PLAY_MSG_1 "PLAY:".toList "/".toList
    (sessionMsg g ++ "Range: npt=0.000-\r\n".toList)

def get_parameter_msg (g : RtspGlobals) (para : NetParaCfg) (seqNum : Nat) : Option (List Char) :=
  if g.SESSION = [] then none
  else authorMsg g para seqNum "GET_PARAMETER ".toList "GET_PARAMETER:".toList "/".toList (sessionMsg g)

-- The other end. A message is a request line and the header lines behind it.
structure RtspRequest where
  method : List Char
  uri : List Char
  headers : List (List Char × List Char)
  deriving DecidableEq

-- The text before the first `c`, and the text behind it.
def splitFirst (c : Char) (s : List Char) : Option (List Char × List Char) :=
  match s.dropWhile fun d => d ≠ c with
  | [] => none
  | _ :: rest => some (s.takeWhile fun d => d ≠ c, rest)

def readHeader (line : List Char) : Option (List Char × List Char) := do
  let (name, rest) ← splitFirst ':' line
  let value ← rest.dropPrefix? " ".toList
  some (name, value)

def readRequest : List (List Char) → Option RtspRequest
  | [] => none
  | line :: lines => do
      let (method, rest) ← splitFirst ' ' line
      let uri ← (rest.reverse.dropPrefix? " RTSP/1.0".toList.reverse).map List.reverse
      let headers ← lines.mapM readHeader
      some { method := method, uri := uri, headers := headers }

-- What a server reads on the connection.
def readRequests (stream : List Char) : Option (List RtspRequest) := do
  let messages ← read '\r' '\n' stream
  messages.mapM readRequest

-- The value of a header, where it stands first.
def RtspRequest.header (r : RtspRequest) (name : String) : Option (List Char) := r.headers.lookup name.toList

def readNumber (s : List Char) : Option Nat :=
  if s.isEmpty || !s.all Char.isDigit then none else some (Nat.ofDigitChars 10 s 0)

def RtspRequest.cseq (r : RtspRequest) : Option Nat := (r.header "CSeq").bind readNumber

-- User, realm, nonce, uri and response.
def RtspRequest.credentials (r : RtspRequest) : Option (List (List Char)) :=
  (r.header "Authorization").bind (readFields '"' (["Digest username=\"", ", realm=\"", ", nonce=\"",
    ", uri=\"", ", response=\""].map String.toList))

inductive RequestMethod where
  | OPTIONS
  | DESCRIBE
  | SETUP
  | PLAY
  | GET_PARAMETER
  deriving DecidableEq

namespace RequestMethod

def message (g : RtspGlobals) (para : NetParaCfg) (seqNum : Nat) (author : Bool) :
    RequestMethod → Option (List Char)
  | OPTIONS => get_opt_msg g para seqNum author
  | DESCRIBE => get_describe_msg g para seqNum author
  | SETUP => get_setup_msg g para seqNum
  | PLAY => get_play_msg g para seqNum
  | GET_PARAMETER => get_parameter_msg g para seqNum

def name : RequestMethod → List Char
  | OPTIONS => "OPTIONS".toList
  | DESCRIBE => "DESCRIBE".toList
  | SETUP => "SETUP".toList
  | PLAY => "PLAY".toList
  | GET_PARAMETER => "GET_PARAMETER".toList

-- The requests that always have credentials, whether the camera wants them or not.
def signed : RequestMethod → Bool
  | OPTIONS => false
  | DESCRIBE => false
  | SETUP => true
  | PLAY => true
  | GET_PARAMETER => true

-- The track is set up, and the session is played and kept alive as a whole.
def uri (g : RtspGlobals) (para : NetParaCfg) : RequestMethod → List Char
  | OPTIONS => para.url
  | DESCRIBE => para.url
  | SETUP => para.url ++ '/' :: g.TRACK
  | PLAY => para.url ++ ['/']
  | GET_PARAMETER => para.url ++ ['/']

-- The headers that only some of the requests have.
def ownHeaders (g : RtspGlobals) : RequestMethod → List (List Char × List Char)
  | OPTIONS => []
  | DESCRIBE => []
  | SETUP => [("Transport".toList, "RTP/AVP;unicast;client_port=9980-9990".toList)]
  | PLAY => [("Session".toList, g.SESSION), ("Range".toList, "npt=0.000-".toList)]
  | GET_PARAMETER => [("Session".toList, g.SESSION)]

end RequestMethod

-- Texts that cannot end a line early.
structure RtspGlobals.Plain (g : RtspGlobals) : Prop where
  realm : OneLine '\r' '\n' g.REALM
  nonce : OneLine '\r' '\n' g.NONECE
  session : OneLine '\r' '\n' g.SESSION
  track : OneLine '\r' '\n' g.TRACK

structure NetParaCfg.Plain (para : NetParaCfg) : Prop where
  url : OneLine '\r' '\n' para.url
  user : OneLine '\r' '\n' para.cameraUser

def headerLine (h : List Char × List Char) : List Char := h.1 ++ ':' :: ' ' :: h.2

def requestLines (r : RtspRequest) : List (List Char) :=
  (r.method ++ ' ' :: (r.uri ++ " RTSP/1.0".toList)) :: r.headers.map headerLine

def digestFields (g : RtspGlobals) (para : NetParaCfg) (response : Text) : List (List Char × List Char) :=
  [("Digest username=\"".toList, para.cameraUser), (", realm=\"".toList, g.REALM),
    (", nonce=\"".toList, g.NONECE), (", uri=\"".toList, para.url), (", response=\"".toList, chars response)]

def numberHeader (seqNum : Nat) : List Char × List Char := ("CSeq".toList, Nat.toDigits 10 seqNum)

def agentHeader : List Char × List Char := ("User-Agent".toList, "virtual client player".toList)

def authorHeader (g : RtspGlobals) (para : NetParaCfg) (response : Text) : List Char × List Char :=
  ("Authorization".toList, writeFields '"' (digestFields g para response))

section Lines

variable {g : RtspGlobals} {para : NetParaCfg} {seqNum : Nat} {c : Char} {s t : List Char}

theorem splitFirst_append (hs : c ∉ s) (t : List Char) : splitFirst c (s ++ c :: t) = some (s, t) := by
  have hall : ∀ d ∈ s, (decide (d ≠ c)) = true := fun d hd => decide_eq_true fun h => hs (h ▸ hd)
  rw [splitFirst, List.dropWhile_append_of_pos hall, List.takeWhile_append_of_pos hall,
    List.dropWhile_cons_of_neg (by simp), List.takeWhile_cons_of_neg (by simp), List.append_nil]

theorem readHeader_headerLine {h : List Char × List Char} (hname : ':' ∉ h.1) :
    readHeader (headerLine h) = some h := by
  have hvalue : (' ' :: h.2).dropPrefix? " ".toList = some h.2 :=
    List.dropPrefix?_eq_some_iff.mpr ⟨" ".toList, rfl, beq_self_eq_true _⟩
  rw [readHeader, headerLine, splitFirst_append hname, Option.bind_eq_bind, Option.bind_some]
  dsimp only
  rw [hvalue]
  rfl

theorem mapM_readHeader {headers : List (List Char × List Char)} (hnames : ∀ h ∈ headers, ':' ∉ h.1) :
    (headers.map headerLine).mapM readHeader = some headers := by
  induction headers with
  | nil => rfl
  | cons h headers ih =>
      rw [List.map_cons, List.mapM_cons, readHeader_headerLine (hnames h List.mem_cons_self),
        ih fun k hk => hnames k (List.mem_cons_of_mem h hk)]
      rfl

theorem readRequest_lines {r : RtspRequest} (hmethod : ' ' ∉ r.method) (hnames : ∀ h ∈ r.headers, ':' ∉ h.1) :
    readRequest (requestLines r) = some r := by
  have huri : (r.uri ++ " RTSP/1.0".toList).reverse.dropPrefix? " RTSP/1.0".toList.reverse = some r.uri.reverse := by
    rw [List.dropPrefix?_eq_some_iff, List.reverse_append]
    exact ⟨_, rfl, beq_self_eq_true _⟩
  rw [requestLines, readRequest, splitFirst_append hmethod, Option.bind_eq_bind, Option.bind_some]
  dsimp only
  rw [huri, mapM_readHeader hnames, Option.map_some, List.reverse_reverse]
  rfl

end Lines

-- The hash that the source sends for a request with credentials.
def RequestMethod.response (g : RtspGlobals) (para : NetParaCfg) (m : RequestMethod) : Option Text :=
  calResponse (bytes g.REALM) (bytes g.NONECE) (bytes (m.name ++ [':'])) (bytes para.cameraUser)
    (bytes para.cameraPassword) (bytes para.url)

-- What a server should read. Only a request with credentials has a response.
def RequestMethod.asRead (g : RtspGlobals) (para : NetParaCfg) (seqNum : Nat) (response : Option Text)
    (m : RequestMethod) : RtspRequest where
  method := m.name
  uri := m.uri g para
  headers := numberHeader seqNum :: (response.toList.map (authorHeader g para) ++
    agentHeader :: m.ownHeaders g)

section Texts

variable {g : RtspGlobals} {para : NetParaCfg} {seqNum : Nat} {text : List Char}

-- The constants cut where a line ends or a value begins.

theorem RTSP_END_eq : RTSP_END = " RTSP/1.0".toList ++ ['\r', '\n'] := by decide

theorem END_eq : END = ['\r', '\n'] := by decide

theorem USER_AGENT_MSG_eq : USER_AGENT_MSG = writeLine '\r' '\n' (headerLine agentHeader) := by decide

theorem cseqStr_eq (seqNum : Nat) : cseqStr seqNum = writeLine '\r' '\n' (headerLine (numberHeader seqNum)) := by
  have hhead : CSEQ_HEAD = "CSeq".toList ++ [':', ' '] := by decide
  have hend : "\r\n".toList = ['\r', '\n'] := by decide
  rw [cseqStr, hhead, hend, writeLine, headerLine, numberHeader]
  generalize "CSeq".toList = name
  simp

theorem sessionMsg_eq (g : RtspGlobals) :
    sessionMsg g = writeLine '\r' '\n' (headerLine ("Session".toList, g.SESSION)) := by
  have hhead : "Session: ".toList = "Session".toList ++ [':', ' '] := by decide
  have hend : "\r\n".toList = ['\r', '\n'] := by decide
  unfold sessionMsg
  rw [hhead, hend]
  generalize "Session".toList = name
  simp [writeLine, headerLine]

theorem author_eq (g : RtspGlobals) (para : NetParaCfg) (response : Text) :
    AUTHOR_MSG_1 ++ para.cameraUser ++ AUTHOR_MSG_2 ++ g.REALM ++ AUTHOR_MSG_3 ++ g.NONECE ++ AUTHOR_MSG_4 ++
      para.url ++ AUTHOR_MSG_5 ++ chars response ++ AUTHOR_MSG_6 =
    writeLine '\r' '\n' (headerLine (authorHeader g para response)) := by
  have h1 : AUTHOR_MSG_1 = "Authorization".toList ++ ':' :: ' ' :: "Digest username=\"".toList := by decide
  have h2 : AUTHOR_MSG_2 = '"' :: ", realm=\"".toList := by decide
  have h3 : AUTHOR_MSG_3 = '"' :: ", nonce=\"".toList := by decide
  have h4 : AUTHOR_MSG_4 = '"' :: ", uri=\"".toList := by decide
  have h5 : AUTHOR_MSG_5 = '"' :: ", response=\"".toList := by decide
  have h6 : AUTHOR_MSG_6 = ['"', '\r', '\n'] := by decide
  unfold authorHeader digestFields
  rw [h1, h2, h3, h4, h5, h6]
  generalize "Authorization".toList = name, "Digest username=\"".toList = k1, ", realm=\"".toList = k2,
    ", nonce=\"".toList = k3, ", uri=\"".toList = k4, ", response=\"".toList = k5
  simp [writeFields, writeLine, headerLine]

-- The lines of a request, one behind the other.
theorem writeMessage_asRead (m : RequestMethod) (response : Option Text) :
    writeMessage '\r' '\n' (requestLines (m.asRead g para seqNum response)) =
      m.name ++ ' ' :: (m.uri g para ++ RTSP_END) ++ cseqStr seqNum ++
        (response.toList.map (authorHeader g para)).flatMap (fun h => writeLine '\r' '\n' (headerLine h)) ++
        USER_AGENT_MSG ++ (m.ownHeaders g).flatMap (fun h => writeLine '\r' '\n' (headerLine h)) ++ END := by
  rw [RTSP_END_eq, cseqStr_eq, USER_AGENT_MSG_eq, END_eq, writeMessage, requestLines, RequestMethod.asRead]
  generalize " RTSP/1.0".toList = version
  simp only [List.map_cons, List.map_append, List.flatMap_cons, List.flatMap_append, List.flatMap_map,
    writeLine, List.append_assoc, List.cons_append, List.nil_append]

theorem plainMsg_eq (m : RequestMethod) {head : List Char} (hhead : head = m.name ++ [' '])
    (huri : m.uri g para = para.url) (hown : m.ownHeaders g = []) :
    plainMsg para seqNum head = writeMessage '\r' '\n' (requestLines (m.asRead g para seqNum none)) := by
  rw [writeMessage_asRead, huri, hown, plainMsg, hhead]
  simp only [Option.toList_none, List.map_nil, List.flatMap_nil, List.append_assoc, List.cons_append,
    List.nil_append]

theorem authorMsg_eq (m : RequestMethod) {head cmd urlEnd tail : List Char} (hhead : head = m.name ++ [' '])
    (hcmd : cmd = m.name ++ [':']) (huri : m.uri g para = para.url ++ urlEnd)
    (htail : tail = (m.ownHeaders g).flatMap fun h => writeLine '\r' '\n' (headerLine h))
    (h : authorMsg g para seqNum head cmd urlEnd tail = some text) :
    ∃ response, m.response g para = some response ∧
      text = writeMessage '\r' '\n' (requestLines (m.asRead g para seqNum (some response))) := by
  subst hhead hcmd htail
  obtain ⟨response, hresponse, h⟩ := Option.bind_eq_some_iff.mp h
  refine ⟨response, hresponse, ?_⟩
  rw [← Option.some.inj h, writeMessage_asRead, huri, Option.toList_some, List.map_singleton,
    List.flatMap_singleton, ← author_eq]
  simp only [List.append_assoc, List.cons_append, List.nil_append]

-- The text of a request is one message, and it says what the variables were.
theorem message_spec (m : RequestMethod) {author : Bool} (h : m.message g para seqNum author = some text) :
    ∃ response, (if author || m.signed then m.response g para = response ∧ response.isSome
        else response = none) ∧
      text = writeMessage '\r' '\n' (requestLines (m.asRead g para seqNum response)) := by
  cases m with
  | OPTIONS =>
      have hhead : OPT_MSG_1 = RequestMethod.OPTIONS.name ++ [' '] := by decide
      simp only [RequestMethod.message, get_opt_msg] at h
      cases author with
      | false => exact ⟨none, rfl, (Option.some.inj h).symm.trans (plainMsg_eq .OPTIONS hhead rfl rfl)⟩
      | true =>
          obtain ⟨response, hresponse, htext⟩ :=
            authorMsg_eq .OPTIONS hhead (by decide) (List.append_nil _).symm rfl h
          exact ⟨some response, ⟨hresponse, rfl⟩, htext⟩
  | DESCRIBE =>
      have hhead : DESCRIBE_MSG_1 = RequestMethod.DESCRIBE.name ++ [' '] := by decide
      simp only [RequestMethod.message, get_describe_msg] at h
      cases author with
      | false => exact ⟨none, rfl, (Option.some.inj h).symm.trans (plainMsg_eq .DESCRIBE hhead rfl rfl)⟩
      | true =>
          obtain ⟨response, hresponse, htext⟩ :=
            authorMsg_eq .DESCRIBE hhead (by decide) (List.append_nil _).symm rfl h
          exact ⟨some response, ⟨hresponse, rfl⟩, htext⟩
  | SETUP =>
      have huri : RequestMethod.SETUP.uri g para = para.url ++ ("/".toList ++ g.TRACK) := by
        rw [show "/".toList = ['/'] by decide]
        rfl
      have htail : TRANSPORT_MSG =
          (RequestMethod.SETUP.ownHeaders g).flatMap fun h => writeLine '\r' '\n' (headerLine h) := by
        rw [RequestMethod.ownHeaders, List.flatMap_singleton]
        decide
      simp only [RequestMethod.message, get_setup_msg] at h
      split at h
      · cases h
      obtain ⟨response, hresponse, htext⟩ :=
        authorMsg_eq .SETUP (by decide) (by decide) huri htail h
      exact ⟨some response, by simp [RequestMethod.signed, hresponse], htext⟩
  | PLAY =>
      have htail : sessionMsg g ++ "Range: npt=0.000-\r\n".toList =
          (RequestMethod.PLAY.ownHeaders g).flatMap fun h => writeLine '\r' '\n' (headerLine h) := by
        have hrange : "Range: npt=0.000-\r\n".toList =
            writeLine '\r' '\n' (headerLine ("Range".toList, "npt=0.000-".toList)) := by decide
        rw [RequestMethod.ownHeaders, List.flatMap_cons, List.flatMap_singleton, sessionMsg_eq, hrange]
      have huri : RequestMethod.PLAY.uri g para = para.url ++ "/".toList := by
        rw [show "/".toList = ['/'] by decide]
        rfl
      simp only [RequestMethod.message, get_play_msg] at h
      split at h
      · cases h
      obtain ⟨response, hresponse, htext⟩ := authorMsg_eq .PLAY (by decide) (by decide) huri htail h
      exact ⟨some response, by simp [RequestMethod.signed, hresponse], htext⟩
  | GET_PARAMETER =>
      have htail : sessionMsg g =
          (RequestMethod.GET_PARAMETER.ownHeaders g).flatMap fun h => writeLine '\r' '\n' (headerLine h) := by
        rw [RequestMethod.ownHeaders, List.flatMap_singleton, sessionMsg_eq]
      have huri : RequestMethod.GET_PARAMETER.uri g para = para.url ++ "/".toList := by
        rw [show "/".toList = ['/'] by decide]
        rfl
      simp only [RequestMethod.message, get_parameter_msg] at h
      split at h
      · cases h
      obtain ⟨response, hresponse, htext⟩ := authorMsg_eq .GET_PARAMETER (by decide) (by decide) huri htail h
      exact ⟨some response, by simp [RequestMethod.signed, hresponse], htext⟩

end Texts

-- A request that was sent. `author` tells whether it has credentials, and `globals` are the variables
-- as they were when it was built.
structure SentRequest where
  method : RequestMethod
  author : Bool
  globals : RtspGlobals
  text : List Char
  deriving DecidableEq

-- A server that reads `r` reads what the source meant with its request number `seqNum`.
structure Says (para : NetParaCfg) (seqNum : Nat) (s : SentRequest) (r : RtspRequest) : Prop where
  method : r.method = s.method.name
  uri : r.uri = s.method.uri s.globals para
  cseq : r.cseq = some seqNum
  transport : r.header "Transport" =
    if s.method = .SETUP then some "RTP/AVP;unicast;client_port=9980-9990".toList else none
  session : r.header "Session" =
    if s.method = .PLAY ∨ s.method = .GET_PARAMETER then some s.globals.SESSION else none
  plain : s.author = false → r.header "Authorization" = none
  credentials : s.author = true → (∀ t ∈ [para.cameraUser, s.globals.REALM, s.globals.NONECE, para.url], '"' ∉ t) →
    ∃ response, s.method.response s.globals para = some response ∧ r.credentials =
      some [para.cameraUser, s.globals.REALM, s.globals.NONECE, para.url, chars response]

section Digits

theorem le_hexDigit {n : UInt8} (hn : n.toNat < 16) : 48 ≤ (Md5.hexDigit n).toNat := by
  have h48 : (48 : UInt8).toNat = 48 := rfl
  have h87 : (87 : UInt8).toNat = 87 := rfl
  rw [Md5.hexDigit]
  split
  · rw [UInt8.toNat_add]
    omega
  · rw [UInt8.toNat_add]
    omega

theorem le_of_mem_hex {digest : List UInt8} {b : UInt8} (hb : b ∈ Md5.hex digest) : 48 ≤ b.toNat := by
  obtain ⟨d, -, hd⟩ := List.mem_flatMap.mp hb
  have h16 : (16 : UInt8).toNat = 16 := rfl
  have hbyte := d.toNat_lt
  simp only [List.mem_cons, List.not_mem_nil, or_false] at hd
  rcases hd with rfl | rfl
  · refine le_hexDigit ?_
    rw [UInt8.toNat_div, h16]
    omega
  · refine le_hexDigit ?_
    rw [UInt8.toNat_mod, h16]
    omega

-- The response is made of digits, so no end of a line and no quote is in it.
theorem le_of_mem_response {realm nonce cmd user passwd url response : Text}
    (h : calResponse realm nonce cmd user passwd url = some response) : ∀ b ∈ response, 48 ≤ b.toNat := by
  have hmd5 : ∃ t n, getMd5 t n = some response := by
    unfold calResponse at h
    simp only [Option.bind_eq_bind, Option.bind_eq_some_iff] at h
    obtain ⟨_, -, _, -, _, -, _, -, _, -, _, -, _, -, _, -, _, -, _, -, _, -, h⟩ := h
    exact ⟨_, _, h⟩
  obtain ⟨t, n, ht⟩ := hmd5
  obtain ⟨md5, -, ht⟩ := Option.bind_eq_some_iff.mp ht
  obtain ⟨md5Value, -, ht⟩ := Option.bind_eq_some_iff.mp ht
  rw [← Option.some.inj ht]
  exact fun b hb => le_of_mem_hex hb

theorem notMem_chars {t : Text} (ht : ∀ b ∈ t, 48 ≤ b.toNat) {c : Char} (hc : c.toNat < 48) : c ∉ chars t := by
  intro hmem
  obtain ⟨b, hb, rfl⟩ := List.mem_map.mp hmem
  have hbyte := b.toNat_lt
  have hvalue : (Char.ofNat b.toNat).toNat = b.toNat := by
    rw [Char.ofNat, dif_pos (Or.inl (by omega))]
    rfl
  exact absurd (ht b hb) (by omega)

theorem notMem_digits {c : Char} (hc : c.isDigit = false) (n : Nat) : c ∉ Nat.toDigits 10 n := by
  intro hmem
  rw [Nat.isDigit_of_mem_toDigits (by decide) (by decide) hmem] at hc
  cases hc

theorem readNumber_digits (n : Nat) : readNumber (Nat.toDigits 10 n) = some n := by
  have hdigits : (Nat.toDigits 10 n).all Char.isDigit = true :=
    List.all_eq_true.mpr fun c hc => Nat.isDigit_of_mem_toDigits (by decide) (by decide) hc
  have hne : (Nat.toDigits 10 n).isEmpty = false := List.isEmpty_eq_false_iff.mpr Nat.toDigits_ne_nil
  rw [readNumber, hne, hdigits, Nat.ofDigitChars_ten_toDigits]
  rfl

end Digits

section Reading

variable {g : RtspGlobals} {para : NetParaCfg} {seqNum : Nat} {response : Option Text} {m : RequestMethod}

theorem OneLine.cons {c : Char} {t : List Char} (hcr : c ≠ '\r') (hlf : c ≠ '\n') (ht : OneLine '\r' '\n' t) :
    OneLine '\r' '\n' (c :: t) :=
  ⟨List.not_mem_cons_of_ne_of_not_mem hcr.symm ht.1, List.not_mem_cons_of_ne_of_not_mem hlf.symm ht.2⟩

theorem OneLine.chars {t : Text} (ht : ∀ b ∈ t, 48 ≤ b.toNat) : OneLine '\r' '\n' (chars t) :=
  ⟨notMem_chars ht (by decide), notMem_chars ht (by decide)⟩

theorem OneLine.writeFields {fields : List (List Char × List Char)}
    (hfields : ∀ f ∈ fields, OneLine '\r' '\n' f.1 ∧ OneLine '\r' '\n' f.2) :
    OneLine '\r' '\n' (writeFields '"' fields) := by
  have hquote : OneLine '\r' '\n' ['"'] := ⟨by decide, by decide⟩
  refine ⟨fun h => ?_, fun h => ?_⟩
  · obtain ⟨f, hf, hc⟩ := List.mem_flatMap.mp h
    exact (((hfields f hf).1.append (hfields f hf).2).append hquote).1 hc
  · obtain ⟨f, hf, hc⟩ := List.mem_flatMap.mp h
    exact (((hfields f hf).1.append (hfields f hf).2).append hquote).2 hc

theorem OneLine.uri (hg : g.Plain) (hpara : para.Plain) (m : RequestMethod) :
    OneLine '\r' '\n' (m.uri g para) := by
  have hslash : OneLine '\r' '\n' ['/'] := ⟨by decide, by decide⟩
  cases m with
  | OPTIONS => exact hpara.url
  | DESCRIBE => exact hpara.url
  | SETUP => exact hpara.url.append (OneLine.cons (by decide) (by decide) hg.track)
  | PLAY => exact hpara.url.append hslash
  | GET_PARAMETER => exact hpara.url.append hslash

-- The names of the headers are plain, and so are the values.
structure PlainHeader (h : List Char × List Char) : Prop where
  name : OneLine '\r' '\n' h.1
  colon : ':' ∉ h.1
  value : OneLine '\r' '\n' h.2

theorem plainHeader_mk {name value : List Char} (hname : OneLine '\r' '\n' name ∧ ':' ∉ name)
    (hvalue : OneLine '\r' '\n' value) : PlainHeader (name, value) :=
  ⟨hname.1, hname.2, hvalue⟩

theorem plainHeader_author (hg : g.Plain) (hpara : para.Plain) {r : Text} (hr : ∀ b ∈ r, 48 ≤ b.toNat) :
    PlainHeader (authorHeader g para r) := by
  refine plainHeader_mk (by decide) (OneLine.writeFields fun f hf => ?_)
  have hkeys : ∀ key ∈ ["Digest username=\"", ", realm=\"", ", nonce=\"", ", uri=\"", ", response=\""],
      OneLine '\r' '\n' key.toList := by decide
  simp only [digestFields, List.mem_cons, List.not_mem_nil, or_false] at hf
  rcases hf with rfl | rfl | rfl | rfl | rfl
  · exact ⟨hkeys _ (by simp), hpara.user⟩
  · exact ⟨hkeys _ (by simp), hg.realm⟩
  · exact ⟨hkeys _ (by simp), hg.nonce⟩
  · exact ⟨hkeys _ (by simp), hpara.url⟩
  · exact ⟨hkeys _ (by simp), OneLine.chars hr⟩

theorem plainHeader_own (hg : g.Plain) (m : RequestMethod) : ∀ h ∈ m.ownHeaders g, PlainHeader h := by
  intro h hh
  cases m with
  | OPTIONS => cases hh
  | DESCRIBE => cases hh
  | SETUP =>
      obtain rfl := List.mem_singleton.mp hh
      exact plainHeader_mk (by decide) (by decide)
  | PLAY =>
      rcases List.mem_cons.mp hh with rfl | hh
      · exact plainHeader_mk (by decide) hg.session
      · obtain rfl := List.mem_singleton.mp hh
        exact plainHeader_mk (by decide) (by decide)
  | GET_PARAMETER =>
      obtain rfl := List.mem_singleton.mp hh
      exact plainHeader_mk (by decide) hg.session

theorem plainHeader_asRead (seqNum : Nat) (m : RequestMethod) (hg : g.Plain) (hpara : para.Plain)
    (hresponse : ∀ r ∈ response, ∀ b ∈ r, 48 ≤ b.toNat) :
    ∀ h ∈ (m.asRead g para seqNum response).headers, PlainHeader h := by
  intro h hh
  simp only [RequestMethod.asRead, List.mem_cons, List.mem_append, List.mem_map, Option.mem_toList] at hh
  rcases hh with rfl | ⟨r, hr, rfl⟩ | rfl | hh
  · exact plainHeader_mk (by decide) ⟨notMem_digits rfl seqNum, notMem_digits rfl seqNum⟩
  · exact plainHeader_author hg hpara (hresponse r hr)
  · exact plainHeader_mk (by decide) (by decide)
  · exact plainHeader_own hg m h hh

-- The lines of a request can be told apart, and it is read as what they say.
theorem requestLines_plain (seqNum : Nat) (m : RequestMethod) (hg : g.Plain) (hpara : para.Plain)
    (hresponse : ∀ r ∈ response, ∀ b ∈ r, 48 ≤ b.toNat) :
    (∀ line ∈ requestLines (m.asRead g para seqNum response), OneLine '\r' '\n' line ∧ line ≠ []) ∧
      readRequest (requestLines (m.asRead g para seqNum response)) =
        some (m.asRead g para seqNum response) := by
  have hheaders := plainHeader_asRead seqNum m hg hpara hresponse
  have hname : OneLine '\r' '\n' m.name ∧ ' ' ∉ m.name := by
    cases m with
    | OPTIONS => exact ⟨⟨by decide, by decide⟩, by decide⟩
    | DESCRIBE => exact ⟨⟨by decide, by decide⟩, by decide⟩
    | SETUP => exact ⟨⟨by decide, by decide⟩, by decide⟩
    | PLAY => exact ⟨⟨by decide, by decide⟩, by decide⟩
    | GET_PARAMETER => exact ⟨⟨by decide, by decide⟩, by decide⟩
  refine ⟨fun line hline => ?_, readRequest_lines hname.2 fun h hh => (hheaders h hh).colon⟩
  rcases List.mem_cons.mp hline with rfl | hline
  · refine ⟨hname.1.append (OneLine.cons (by decide) (by decide) ?_), by simp⟩
    exact (OneLine.uri hg hpara m).append ⟨by decide, by decide⟩
  · obtain ⟨h, hh, rfl⟩ := List.mem_map.mp hline
    have hplain := hheaders h hh
    refine ⟨hplain.name.append (OneLine.cons (by decide) (by decide) ?_), by simp [headerLine]⟩
    exact OneLine.cons (by decide) (by decide) hplain.value

theorem lookup_append {name : List Char} {front back : List (List Char × List Char)}
    (hfront : ∀ h ∈ front, (name == h.1) = false) : (front ++ back).lookup name = back.lookup name := by
  induction front with
  | nil => rfl
  | cons h front ih =>
      rw [List.cons_append, List.lookup_cons, hfront h List.mem_cons_self]
      exact ih fun k hk => hfront k (List.mem_cons_of_mem h hk)

-- The headers that every request has do not hide the ones of its own.
theorem header_own {name : String} (hname : (name.toList == "CSeq".toList) = false ∧
    (name.toList == "Authorization".toList) = false ∧ (name.toList == "User-Agent".toList) = false) :
    (m.asRead g para seqNum response).header name = (m.ownHeaders g).lookup name.toList := by
  have heq : (m.asRead g para seqNum response).headers =
      (numberHeader seqNum :: (response.toList.map (authorHeader g para) ++ [agentHeader])) ++ m.ownHeaders g := by
    simp [RequestMethod.asRead]
  rw [RtspRequest.header, heq]
  refine lookup_append fun h hh => ?_
  simp only [List.mem_cons, List.mem_append, List.mem_map, Option.mem_toList, List.not_mem_nil, or_false] at hh
  rcases hh with rfl | ⟨r, -, rfl⟩ | rfl
  · exact hname.1
  · exact hname.2.1
  · exact hname.2.2

theorem mem_ownHeaders {h : List Char × List Char} (hh : h ∈ m.ownHeaders g) :
    h.1 ∈ ["Transport".toList, "Session".toList, "Range".toList] := by
  cases m with
  | OPTIONS => cases hh
  | DESCRIBE => cases hh
  | SETUP =>
      obtain rfl := List.mem_singleton.mp hh
      exact List.mem_cons_self
  | PLAY =>
      rcases List.mem_cons.mp hh with rfl | hh
      · exact List.mem_cons_of_mem _ List.mem_cons_self
      · obtain rfl := List.mem_singleton.mp hh
        exact List.mem_cons_of_mem _ (List.mem_cons_of_mem _ List.mem_cons_self)
  | GET_PARAMETER =>
      obtain rfl := List.mem_singleton.mp hh
      exact List.mem_cons_of_mem _ List.mem_cons_self

theorem header_author :
    (m.asRead g para seqNum response).header "Authorization" =
      response.map fun r => writeFields '"' (digestFields g para r) := by
  have hnumber : ("Authorization".toList == "CSeq".toList) = false := by decide
  have hagent : ("Authorization".toList == "User-Agent".toList) = false := by decide
  have hown : ∀ name ∈ ["Transport".toList, "Session".toList, "Range".toList],
      ("Authorization".toList == name) = false := by decide
  rw [RtspRequest.header, RequestMethod.asRead, numberHeader, List.lookup_cons, hnumber]
  cases response with
  | some r => exact List.lookup_cons_self
  | none =>
      refine List.lookup_eq_none_iff.mpr fun h hh => ?_
      rcases List.mem_cons.mp hh with rfl | hh
      · exact bne_iff_ne.mpr (beq_eq_false_iff_ne.mp hagent)
      · exact bne_iff_ne.mpr (beq_eq_false_iff_ne.mp (hown h.1 (mem_ownHeaders hh)))

theorem credentials_asRead {r : Text} (hr : ∀ b ∈ r, 48 ≤ b.toNat)
    (hquotes : ∀ t ∈ [para.cameraUser, g.REALM, g.NONECE, para.url], '"' ∉ t) :
    (m.asRead g para seqNum (some r)).credentials =
      some [para.cameraUser, g.REALM, g.NONECE, para.url, chars r] := by
  have hfields : ∀ f ∈ digestFields g para r, '"' ∉ f.2 := by
    intro f hf
    simp only [digestFields, List.mem_cons, List.not_mem_nil, or_false] at hf
    rcases hf with rfl | rfl | rfl | rfl | rfl
    · exact hquotes _ (by simp)
    · exact hquotes _ (by simp)
    · exact hquotes _ (by simp)
    · exact hquotes _ (by simp)
    · exact notMem_chars hr (by decide)
  rw [RtspRequest.credentials, header_author, Option.map_some, Option.bind_some]
  exact readFields_write hfields

theorem says_asRead {s : SentRequest} (hauthor : s.author = response.isSome)
    (hresponse : ∀ r ∈ response, s.method.response s.globals para = some r) :
    Says para seqNum s (s.method.asRead s.globals para seqNum response) where
  method := rfl
  uri := rfl
  cseq := by
    rw [RtspRequest.cseq, RtspRequest.header, RequestMethod.asRead, numberHeader, List.lookup_cons_self,
      Option.bind_some, readNumber_digits]
  transport := by
    rw [header_own (by decide)]
    cases s.method with
    | OPTIONS => rfl
    | DESCRIBE => rfl
    | SETUP => exact List.lookup_cons_self
    | PLAY => simp [RequestMethod.ownHeaders, List.lookup_cons]
    | GET_PARAMETER => simp [RequestMethod.ownHeaders, List.lookup_cons]
  session := by
    rw [header_own (by decide)]
    cases s.method with
    | OPTIONS => rfl
    | DESCRIBE => rfl
    | SETUP => simp [RequestMethod.ownHeaders, List.lookup_cons]
    | PLAY => exact List.lookup_cons_self
    | GET_PARAMETER => exact List.lookup_cons_self
  plain := by
    intro hnot
    rw [hauthor, Option.isSome_eq_false_iff, Option.isNone_iff_eq_none] at hnot
    rw [header_author, hnot, Option.map_none]
  credentials := by
    intro hyes hquotes
    obtain ⟨r, rfl⟩ := Option.isSome_iff_exists.mp (hauthor.symm.trans hyes)
    have hr := hresponse r rfl
    exact ⟨r, hr, credentials_asRead (le_of_mem_response hr) hquotes⟩

end Reading

end Vcu
