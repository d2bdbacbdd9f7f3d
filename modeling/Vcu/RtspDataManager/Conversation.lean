import Vcu.Common.Splitting
import Vcu.RtspDataManager.Branches
import Vcu.RtspDataManager.Login
import Vcu.RtspDataManager.Requests

namespace Vcu

open Machine Messages Runs StdString

-- Where the thread stands that sends: in login, in play, or in send_report_thread, which play starts.
inductive ConversationPc where
  | login
  | waitPlay
  | connectUdp
  | reporting (isReceived : Bool)
  deriving DecidableEq

-- The login with the requests as texts, and what comes behind it on the same connection. The login's
-- own lists of requests and responses are left alone by play and by the reports. `sent` is a history.
structure Conversation where
  session : Login := {}
  pc : ConversationPc := .login
  seqNum : Nat := 1
  SR_Time : UInt64 := 0
  sent : List SentRequest := []
  deriving DecidableEq

-- `receive` adds bytes of the camera to the connection, whatever they are and whenever they come.
-- `storeTime` is the arrival of a sender report.
inductive ConversationEvent where
  | login
  | receive (bytes : List Char)
  | read (n : Nat)
  | parser
  | post
  | play
  | storeTime (time : UInt64)
  | report

-- The request that login builds next, and whether it asks for credentials.
def LoginPc.request : LoginPc → Option (RequestMethod × Bool)
  | .sendOptions => some (.OPTIONS, false)
  | .sendOptionsAuthor => some (.OPTIONS, true)
  | .sendDescribe isCertified => some (.DESCRIBE, isCertified)
  | .sendDescribeAuthor => some (.DESCRIBE, true)
  | .sendSetup => some (.SETUP, true)
  | .waitOptions => none
  | .checkOptions => none
  | .waitOptionsAuthor => none
  | .certified => none
  | .waitDescribe _ => none
  | .checkDescribe _ => none
  | .waitDescribeAuthor => none
  | .waitSetup => none
  | .done => none

namespace Conversation

def send (para : NetParaCfg) (s : Conversation) (method : RequestMethod) (author : Bool) : Option Conversation :=
  (method.message s.session.globals para s.seqNum author).map fun text =>
    { s with
      seqNum := s.seqNum + 1
      sent := s.sent ++ [⟨method, author || method.signed, s.session.globals, text⟩] }

def sendNext (para : NetParaCfg) (s : Conversation) : Option Conversation :=
  match s.session.pc.request with
  | some (method, author) => s.send para method author
  | none => some s

def login (para : NetParaCfg) (s : Conversation) : Option Conversation := do
  let s ← s.sendNext para
  let session ← s.session.login
  some { s with session := session }

-- The check of the port ends the process when no answer has named one.
def play (para : NetParaCfg) (s : Conversation) : Option Conversation :=
  match s.pc with
  | .login =>
      if s.session.pc = .done then (s.send para .PLAY true).map fun s => { s with pc := .waitPlay } else none
  | .waitPlay =>
      if s.session.sem = 0 then none
      else some { s with session := { s.session with sem := s.session.sem - 1 }, pc := .connectUdp }
  | .connectUdp =>
      if s.session.globals.RTCP_SERVER_PORT = 0 then none else some { s with pc := .reporting false }
  | .reporting _ => none

-- A turn of send_report_thread asks the camera for a sign of life until a sender report has come, but
-- not in the first turn.
def report (para : NetParaCfg) (s : Conversation) : Option Conversation :=
  match s.pc with
  | .reporting false => some { s with pc := .reporting true }
  | .reporting true => if s.SR_Time = 0 then s.send para .GET_PARAMETER true else some s
  | .login => none
  | .waitPlay => none
  | .connectUdp => none

def step (para : NetParaCfg) (s : Conversation) : ConversationEvent → Option Conversation
  | .login => s.login para
  | .receive bytes => some { s with session := { s.session with inFlight := s.session.inFlight ++ bytes } }
  | .read n => (s.session.read n).map fun session => { s with session := session }
  | .parser => s.session.parser.map fun session => { s with session := session }
  | .post => s.session.post.map fun session => { s with session := session }
  | .play => s.play para
  | .storeTime time => some { s with SR_Time := time }
  | .report => s.report para

end Conversation

section Plain

variable {g u : RtspGlobals} {line : List Char}

theorem oneLine_nil : OneLine '\r' '\n' [] := ⟨List.not_mem_nil, List.not_mem_nil⟩

-- The variables start plain, and a response can only set them to parts of its lines.
theorem RtspGlobals.Plain.init : RtspGlobals.Plain {} := ⟨oneLine_nil, oneLine_nil, oneLine_nil, oneLine_nil⟩

theorem oneLine_of_mem_lines {response : List Char} (h : line ∈ splitString response "\r\n".toList) :
    OneLine '\r' '\n' line := by
  rw [splitString_eq_runs] at h
  have hnone := (of_mem_runs h).2.2
  exact ⟨fun hc => absurd (hnone _ hc) (by decide), fun hc => absurd (hnone _ hc) (by decide)⟩

theorem oneLine_of_mem_parts {c : Char} {part : List Char} (hline : OneLine '\r' '\n' line)
    (h : part ∈ splitString line [c]) : OneLine '\r' '\n' part := by
  rw [splitString_eq_runs] at h
  exact hline.sublist (of_mem_runs h).1.sublist

-- A value that a line sets is a part of the line.
theorem oneLine_getD {found : Option (List Char)} {d : List Char} (hd : OneLine '\r' '\n' d)
    (hfound : ∀ v, found = some v → OneLine '\r' '\n' v) : OneLine '\r' '\n' (found.getD d) := by
  cases found with
  | none => exact hd
  | some v => exact hfound v rfl

theorem RtspGlobals.Plain.challengePart (hg : g.Plain) (hline : OneLine '\r' '\n' line) :
    (g.challengePart line).Plain := by
  rw [RtspGlobals.challengePart_eq]
  refine ⟨?_, ?_, hg.session, hg.track⟩
  · exact oneLine_getD hg.realm fun v hv => hline.sublist (realmOf_sublist hv)
  · exact oneLine_getD hg.nonce fun v hv => hline.sublist (nonceOf_sublist hv)

theorem RtspGlobals.Plain.challenge {response : List Char} (hg : g.Plain) (h : g.challenge response = .ok u) :
    u.Plain := by
  unfold RtspGlobals.challenge at h
  obtain ⟨_, -, h⟩ := of_bind_ok h
  cases h
  refine List.foldlRecOn (motive := RtspGlobals.Plain) _ _ ⟨hg.realm, hg.nonce, hg.session, hg.track⟩ ?_
  intro v hv part hpart
  obtain ⟨line, hline, hpart⟩ := List.mem_flatMap.mp hpart
  exact hv.challengePart (oneLine_of_mem_parts (oneLine_of_mem_lines hline) hpart)

theorem RtspGlobals.Plain.sessionLine (hg : g.Plain) (hline : OneLine '\r' '\n' line)
    (h : g.sessionLine line = .ok u) : u.Plain := by
  obtain rfl := RtspGlobals.sessionLine_eq h
  refine ⟨hg.realm, hg.nonce, ?_, hg.track⟩
  refine oneLine_getD hg.session fun v hv => ?_
  obtain ⟨part, hpart, hsub⟩ := sessionOf_sublist hv
  exact (oneLine_of_mem_parts hline hpart).sublist hsub

theorem RtspGlobals.Plain.sessionLines (lines : List (List Char)) (hlines : ∀ line ∈ lines, OneLine '\r' '\n' line)
    (hg : g.Plain) (h : lines.foldlM RtspGlobals.sessionLine g = .ok u) : u.Plain := by
  induction lines generalizing g with
  | nil =>
      cases h
      exact hg
  | cons line lines ih =>
      rw [List.foldlM_cons] at h
      obtain ⟨v, hv, h⟩ := of_bind_ok h
      exact ih (fun l hl => hlines l (List.mem_cons_of_mem line hl))
        (hg.sessionLine (hlines line List.mem_cons_self) hv) h

theorem RtspGlobals.Plain.mediaLine (hg : g.Plain) (hline : OneLine '\r' '\n' line) : (g.mediaLine line).Plain := by
  rw [RtspGlobals.mediaLine_eq]
  refine ⟨hg.realm, hg.nonce, hg.session, ?_⟩
  dsimp only
  split
  · exact oneLine_getD hg.track fun v hv => hline.sublist (trackOf_sublist hv)
  · exact hg.track

theorem RtspGlobals.Plain.parser {response : List Char} (hg : g.Plain) (h : g.parser response = .ok u) :
    u.Plain := by
  unfold RtspGlobals.parser at h
  split at h
  · exact hg.challenge h
  · split at h
    · refine Plain.sessionLines _ (fun _ hl => oneLine_of_mem_lines hl) ?_ h
      exact ⟨hg.realm, hg.nonce, hg.session, hg.track⟩
    · split at h
      · cases h
        refine List.foldlRecOn (motive := RtspGlobals.Plain) _ _ hg ?_
        intro v hv line hline
        exact hv.mediaLine (oneLine_of_mem_lines hline)
      · cases h
        exact hg

end Plain

-- The text of a request is the one for its variables and its number.
structure Built (para : NetParaCfg) (seqNum : Nat) (r : SentRequest) : Prop where
  plain : r.globals.Plain
  text : ∃ author, r.author = (author || r.method.signed) ∧
    r.method.message r.globals para seqNum author = some r.text

-- The invariant of all runs.
structure Told (para : NetParaCfg) (s : Conversation) : Prop where
  plain : s.session.globals.Plain
  number : s.seqNum = s.sent.length + 1
  built : ∀ k r, s.sent[k]? = some r → Built para (k + 1) r

section Run

variable {para : NetParaCfg} {s u : Conversation}

theorem Conversation.send_spec {method : RequestMethod} {author : Bool} (h : s.send para method author = some u) :
    ∃ text, method.message s.session.globals para s.seqNum author = some text ∧
      u = { s with
        seqNum := s.seqNum + 1
        sent := s.sent ++ [⟨method, author || method.signed, s.session.globals, text⟩] } := by
  obtain ⟨text, htext, rfl⟩ := Option.map_eq_some_iff.mp h
  exact ⟨text, htext, rfl⟩

theorem Conversation.login_spec (h : s.login para = some u) :
    ∃ v, ((∃ method author, s.session.pc.request = some (method, author) ∧ s.send para method author = some v) ∨
        s.session.pc.request = none ∧ v = s) ∧
      ∃ session, s.session.login = some session ∧ u = { v with session := session } := by
  unfold Conversation.login at h
  obtain ⟨v, hv, h⟩ := Option.bind_eq_some_iff.mp h
  obtain ⟨session, hsession, h⟩ := Option.bind_eq_some_iff.mp h
  cases h
  unfold Conversation.sendNext at hv
  split at hv
  · rename_i method author hrequest
    refine ⟨v, .inl ⟨method, author, hrequest, hv⟩, session, ?_, rfl⟩
    obtain ⟨text, -, rfl⟩ := Conversation.send_spec hv
    exact hsession
  · rename_i hrequest
    cases hv
    exact ⟨s, .inr ⟨hrequest, rfl⟩, session, hsession, rfl⟩

theorem Login.login_globals {v w : Login} (h : v.login = some w) : w.globals = v.globals := by
  rcases Login.login_spec h with ⟨-, method, author, next, -, rfl⟩ | ⟨-, -, next, -, rfl⟩ | ⟨-, next, -, rfl⟩
  · rfl
  · rfl
  · rfl

theorem Told.init : Told para {} := ⟨RtspGlobals.Plain.init, rfl, by simp⟩

-- What happens to the session and to the places of the threads does not change what has been told.
theorem Told.of_eq (hs : Told para s) (hplain : u.session.globals.Plain) (hnumber : u.seqNum = s.seqNum)
    (hsent : u.sent = s.sent) : Told para u :=
  ⟨hplain, by rw [hnumber, hsent, hs.number], by rw [hsent]; exact hs.built⟩

theorem Told.send {method : RequestMethod} {author : Bool} (hs : Told para s)
    (h : s.send para method author = some u) : Told para u := by
  obtain ⟨text, htext, rfl⟩ := Conversation.send_spec h
  refine ⟨hs.plain, ?_, ?_⟩
  · simp only [List.length_append, List.length_singleton, hs.number]
  · intro k r hk
    rcases Nat.lt_trichotomy k s.sent.length with hlt | rfl | hgt
    · rw [List.getElem?_append_left hlt] at hk
      exact hs.built k r hk
    · rw [List.getElem?_concat_length] at hk
      obtain rfl := Option.some.inj hk
      exact ⟨hs.plain, author, rfl, hs.number ▸ htext⟩
    · rw [List.getElem?_eq_none (by simp only [List.length_append, List.length_singleton]; omega)] at hk
      cases hk

theorem Told.login (hs : Told para s) (h : s.login para = some u) : Told para u := by
  obtain ⟨v, hsent, session, hsession, rfl⟩ := Conversation.login_spec h
  have hglobals := Login.login_globals hsession
  have htold : Told para v ∧ v.session.globals = s.session.globals := by
    rcases hsent with ⟨method, author, -, hsend⟩ | ⟨-, rfl⟩
    · refine ⟨hs.send hsend, ?_⟩
      obtain ⟨text, -, rfl⟩ := Conversation.send_spec hsend
      rfl
    · exact ⟨hs, rfl⟩
  exact htold.1.of_eq (by rw [hglobals]; exact hs.plain) rfl rfl

theorem Told.play (hs : Told para s) (h : s.play para = some u) : Told para u := by
  unfold Conversation.play at h
  split at h
  · split at h
    · obtain ⟨v, hv, rfl⟩ := Option.map_eq_some_iff.mp h
      exact (hs.send hv).of_eq (hs.send hv).plain rfl rfl
    · cases h
  · split at h
    · cases h
    · cases h
      exact hs.of_eq hs.plain rfl rfl
  · split at h
    · cases h
    · cases h
      exact hs.of_eq hs.plain rfl rfl
  · cases h

theorem Told.report (hs : Told para s) (h : s.report para = some u) : Told para u := by
  unfold Conversation.report at h
  split at h
  · cases h
    exact hs.of_eq hs.plain rfl rfl
  · split at h
    · exact hs.send h
    · cases h
      exact hs
  · cases h
  · cases h
  · cases h

theorem Told.step {e : ConversationEvent} (hs : Told para s) (h : s.step para e = some u) : Told para u := by
  cases e with
  | login => exact hs.login h
  | receive bytes =>
      cases h
      exact hs.of_eq hs.plain rfl rfl
  | read n =>
      obtain ⟨session, hsession, rfl⟩ := Option.map_eq_some_iff.mp h
      obtain ⟨-, -, rfl⟩ := Login.read_spec hsession
      exact hs.of_eq hs.plain rfl rfl
  | parser =>
      obtain ⟨session, hsession, rfl⟩ := Option.map_eq_some_iff.mp h
      obtain ⟨bytes, globals, -, hglobals, rfl⟩ := Login.parser_spec hsession
      exact hs.of_eq (hs.plain.parser hglobals) rfl rfl
  | post =>
      obtain ⟨session, hsession, rfl⟩ := Option.map_eq_some_iff.mp h
      obtain ⟨-, rfl⟩ := Login.post_spec hsession
      exact hs.of_eq hs.plain rfl rfl
  | play => exact hs.play h
  | storeTime time =>
      cases h
      exact hs.of_eq hs.plain rfl rfl
  | report => exact hs.report h

theorem Told.run {es : List ConversationEvent} (h : run (Conversation.step para) {} es = some s) : Told para s :=
  run_invariant (fun _ s => Told para s) Told.init (fun _ _ _ _ ht hu => ht.step hu) h

-- One request on the wire.
theorem Built.read {seqNum : Nat} {r : SentRequest} (hpara : para.Plain) (hr : Built para seqNum r) :
    ∃ lines read, r.text = writeMessage '\r' '\n' lines ∧
      (∀ line ∈ lines, OneLine '\r' '\n' line ∧ line ≠ []) ∧ readRequest lines = some read ∧
      Says para seqNum r read := by
  obtain ⟨author, hauthor, htext⟩ := hr.text
  obtain ⟨response, hresponse, htext⟩ := message_spec r.method htext
  have hsome : r.author = response.isSome ∧ ∀ t ∈ response, r.method.response r.globals para = some t := by
    rw [← hauthor] at hresponse
    split at hresponse
    · rename_i hyes
      refine ⟨hyes.trans hresponse.2.symm, fun t ht => hresponse.1.trans ht⟩
    · rename_i hno
      subst hresponse
      exact ⟨Bool.eq_false_iff.mpr hno, nofun⟩
  obtain ⟨hlines, hread⟩ := requestLines_plain seqNum r.method hr.plain hpara
    fun t ht => le_of_mem_response (hsome.2 t ht)
  exact ⟨_, _, htext, hlines, hread, says_asRead hsome.1 hsome.2⟩

theorem exists_reads (hpara : para.Plain) (sent : List SentRequest) (n : Nat)
    (h : ∀ k r, sent[k]? = some r → Built para (n + k + 1) r) :
    ∃ (messages : List (List (List Char))) (requests : List RtspRequest),
      sent.flatMap SentRequest.text = messages.flatMap (writeMessage '\r' '\n') ∧
      (∀ lines ∈ messages, ∀ line ∈ lines, OneLine '\r' '\n' line ∧ line ≠ []) ∧
      messages.mapM readRequest = some requests ∧ requests.length = sent.length ∧
      ∀ k r m, sent[k]? = some r → requests[k]? = some m → Says para (n + k + 1) r m := by
  induction sent generalizing n with
  | nil => exact ⟨[], [], rfl, nofun, rfl, rfl, by simp⟩
  | cons r sent ih =>
      obtain ⟨lines, m, htext, hlines, hread, hsays⟩ := (h 0 r rfl).read hpara
      obtain ⟨messages, requests, htexts, hmessages, hreads, hlength, hall⟩ := ih (n + 1) fun k q hq => by
        have hbuilt := h (k + 1) q hq
        rw [show n + (k + 1) + 1 = n + 1 + k + 1 by omega] at hbuilt
        exact hbuilt
      refine ⟨lines :: messages, m :: requests, ?_, ?_, ?_, congrArg (· + 1) hlength, ?_⟩
      · rw [List.flatMap_cons, List.flatMap_cons, htext, htexts]
      · intro l hl
        rcases List.mem_cons.mp hl with rfl | hl
        · exact hlines
        · exact hmessages l hl
      · rw [List.mapM_cons, hread, hreads]
        rfl
      · intro k q p hq hp
        cases k with
        | zero =>
            obtain rfl := Option.some.inj hq
            obtain rfl := Option.some.inj hp
            exact hsays
        | succ k =>
            have hk := hall k q p hq hp
            rw [show n + 1 + k + 1 = n + (k + 1) + 1 by omega] at hk
            exact hk

end Run

-- Whatever the camera answers, the bytes on the connection are read back as the requests that were
-- meant, one for each that was sent, numbered from one on.
theorem requests_on_the_wire (para : NetParaCfg) (hpara : para.Plain) (es : List ConversationEvent)
    (s : Conversation) (h : run (Conversation.step para) {} es = some s) :
    ∃ requests, readRequests (s.sent.flatMap SentRequest.text) = some requests ∧
      requests.length = s.sent.length ∧
      ∀ k r m, s.sent[k]? = some r → requests[k]? = some m → Says para (k + 1) r m := by
  obtain ⟨messages, requests, htext, hmessages, hreads, hlength, hall⟩ :=
    exists_reads hpara s.sent 0 fun k r hk => by
      rw [Nat.zero_add]
      exact (Told.run h).built k r hk
  refine ⟨requests, ?_, hlength, fun k r m hr hm => ?_⟩
  · rw [readRequests, htext, read_write hmessages]
    exact hreads
  · have hsays := hall k r m hr hm
    rw [Nat.zero_add] at hsays
    exact hsays

-- A request of login, the bytes that come back, in one read, and the return of the wait.
def loginExchange (response : String) : List ConversationEvent :=
  [.login, .receive response.toList, .read response.toList.length, .parser, .post, .login]

def playExchange (response : String) : List ConversationEvent :=
  [.play, .receive response.toList, .read response.toList.length, .parser, .post, .play]

-- A camera with a password, up to the first sign of life.
def watchedCamera : List ConversationEvent :=
  loginExchange "RTSP/1.0 401 Unauthorized\r\nWWW-Authenticate: Digest realm=\"cam\",nonce=\"83\"\r\n\r\n" ++
    [.login] ++ loginExchange "RTSP/1.0 200 OK\r\nCSeq: 2\r\n\r\n" ++ [.login] ++
    loginExchange "RTSP/1.0 200 OK\r\n\r\nv=0\r\na=control:trackID=0\r\na=rtpmap:96 H265/90000\r\n" ++
    [.login] ++
    loginExchange "RTSP/1.0 200 OK\r\nSession: 7\r\nTransport: RTP/AVP;server_port=8000-8001\r\n\r\n" ++
    playExchange "RTSP/1.0 200 OK\r\nCSeq: 5\r\n\r\n" ++ [.play, .report, .report]

def gardenCamera : NetParaCfg where
  url := "rtsp://192.168.3.18:554/cam".toList
  cameraIP := "192.168.3.18".toList
  cameraPort := 554
  cameraUser := "admin".toList
  cameraPassword := "secret".toList
  rtpSendIP := "192.168.3.110".toList
  rtpSendPort := 8880
  boxSendIP := "192.168.3.110".toList
  boxSendPort := 7780

theorem requests_on_the_wire_watched : ∃ s, run (Conversation.step gardenCamera) {} watchedCamera = some s ∧
    s.sent.map (fun r => (r.method, r.author)) = [(.OPTIONS, false), (.OPTIONS, true), (.DESCRIBE, true),
      (.SETUP, true), (.PLAY, true), (.GET_PARAMETER, true)] ∧
    ∃ requests, readRequests (s.sent.flatMap SentRequest.text) = some requests ∧
      requests.length = s.sent.length ∧
      ∀ k r m, s.sent[k]? = some r → requests[k]? = some m → Says gardenCamera (k + 1) r m := by
  have hpara : gardenCamera.Plain := ⟨by decide, by decide⟩
  have hrun : (run (Conversation.step gardenCamera) {} watchedCamera).map (fun s => s.sent.map fun r =>
      (r.method, r.author)) = some [(.OPTIONS, false), (.OPTIONS, true), (.DESCRIBE, true),
        (.SETUP, true), (.PLAY, true), (.GET_PARAMETER, true)] := by decide +kernel
  obtain ⟨s, hs, hsent⟩ := Option.map_eq_some_iff.mp hrun
  exact ⟨s, hs, hsent, requests_on_the_wire gardenCamera hpara watchedCamera s hs⟩

end Vcu
