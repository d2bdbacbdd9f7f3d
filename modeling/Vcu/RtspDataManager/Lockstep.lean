import Vcu.Lib.Frames
import Vcu.RtspDataManager.Login

namespace Vcu

open Machine Frames

-- What the variables are when these responses have gone through parser, each as a whole.
def afterResponses (responses : List (List Char)) : Option RtspGlobals :=
  run (fun g response => (g.parser response).toOption) {} responses

-- The login does not outrun the server. A wait returns when parser has got all bytes of as many
-- responses, and a request is built from the whole responses to the earlier ones.
structure InStep (s : Login) : Prop where
  heard : s.waits ≤ complete s.responses s.parsed.flatten.length
  built : ∀ k request, s.requests[k]? = some request →
    afterResponses (s.responses.take k) = some request.globals

-- A read that returns something returns the last response, all of it and nothing else.
def WholeRead : List LoginEvent → Login → LoginEvent → Prop := fun _ s e =>
  ∀ n, e = .read n → 0 < n → s.responses.getLast? = some (s.inFlight.take n)

-- The response that receive_tcp_thread has read and not yet parsed.
def TcpPc.held : TcpPc → List (List Char)
  | .read => []
  | .parser bytes => [bytes]
  | .post => []

def TcpPc.unposted : TcpPc → Nat
  | .read => 0
  | .parser _ => 0
  | .post => 1

def inTransit (inFlight : List Char) : List (List Char) := if inFlight = [] then [] else [inFlight]

-- The invariant of the runs with whole reads. A parsed response is waited for, or counted by the
-- semaphore, or not yet posted.
structure Lockstep (s : Login) : Prop where
  stream : s.responses = s.parsed ++ s.tcp.held ++ inTransit s.inFlight
  posts : s.sem + s.waits + s.tcp.unposted = s.parsed.length
  requests : s.requests.length = s.waits + s.pc.waiting.toNat
  answered : s.responses.length ≤ s.requests.length
  long : ∀ response ∈ s.responses, 2 < response.length
  globals : afterResponses s.parsed = some s.globals
  built : ∀ k request, s.requests[k]? = some request →
    afterResponses (s.responses.take k) = some request.globals

section Lockstep

variable {s u : Login}

theorem Lockstep.parsed_prefix (hs : Lockstep s) : s.parsed <+: s.responses := by
  rw [hs.stream, List.append_assoc]
  exact List.prefix_append _ _

theorem Lockstep.waits_le (hs : Lockstep s) : s.waits ≤ s.parsed.length := by
  have := hs.posts
  omega

-- When every answer has been waited for, nothing is under way.
theorem Lockstep.idle (hs : Lockstep s) (h : s.responses.length ≤ s.waits) :
    s.responses = s.parsed ∧ s.tcp.held = [] ∧ s.inFlight = [] ∧ s.responses.length = s.waits := by
  have hlen := congrArg List.length hs.stream
  have hw := hs.waits_le
  rw [List.length_append, List.length_append] at hlen
  have hheld : s.tcp.held = [] := List.eq_nil_of_length_eq_zero (by omega)
  have htransit : inTransit s.inFlight = [] := List.eq_nil_of_length_eq_zero (by omega)
  refine ⟨?_, hheld, ?_, by omega⟩
  · rw [hs.stream, hheld, htransit, List.append_nil, List.append_nil]
  · unfold inTransit at htransit
    split at htransit
    · assumption
    · cases htransit

theorem Lockstep.inStep (hs : Lockstep s) : InStep s := by
  refine ⟨?_, hs.built⟩
  have hle := hs.parsed_prefix.length_le
  have hw := hs.waits_le
  refine le_complete (hw.trans hle) ?_
  obtain ⟨rest, hrest⟩ := hs.parsed_prefix
  rw [← hrest, List.take_append_of_le_length hw]
  exact ((List.take_prefix _ _).flatten).length_le

theorem Lockstep.init : Lockstep {} :=
  ⟨rfl, rfl, rfl, Nat.le_refl 0, nofun, rfl, nofun⟩

theorem Lockstep.send {method : RtspMethod} {author : Bool} {next : LoginPc} (hs : Lockstep s)
    (hpc : s.pc.waiting = false) (hnext : next.waiting = true) :
    Lockstep (s.send method author next) := by
  have hreq := hs.requests
  rw [hpc, Bool.toNat_false, Nat.add_zero] at hreq
  obtain ⟨heq, -, -, hlen⟩ := hs.idle (hreq ▸ hs.answered)
  refine ⟨hs.stream, hs.posts, ?_, ?_, hs.long, hs.globals, ?_⟩
  · simp only [Login.send, List.length_append, hreq, hnext]
    rfl
  · have := hs.answered
    simp only [Login.send, List.length_append]
    omega
  · intro k request hk
    simp only [Login.send] at hk ⊢
    by_cases hlast : k < s.requests.length
    · rw [List.getElem?_append_left hlast] at hk
      exact hs.built k request hk
    · -- the new request is built from all that has been parsed, and that is every response
      rw [List.getElem?_append_right (Nat.le_of_not_lt hlast)] at hk
      obtain ⟨hk0, rfl⟩ : k - s.requests.length = 0 ∧ ⟨method, author, s.globals⟩ = request := by
        cases hsub : k - s.requests.length with
        | zero =>
            rw [hsub] at hk
            exact ⟨rfl, Option.some.inj hk⟩
        | succ j =>
            rw [hsub] at hk
            cases hk
      rw [List.take_of_length_le (by omega), heq]
      exact hs.globals

theorem Lockstep.login (hs : Lockstep s) (h : s.login = some u) : Lockstep u := by
  rcases Login.login_spec h with ⟨hpc, method, author, next, hnext, rfl⟩ | ⟨hpc, hsem, next, hnext, rfl⟩ |
    ⟨hpc, next, hnext, rfl⟩
  · exact hs.send hpc hnext
  · have hreq := hs.requests
    have hposts := hs.posts
    rw [hpc, Bool.toNat_true] at hreq
    refine ⟨hs.stream, ?_, ?_, hs.answered, hs.long, hs.globals, hs.built⟩
    · simp only
      omega
    · simp only [hnext, Bool.toNat_false]
      omega
  · refine ⟨hs.stream, hs.posts, ?_, hs.answered, hs.long, hs.globals, hs.built⟩
    have hreq := hs.requests
    rw [hpc] at hreq
    simp only [Login.goto, hnext]
    exact hreq

theorem Lockstep.answer {response : List Char} (hs : Lockstep s) (h : s.answer response = some u) :
    Lockstep u := by
  obtain ⟨hlt, hlong, rfl⟩ := Login.answer_spec h
  have hreq := hs.requests
  have hbool := s.pc.waiting.toNat_le
  obtain ⟨heq, hheld, hnone, hlen⟩ := hs.idle (by omega)
  have hne : response ≠ [] := List.ne_nil_of_length_pos (by omega)
  refine ⟨?_, hs.posts, hs.requests, ?_, ?_, hs.globals, ?_⟩
  · simp only [hnone, hheld, heq, List.nil_append, List.append_nil, inTransit, if_neg hne]
  · simp only [List.length_append, List.length_singleton]
    omega
  · intro r hr
    rcases List.mem_append.mp hr with hr | hr
    · exact hs.long r hr
    · rw [List.mem_singleton.mp hr]
      exact hlong
  · intro k request hk
    have hk' : k < s.requests.length := (List.getElem?_eq_some_iff.mp hk).1
    rw [List.take_append_of_le_length (by omega)]
    exact hs.built k request hk

-- A whole read takes all that is in flight.
theorem Lockstep.read {n : Nat} (hs : Lockstep s)
    (hwhole : 0 < n → s.responses.getLast? = some (s.inFlight.take n)) (h : s.read n = some u) :
    Lockstep u := by
  obtain ⟨htcp, hle, rfl⟩ := Login.read_spec h
  have hstream := hs.stream
  have hposts := hs.posts
  rw [htcp] at hstream hposts
  by_cases hn : n = 0
  · subst hn
    refine ⟨?_, ?_, hs.requests, hs.answered, hs.long, hs.globals, hs.built⟩
    · exact hstream
    · exact hposts
  have hlast := hwhole (Nat.pos_of_ne_zero hn)
  have hne : s.inFlight ≠ [] := List.ne_nil_of_length_pos (by omega)
  have htake : s.inFlight.take n = s.inFlight := by
    rw [hstream, inTransit, if_neg hne, List.getLast?_concat] at hlast
    exact (Option.some.inj hlast).symm
  have hn2 : 2 < n := by
    have hlong := hs.long s.inFlight (List.mem_of_getLast? (htake ▸ hlast))
    rw [← htake, List.length_take] at hlong
    omega
  have hdrop : s.inFlight.drop n = [] := by
    refine List.drop_eq_nil_of_le ?_
    rw [← htake]
    exact List.length_take_le _ _
  refine ⟨?_, ?_, hs.requests, hs.answered, hs.long, hs.globals, hs.built⟩
  · simp only [if_pos hn2, hdrop, htake]
    rw [hstream]
    simp only [TcpPc.held, inTransit, if_neg hne, if_true, List.append_nil]
  · simp only [if_pos hn2]
    exact hposts

theorem Lockstep.parser (hs : Lockstep s) (h : s.parser = some u) : Lockstep u := by
  obtain ⟨bytes, globals, htcp, hp, rfl⟩ := Login.parser_spec h
  have hstream := hs.stream
  have hposts := hs.posts
  rw [htcp] at hstream hposts
  refine ⟨?_, ?_, hs.requests, hs.answered, hs.long, ?_, hs.built⟩
  · simp only [TcpPc.held, List.append_nil]
    exact hstream
  · simp only [TcpPc.unposted, List.length_append, List.length_singleton] at hposts ⊢
    omega
  · simp only [afterResponses]
    rw [run_concat, ← afterResponses, hs.globals, Option.bind_some, hp]
    rfl

theorem Lockstep.post (hs : Lockstep s) (h : s.post = some u) : Lockstep u := by
  obtain ⟨htcp, rfl⟩ := Login.post_spec h
  have hstream := hs.stream
  have hposts := hs.posts
  rw [htcp] at hstream hposts
  refine ⟨hstream, ?_, hs.requests, hs.answered, hs.long, hs.globals, hs.built⟩
  simp only [TcpPc.unposted] at hposts ⊢
  omega

theorem Lockstep.step {e : LoginEvent} (hs : Lockstep s) (hwhole : WholeRead [] s e)
    (h : s.step e = some u) : Lockstep u := by
  cases e with
  | login => exact hs.login h
  | answer response => exact hs.answer h
  | read n => exact hs.read (hwhole n rfl) h
  | parser => exact hs.parser h
  | post => exact hs.post h

-- With whole reads the login stays in step with the server.
theorem login_inStep (es : List LoginEvent) (s : Login)
    (hwhole : Along Login.step WholeRead {} es) (hr : run Login.step {} es = some s) : InStep s :=
  Lockstep.inStep (run_invariant_along WholeRead (fun _ s => Lockstep s) Lockstep.init
    (fun _ _ _ _ ht hwhole hu => ht.step hwhole hu) hwhole hr)

end Lockstep

def wholeReadCheck (s : Login) : LoginEvent → Bool
  | .read n => n == 0 || s.responses.getLast? == some (s.inFlight.take n)
  | .login => true
  | .answer _ => true
  | .parser => true
  | .post => true

theorem wholeRead_of_check (before : List LoginEvent) (s : Login) (e : LoginEvent)
    (h : wholeReadCheck s e = true) : WholeRead before s e := by
  rintro n rfl hn
  simp only [wholeReadCheck, Bool.or_eq_true, beq_iff_eq] at h
  exact h.resolve_left (Nat.ne_of_gt hn)

-- A request, its answer in one read, and the return of the wait.
def exchange (response : String) : List LoginEvent :=
  [.login, .answer response.toList, .read response.toList.length, .parser, .post, .login]

-- A login at a camera that wants a certificate.
def certifiedLogin : List LoginEvent :=
  exchange "RTSP/1.0 401 Unauthorized\r\nWWW-Authenticate: Digest realm=\"cam\",nonce=\"83\"\r\n\r\n" ++
    [.login] ++ exchange "RTSP/1.0 200 OK\r\nCSeq: 2\r\n\r\n" ++ [.login] ++
    exchange "RTSP/1.0 200 OK\r\n\r\nv=0\r\na=control:trackID=0\r\na=rtpmap:96 H265/90000\r\n" ++
    [.login] ++
    exchange "RTSP/1.0 200 OK\r\nSession: 7\r\nTransport: RTP/AVP;server_port=8000-8001\r\n\r\n"

theorem login_inStep_certified : ∃ s : Login, run Login.step {} certifiedLogin = some s ∧
    s.requests.map (fun r => (r.method, r.author)) =
      [(.OPTIONS, false), (.OPTIONS, true), (.DESCRIBE, true), (.SETUP, true)] ∧
    s.pc = .done ∧ InStep s := by
  have hboth : alongCheck Login.step wholeReadCheck {} certifiedLogin = true ∧
      (run Login.step {} certifiedLogin).map
        (fun s => (s.requests.map (fun r => (r.method, r.author)), s.pc)) =
          some ([(.OPTIONS, false), (.OPTIONS, true), (.DESCRIBE, true), (.SETUP, true)], .done) := by
    decide +kernel
  obtain ⟨s, hs, heq⟩ := Option.map_eq_some_iff.mp hboth.2
  obtain ⟨hreq, hpc⟩ := Prod.mk.inj heq
  refine ⟨s, hs, hreq, hpc, login_inStep certifiedLogin s ?_ hs⟩
  exact along_of_check wholeReadCheck wholeRead_of_check hboth.1

-- The answer to OPTIONS comes in two reads of 17 and 13 bytes.
def earlyReturn : List LoginEvent :=
  [.login, .answer "RTSP/1.0 200 OK\r\nCSeq: 1\r\n\r\n".toList, .read 17, .parser, .post, .login]

-- The wait returns after the first one, and the next request could be sent.
theorem login_early : ∃ s : Login, run Login.step {} earlyReturn = some s ∧ s.waits = 1 ∧
    s.inFlight = "CSeq: 1\r\n\r\n".toList ∧ ¬ InStep s := by
  have hrun : (run Login.step {} earlyReturn).map (fun s =>
      (s.waits, s.inFlight, complete s.responses s.parsed.flatten.length)) =
        some (1, "CSeq: 1\r\n\r\n".toList, 0) := by decide +kernel
  obtain ⟨s, hs, heq⟩ := Option.map_eq_some_iff.mp hrun
  obtain ⟨hwaits, heq⟩ := Prod.mk.inj heq
  obtain ⟨hflight, hcomplete⟩ := Prod.mk.inj heq
  refine ⟨s, hs, hwaits, hflight, ?_⟩
  intro h
  have hheard := h.heard
  rw [hwaits, hcomplete] at hheard
  exact absurd hheard (by decide)

end Vcu
