import Vcu.Lib.Machine
import Vcu.RtspDataManager.Parser

namespace Vcu

inductive RtspMethod where
  | OPTIONS
  | DESCRIBE
  | SETUP
  deriving DecidableEq

-- A request, with the variables as they were when it was built.
structure LoginRequest where
  method : RtspMethod
  author : Bool
  globals : RtspGlobals
  deriving DecidableEq

-- Where login stands. `isCertified` is its local variable.
inductive LoginPc where
  | sendOptions
  | waitOptions
  | checkOptions
  | sendOptionsAuthor
  | waitOptionsAuthor
  | certified
  | sendDescribe (isCertified : Bool)
  | waitDescribe (isCertified : Bool)
  | checkDescribe (isCertified : Bool)
  | sendDescribeAuthor
  | waitDescribeAuthor
  | sendSetup
  | waitSetup
  | done
  deriving DecidableEq

-- Where receive_tcp_thread stands, with what it has read.
inductive TcpPc where
  | read
  | parser (bytes : List Char)
  | post
  deriving DecidableEq

-- The two threads and the server. `inFlight` holds the bytes of the responses that have not been
-- read. The lists of requests, of responses and of the reads that went through parser are
-- histories, and so is the number of waits that have returned.
structure Login where
  globals : RtspGlobals := {}
  sem : Nat := 0
  pc : LoginPc := .sendOptions
  tcp : TcpPc := .read
  inFlight : List Char := []
  requests : List LoginRequest := []
  responses : List (List Char) := []
  parsed : List (List Char) := []
  waits : Nat := 0
  deriving DecidableEq

-- `read n` is a return of recv with `n` bytes, or without any.
inductive LoginEvent where
  | login
  | answer (response : List Char)
  | read (n : Nat)
  | parser
  | post

-- The size of res_buffer.
def RES_BUFFER_LEN : Nat := 1024 * 24

namespace Login

def send (s : Login) (method : RtspMethod) (author : Bool) (next : LoginPc) : Login :=
  { s with pc := next, requests := s.requests ++ [⟨method, author, s.globals⟩] }

def semWait (s : Login) (next : LoginPc) : Option Login :=
  if s.sem = 0 then none else some { s with sem := s.sem - 1, pc := next, waits := s.waits + 1 }

def goto (s : Login) (next : LoginPc) : Login := { s with pc := next }

-- The check in get_setup_msg ends the process while there is no track.
def login (s : Login) : Option Login :=
  match s.pc with
  | .sendOptions => some (s.send .OPTIONS false .waitOptions)
  | .waitOptions => s.semWait .checkOptions
  | .checkOptions => some (s.goto (if s.globals.needCertify then .sendOptionsAuthor else .certified))
  | .sendOptionsAuthor => some (s.send .OPTIONS true .waitOptionsAuthor)
  | .waitOptionsAuthor => s.semWait .certified
  | .certified => some (s.goto (.sendDescribe s.globals.needCertify))
  | .sendDescribe isCertified => some (s.send .DESCRIBE isCertified (.waitDescribe isCertified))
  | .waitDescribe isCertified => s.semWait (.checkDescribe isCertified)
  | .checkDescribe isCertified =>
      some (s.goto (if s.globals.needCertify && !isCertified then .sendDescribeAuthor else .sendSetup))
  | .sendDescribeAuthor => some (s.send .DESCRIBE true .waitDescribeAuthor)
  | .waitDescribeAuthor => s.semWait .sendSetup
  | .sendSetup => if s.globals.TRACK = [] then none else some (s.send .SETUP true .waitSetup)
  | .waitSetup => s.semWait .done
  | .done => none

-- The server gives one response to each request. A response has a status line, so it is longer than
-- two bytes.
def answer (s : Login) (response : List Char) : Option Login :=
  if s.responses.length < s.requests.length ∧ 2 < response.length then
    some { s with inFlight := s.inFlight ++ response, responses := s.responses ++ [response] }
  else none

def read (s : Login) (n : Nat) : Option Login :=
  if s.tcp = .read ∧ n ≤ s.inFlight.length ∧ n ≤ RES_BUFFER_LEN then
    some { s with
      tcp := if 2 < n then .parser (s.inFlight.take n) else .read
      inFlight := s.inFlight.drop n }
  else none

def parser (s : Login) : Option Login :=
  match s.tcp with
  | .parser bytes =>
      (s.globals.parser bytes).toOption.map fun globals =>
        { s with globals := globals, tcp := .post, parsed := s.parsed ++ [bytes] }
  | .read => none
  | .post => none

def post (s : Login) : Option Login :=
  if s.tcp = .post then some { s with sem := s.sem + 1, tcp := .read } else none

def step (s : Login) : LoginEvent → Option Login
  | .login => s.login
  | .answer response => s.answer response
  | .read n => s.read n
  | .parser => s.parser
  | .post => s.post

end Login

def LoginPc.waiting : LoginPc → Bool
  | .waitOptions => true
  | .waitOptionsAuthor => true
  | .waitDescribe _ => true
  | .waitDescribeAuthor => true
  | .waitSetup => true
  | .sendOptions => false
  | .checkOptions => false
  | .sendOptionsAuthor => false
  | .certified => false
  | .sendDescribe _ => false
  | .checkDescribe _ => false
  | .sendDescribeAuthor => false
  | .sendSetup => false
  | .done => false

section Spec

variable {s u : Login}

theorem Login.semWait_spec {next : LoginPc} (h : s.semWait next = some u) :
    0 < s.sem ∧ u = { s with sem := s.sem - 1, pc := next, waits := s.waits + 1 } := by
  simp only [Login.semWait] at h
  split at h
  · cases h
  · rename_i hsem
    exact ⟨Nat.pos_of_ne_zero hsem, (Option.some.inj h).symm⟩

-- A step of login sends a request and begins to wait, or returns from a wait, or moves on.
theorem Login.login_spec (h : s.login = some u) :
    (s.pc.waiting = false ∧ ∃ method author next, next.waiting = true ∧ u = s.send method author next) ∨
    (s.pc.waiting = true ∧ 0 < s.sem ∧ ∃ next, next.waiting = false ∧
      u = { s with sem := s.sem - 1, pc := next, waits := s.waits + 1 }) ∨
    (s.pc.waiting = false ∧ ∃ next, next.waiting = false ∧ u = s.goto next) := by
  have hwait : ∀ {next}, s.pc.waiting = true → next.waiting = false → s.semWait next = some u →
      s.pc.waiting = true ∧ 0 < s.sem ∧ ∃ next, next.waiting = false ∧
        u = { s with sem := s.sem - 1, pc := next, waits := s.waits + 1 } := by
    intro next hpc hnext hw
    obtain ⟨hsem, rfl⟩ := Login.semWait_spec hw
    exact ⟨hpc, hsem, next, hnext, rfl⟩
  cases hpc : s.pc with
  | sendOptions =>
      simp only [Login.login, hpc] at h
      exact .inl ⟨rfl, _, _, _, rfl, (Option.some.inj h).symm⟩
  | waitOptions =>
      simp only [Login.login, hpc] at h
      exact .inr (.inl (hpc ▸ hwait (by rw [hpc]; rfl) rfl h))
  | checkOptions =>
      simp only [Login.login, hpc] at h
      refine .inr (.inr ⟨rfl, _, ?_, (Option.some.inj h).symm⟩)
      split
      · rfl
      · rfl
  | sendOptionsAuthor =>
      simp only [Login.login, hpc] at h
      exact .inl ⟨rfl, _, _, _, rfl, (Option.some.inj h).symm⟩
  | waitOptionsAuthor =>
      simp only [Login.login, hpc] at h
      exact .inr (.inl (hpc ▸ hwait (by rw [hpc]; rfl) rfl h))
  | certified =>
      simp only [Login.login, hpc] at h
      exact .inr (.inr ⟨rfl, _, rfl, (Option.some.inj h).symm⟩)
  | sendDescribe isCertified =>
      simp only [Login.login, hpc] at h
      exact .inl ⟨rfl, _, _, _, rfl, (Option.some.inj h).symm⟩
  | waitDescribe isCertified =>
      simp only [Login.login, hpc] at h
      exact .inr (.inl (hpc ▸ hwait (by rw [hpc]; rfl) rfl h))
  | checkDescribe isCertified =>
      simp only [Login.login, hpc] at h
      refine .inr (.inr ⟨rfl, _, ?_, (Option.some.inj h).symm⟩)
      split
      · rfl
      · rfl
  | sendDescribeAuthor =>
      simp only [Login.login, hpc] at h
      exact .inl ⟨rfl, _, _, _, rfl, (Option.some.inj h).symm⟩
  | waitDescribeAuthor =>
      simp only [Login.login, hpc] at h
      exact .inr (.inl (hpc ▸ hwait (by rw [hpc]; rfl) rfl h))
  | sendSetup =>
      simp only [Login.login, hpc] at h
      split at h
      · cases h
      · exact .inl ⟨rfl, _, _, _, rfl, (Option.some.inj h).symm⟩
  | waitSetup =>
      simp only [Login.login, hpc] at h
      exact .inr (.inl (hpc ▸ hwait (by rw [hpc]; rfl) rfl h))
  | done =>
      simp only [Login.login, hpc] at h
      cases h

theorem Login.answer_spec {response : List Char} (h : s.answer response = some u) :
    s.responses.length < s.requests.length ∧ 2 < response.length ∧
      u = { s with inFlight := s.inFlight ++ response, responses := s.responses ++ [response] } := by
  simp only [Login.answer] at h
  split at h
  · rename_i hc
    exact ⟨hc.1, hc.2, (Option.some.inj h).symm⟩
  · cases h

theorem Login.read_spec {n : Nat} (h : s.read n = some u) :
    s.tcp = .read ∧ n ≤ s.inFlight.length ∧
      u = { s with
        tcp := if 2 < n then .parser (s.inFlight.take n) else .read
        inFlight := s.inFlight.drop n } := by
  simp only [Login.read] at h
  split at h
  · rename_i hc
    exact ⟨hc.1, hc.2.1, (Option.some.inj h).symm⟩
  · cases h

theorem Login.parser_spec (h : s.parser = some u) :
    ∃ bytes globals, s.tcp = .parser bytes ∧ s.globals.parser bytes = .ok globals ∧
      u = { s with globals := globals, tcp := .post, parsed := s.parsed ++ [bytes] } := by
  simp only [Login.parser] at h
  split at h
  · rename_i bytes htcp
    obtain ⟨globals, hg, rfl⟩ := Option.map_eq_some_iff.mp h
    refine ⟨bytes, globals, htcp, ?_, rfl⟩
    cases hp : s.globals.parser bytes with
    | error f =>
        rw [hp] at hg
        cases hg
    | ok g =>
        rw [hp] at hg
        exact congrArg Except.ok (Option.some.inj hg)
  · cases h
  · cases h

theorem Login.post_spec (h : s.post = some u) :
    s.tcp = .post ∧ u = { s with sem := s.sem + 1, tcp := .read } := by
  simp only [Login.post] at h
  split at h
  · exact ⟨‹_›, (Option.some.inj h).symm⟩
  · cases h

end Spec

end Vcu
