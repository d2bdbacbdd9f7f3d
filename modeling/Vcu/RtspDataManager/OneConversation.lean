import Mathlib.Data.List.Chain
import Vcu.RtspDataManager.Conversation
import Vcu.RtspDataManager.Variables

namespace Vcu

open Latest Machine

-- A request with its method and whether it has credentials.
def SentRequest.kind (r : SentRequest) : RequestMethod × Bool := (r.method, r.author)

-- The order of the requests. From the first one with credentials on, all of them have some.
inductive MayFollow : RequestMethod × Bool → RequestMethod × Bool → Prop
  | certify : MayFollow (.OPTIONS, false) (.OPTIONS, true)
  | describe {author author' : Bool} (h : author = true → author' = true) :
      MayFollow (.OPTIONS, author) (.DESCRIBE, author')
  | certifyLate : MayFollow (.DESCRIBE, false) (.DESCRIBE, true)
  | setup (author : Bool) : MayFollow (.DESCRIBE, author) (.SETUP, true)
  | play : MayFollow (.SETUP, true) (.PLAY, true)
  | alive : MayFollow (.PLAY, true) (.GET_PARAMETER, true)
  | stillAlive : MayFollow (.GET_PARAMETER, true) (.GET_PARAMETER, true)

-- Which request was the last one, where login stands.
def LoginPc.Behind (needCertify : Bool) (last : Option (RequestMethod × Bool)) : LoginPc → Prop
  | .sendOptions => last = none
  | .waitOptions => last = some (.OPTIONS, false)
  | .checkOptions => last = some (.OPTIONS, false)
  | .sendOptionsAuthor => last = some (.OPTIONS, false) ∧ needCertify = true
  | .waitOptionsAuthor => last = some (.OPTIONS, true) ∧ needCertify = true
  | .certified => last = some (.OPTIONS, false) ∨ last = some (.OPTIONS, true) ∧ needCertify = true
  | .sendDescribe isCertified => last = some (.OPTIONS, false) ∨ last = some (.OPTIONS, true) ∧ isCertified = true
  | .waitDescribe isCertified => last = some (.DESCRIBE, isCertified)
  | .checkDescribe isCertified => last = some (.DESCRIBE, isCertified)
  | .sendDescribeAuthor => last = some (.DESCRIBE, false)
  | .waitDescribeAuthor => last = some (.DESCRIBE, true)
  | .sendSetup => ∃ author, last = some (.DESCRIBE, author)
  | .waitSetup => last = some (.SETUP, true)
  | .done => last = some (.SETUP, true)

def Conversation.Behind (s : Conversation) (last : Option (RequestMethod × Bool)) : Prop :=
  match s.pc with
  | .login => s.session.pc.Behind s.session.globals.needCertify last
  | .waitPlay => s.session.pc = .done ∧ last = some (.PLAY, true)
  | .connectUdp => s.session.pc = .done ∧ last = some (.PLAY, true)
  | .reporting _ => s.session.pc = .done ∧ (last = some (.PLAY, true) ∨ last = some (.GET_PARAMETER, true))

-- The invariant of all runs: what the camera has said so far makes the variables, and each request was
-- built from what it had said by then.
structure Informed (s : Conversation) : Prop where
  heard : Heard s.session.parsed s.session.globals
  built : ∀ r ∈ s.sent, ∃ n ≤ s.session.parsed.length, Heard (s.session.parsed.take n) r.globals
  first : ∀ k ∈ (s.sent.map SentRequest.kind).head?, k = (.OPTIONS, false)
  order : (s.sent.map SentRequest.kind).IsChain MayFollow
  behind : s.Behind (s.sent.map SentRequest.kind).getLast?

section Run

variable {para : NetParaCfg} {s u : Conversation} {v w : Login} {last : Option (RequestMethod × Bool)}

theorem LoginPc.Behind.mono {a b : Bool} {pc : LoginPc} (hab : a = true → b = true) (h : pc.Behind a last) :
    pc.Behind b last := by
  cases pc with
  | sendOptionsAuthor => exact ⟨h.1, hab h.2⟩
  | waitOptionsAuthor => exact ⟨h.1, hab h.2⟩
  | certified => exact h.imp_right fun h => ⟨h.1, hab h.2⟩
  | sendOptions => exact h
  | waitOptions => exact h
  | checkOptions => exact h
  | sendDescribe _ => exact h
  | waitDescribe _ => exact h
  | checkDescribe _ => exact h
  | sendDescribeAuthor => exact h
  | waitDescribeAuthor => exact h
  | sendSetup => exact h
  | waitSetup => exact h
  | done => exact h

-- A step of login that sends nothing.
theorem behind_of_quiet (hquiet : v.pc.request = none) (h : v.pc.Behind v.globals.needCertify last)
    (hlogin : v.login = some w) : w.pc.Behind w.globals.needCertify last := by
  have hwait : ∀ {next}, v.semWait next = some w → next.Behind v.globals.needCertify last →
      w.pc.Behind w.globals.needCertify last := by
    intro next hw hnext
    obtain ⟨-, rfl⟩ := Login.semWait_spec hw
    exact hnext
  cases hpc : v.pc with
  | waitOptions =>
      rw [hpc] at h
      simp only [Login.login, hpc] at hlogin
      exact hwait hlogin h
  | checkOptions =>
      rw [hpc] at h
      simp only [Login.login, hpc] at hlogin
      cases hlogin
      cases hneed : v.globals.needCertify with
      | true => exact ⟨h, hneed⟩
      | false => exact .inl h
  | waitOptionsAuthor =>
      rw [hpc] at h
      simp only [Login.login, hpc] at hlogin
      exact hwait hlogin (.inr h)
  | certified =>
      rw [hpc] at h
      simp only [Login.login, hpc] at hlogin
      cases hlogin
      exact h
  | waitDescribe isCertified =>
      rw [hpc] at h
      simp only [Login.login, hpc] at hlogin
      exact hwait hlogin h
  | checkDescribe isCertified =>
      rw [hpc] at h
      simp only [Login.login, hpc] at hlogin
      cases hlogin
      cases hboth : v.globals.needCertify && !isCertified with
      | true =>
          rw [Bool.and_eq_true, Bool.not_eq_true'] at hboth
          rw [hboth.2] at h
          exact h
      | false => exact ⟨isCertified, h⟩
  | waitDescribeAuthor =>
      rw [hpc] at h
      simp only [Login.login, hpc] at hlogin
      exact hwait hlogin ⟨true, h⟩
  | waitSetup =>
      rw [hpc] at h
      simp only [Login.login, hpc] at hlogin
      exact hwait hlogin h
  | done =>
      simp only [Login.login, hpc] at hlogin
      cases hlogin
  | sendOptions => rw [hpc] at hquiet; cases hquiet
  | sendOptionsAuthor => rw [hpc] at hquiet; cases hquiet
  | sendDescribe isCertified => rw [hpc] at hquiet; cases hquiet
  | sendDescribeAuthor => rw [hpc] at hquiet; cases hquiet
  | sendSetup => rw [hpc] at hquiet; cases hquiet

-- A step of login that sends a request.
theorem behind_of_request {method : RequestMethod} {author : Bool} (hrequest : v.pc.request = some (method, author))
    (h : v.pc.Behind v.globals.needCertify last) (hlogin : v.login = some w) :
    (last = none → (method, author || method.signed) = (.OPTIONS, false)) ∧
      (∀ l ∈ last, MayFollow l (method, author || method.signed)) ∧
      w.pc.Behind w.globals.needCertify (some (method, author || method.signed)) := by
  cases hpc : v.pc with
  | sendOptions =>
      rw [hpc] at h hrequest
      simp only [Login.login, hpc] at hlogin
      cases hlogin
      cases hrequest
      obtain rfl : last = none := h
      exact ⟨fun _ => rfl, by simp, rfl⟩
  | sendOptionsAuthor =>
      rw [hpc] at h hrequest
      simp only [Login.login, hpc] at hlogin
      cases hlogin
      cases hrequest
      obtain ⟨rfl, hneed⟩ := h
      refine ⟨by simp, ?_, rfl, hneed⟩
      rintro l ⟨⟩
      exact .certify
  | sendDescribe isCertified =>
      rw [hpc] at h hrequest
      simp only [Login.login, hpc] at hlogin
      cases hlogin
      cases hrequest
      rw [RequestMethod.signed, Bool.or_false]
      rcases h with rfl | ⟨rfl, htrue⟩
      · refine ⟨by simp, ?_, rfl⟩
        rintro l ⟨⟩
        exact .describe (by simp)
      · refine ⟨by simp, ?_, rfl⟩
        rintro l ⟨⟩
        exact .describe fun _ => htrue
  | sendDescribeAuthor =>
      rw [hpc] at h hrequest
      simp only [Login.login, hpc] at hlogin
      cases hlogin
      cases hrequest
      obtain rfl : last = some (.DESCRIBE, false) := h
      refine ⟨by simp, ?_, rfl⟩
      rintro l ⟨⟩
      exact .certifyLate
  | sendSetup =>
      rw [hpc] at h hrequest
      simp only [Login.login, hpc] at hlogin
      split at hlogin
      · cases hlogin
      cases hlogin
      cases hrequest
      obtain ⟨author, rfl⟩ := h
      refine ⟨by simp, ?_, rfl⟩
      rintro l ⟨⟩
      exact .setup author
  | waitOptions => rw [hpc] at hrequest; cases hrequest
  | checkOptions => rw [hpc] at hrequest; cases hrequest
  | waitOptionsAuthor => rw [hpc] at hrequest; cases hrequest
  | certified => rw [hpc] at hrequest; cases hrequest
  | waitDescribe _ => rw [hpc] at hrequest; cases hrequest
  | checkDescribe _ => rw [hpc] at hrequest; cases hrequest
  | waitDescribeAuthor => rw [hpc] at hrequest; cases hrequest
  | waitSetup => rw [hpc] at hrequest; cases hrequest
  | done => rw [hpc] at hrequest; cases hrequest

theorem parser_needCertify {g g' : RtspGlobals} {t : List Char} {texts : List (List Char)} (h : Heard texts g)
    (hg : g.parser t = .ok g') (hneed : g.needCertify = true) : g'.needCertify = true := by
  rw [h.needCertify, Option.isSome_iff_exists] at hneed
  obtain ⟨challenge, hchallenge⟩ := hneed
  rw [challengeText] at hchallenge
  rw [(h.parser hg).needCertify, challengeText, List.find?_append, hchallenge]
  rfl

theorem Informed.init : Informed {} := ⟨Heard.init, nofun, nofun, .nil, rfl⟩

-- A step that sends nothing and lets the camera say nothing.
theorem Informed.of_eq (hs : Informed s) (hparsed : u.session.parsed = s.session.parsed)
    (hglobals : u.session.globals = s.session.globals) (hsent : u.sent = s.sent)
    (hbehind : u.Behind (s.sent.map SentRequest.kind).getLast?) : Informed u :=
  ⟨by rw [hparsed, hglobals]; exact hs.heard, by rw [hsent, hparsed]; exact hs.built,
    by rw [hsent]; exact hs.first, by rw [hsent]; exact hs.order, by rw [hsent]; exact hbehind⟩

-- A request that may follow.
theorem Informed.of_sent {r : SentRequest} (hs : Informed s) (hparsed : u.session.parsed = s.session.parsed)
    (hglobals : u.session.globals = s.session.globals) (hsent : u.sent = s.sent ++ [r])
    (hr : r.globals = s.session.globals)
    (hfirst : (s.sent.map SentRequest.kind).getLast? = none → r.kind = (.OPTIONS, false))
    (hfollow : ∀ l ∈ (s.sent.map SentRequest.kind).getLast?, MayFollow l r.kind)
    (hbehind : u.Behind (some r.kind)) : Informed u := by
  refine ⟨by rw [hparsed, hglobals]; exact hs.heard, ?_, ?_, ?_, ?_⟩
  · intro q hq
    rw [hsent] at hq
    rw [hparsed]
    rcases List.mem_append.mp hq with hq | hq
    · exact hs.built q hq
    · obtain rfl := List.mem_singleton.mp hq
      refine ⟨_, Nat.le_refl _, ?_⟩
      rw [List.take_length, hr]
      exact hs.heard
  · intro k hk
    rw [hsent, List.map_append, List.map_singleton] at hk
    cases hkinds : s.sent.map SentRequest.kind with
    | nil =>
        rw [hkinds] at hk hfirst
        cases hk
        exact hfirst rfl
    | cons k' kinds =>
        rw [hkinds] at hk
        refine hs.first k ?_
        rw [hkinds]
        exact hk
  · rw [hsent, List.map_append, List.map_singleton]
    refine hs.order.append (.singleton _) fun l hl k hk => ?_
    rw [List.head?_singleton] at hk
    cases hk
    exact hfollow l hl
  · rw [hsent, List.map_append, List.map_singleton, List.getLast?_concat]
    exact hbehind

theorem Informed.login (hs : Informed s) (h : s.login para = some u) : Informed u := by
  obtain ⟨v, hsent, session, hsession, rfl⟩ := Conversation.login_spec h
  have hbehind := hs.behind
  have hglobals := Login.login_globals hsession
  have hparsed : session.parsed = s.session.parsed := by
    rcases Login.login_spec hsession with ⟨-, method, author, next, -, rfl⟩ | ⟨-, -, next, -, rfl⟩ |
      ⟨-, next, -, rfl⟩
    · rfl
    · rfl
    · rfl
  have hpc : s.pc = .login := by
    unfold Conversation.Behind at hbehind
    have hdone : s.session.pc ≠ .done := by
      intro hdone
      simp only [Login.login, hdone] at hsession
      cases hsession
    cases hpc : s.pc with
    | login => rfl
    | waitPlay =>
        rw [hpc] at hbehind
        exact absurd hbehind.1 hdone
    | connectUdp =>
        rw [hpc] at hbehind
        exact absurd hbehind.1 hdone
    | reporting isReceived =>
        rw [hpc] at hbehind
        exact absurd hbehind.1 hdone
  simp only [Conversation.Behind, hpc] at hbehind
  rcases hsent with ⟨method, author, hrequest, hsend⟩ | ⟨hquiet, rfl⟩
  · obtain ⟨hfirst, hfollow, hnext⟩ := behind_of_request hrequest hbehind hsession
    obtain ⟨text, -, rfl⟩ := Conversation.send_spec hsend
    refine hs.of_sent hparsed hglobals rfl rfl hfirst hfollow ?_
    simp only [Conversation.Behind, hpc]
    exact hnext
  · refine hs.of_eq hparsed hglobals rfl ?_
    simp only [Conversation.Behind, hpc]
    exact behind_of_quiet hquiet hbehind hsession

theorem Informed.play (hs : Informed s) (h : s.play para = some u) : Informed u := by
  have hbehind := hs.behind
  unfold Conversation.play at h
  unfold Conversation.Behind at hbehind
  cases hpc : s.pc with
  | login =>
      rw [hpc] at h hbehind
      dsimp only at h hbehind
      split at h
      · rename_i hdone
        rw [hdone] at hbehind
        obtain ⟨v, hv, rfl⟩ := Option.map_eq_some_iff.mp h
        obtain ⟨text, -, rfl⟩ := Conversation.send_spec hv
        have hlast : (s.sent.map SentRequest.kind).getLast? = some (.SETUP, true) := hbehind
        refine hs.of_sent rfl rfl rfl rfl (by rw [hlast]; simp) ?_ ⟨hdone, rfl⟩
        rw [hlast]
        rintro l ⟨⟩
        exact .play
      · cases h
  | waitPlay =>
      rw [hpc] at h hbehind
      dsimp only at h hbehind
      split at h
      · cases h
      · cases h
        exact hs.of_eq rfl rfl rfl hbehind
  | connectUdp =>
      rw [hpc] at h hbehind
      dsimp only at h hbehind
      split at h
      · cases h
      · cases h
        exact hs.of_eq rfl rfl rfl ⟨hbehind.1, .inl hbehind.2⟩
  | reporting isReceived =>
      rw [hpc] at h
      cases h

theorem Informed.report (hs : Informed s) (h : s.report para = some u) : Informed u := by
  have hbehind := hs.behind
  unfold Conversation.report at h
  unfold Conversation.Behind at hbehind
  cases hpc : s.pc with
  | reporting isReceived =>
      rw [hpc] at h hbehind
      cases isReceived with
      | false =>
          cases h
          exact hs.of_eq rfl rfl rfl hbehind
      | true =>
          dsimp only at h hbehind
          split at h
          · obtain ⟨text, -, rfl⟩ := Conversation.send_spec h
            refine hs.of_sent rfl rfl rfl rfl ?_ ?_ ?_
            · rcases hbehind.2 with hlast | hlast
              · rw [hlast]
                simp
              · rw [hlast]
                simp
            · rcases hbehind.2 with hlast | hlast
              · rw [hlast]
                rintro l ⟨⟩
                exact .alive
              · rw [hlast]
                rintro l ⟨⟩
                exact .stillAlive
            · simp only [Conversation.Behind, hpc]
              exact ⟨hbehind.1, .inr rfl⟩
          · cases h
            exact hs
  | login => rw [hpc] at h; cases h
  | waitPlay => rw [hpc] at h; cases h
  | connectUdp => rw [hpc] at h; cases h

theorem Informed.parser (hs : Informed s) {session : Login} (h : s.session.parser = some session) :
    Informed { s with session := session } := by
  obtain ⟨bytes, globals, -, hglobals, rfl⟩ := Login.parser_spec h
  refine ⟨hs.heard.parser hglobals, fun r hr => ?_, hs.first, hs.order, ?_⟩
  · obtain ⟨n, hn, hheard⟩ := hs.built r hr
    refine ⟨n, ?_, ?_⟩
    · rw [List.length_append]
      exact Nat.le_add_right_of_le hn
    · dsimp only
      rw [List.take_append_of_le_length hn]
      exact hheard
  · have hbehind := hs.behind
    unfold Conversation.Behind at hbehind ⊢
    dsimp only
    cases hpc : s.pc with
    | login =>
        rw [hpc] at hbehind
        exact LoginPc.Behind.mono (parser_needCertify hs.heard hglobals) hbehind
    | waitPlay =>
        rw [hpc] at hbehind
        exact hbehind
    | connectUdp =>
        rw [hpc] at hbehind
        exact hbehind
    | reporting isReceived =>
        rw [hpc] at hbehind
        exact hbehind

theorem Informed.step {e : ConversationEvent} (hs : Informed s) (h : s.step para e = some u) : Informed u := by
  cases e with
  | login => exact hs.login h
  | receive bytes =>
      cases h
      exact hs.of_eq rfl rfl rfl hs.behind
  | read n =>
      obtain ⟨session, hsession, rfl⟩ := Option.map_eq_some_iff.mp h
      obtain ⟨-, -, rfl⟩ := Login.read_spec hsession
      exact hs.of_eq rfl rfl rfl hs.behind
  | parser =>
      obtain ⟨session, hsession, rfl⟩ := Option.map_eq_some_iff.mp h
      exact hs.parser hsession
  | post =>
      obtain ⟨session, hsession, rfl⟩ := Option.map_eq_some_iff.mp h
      obtain ⟨-, rfl⟩ := Login.post_spec hsession
      exact hs.of_eq rfl rfl rfl hs.behind
  | play => exact hs.play h
  | storeTime time =>
      cases h
      exact hs.of_eq rfl rfl rfl hs.behind
  | report => exact hs.report h

theorem Informed.run {es : List ConversationEvent} (h : run (Conversation.step para) {} es = some s) : Informed s :=
  run_invariant (fun _ s => Informed s) Informed.init (fun _ _ _ _ ht hu => ht.step hu) h

end Run

section Same

variable {texts more : List (List Char)} {g u : RtspGlobals}

-- The values of two moments of one conversation, when the earlier one has them.

end Same

end Vcu
