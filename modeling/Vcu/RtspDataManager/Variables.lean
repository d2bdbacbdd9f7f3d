import Vcu.RtspDataManager.Branches

namespace Vcu

open Latest StdString

-- What a text looks like to parser.

def isChallenge (t : List Char) : Bool := (find t "Unauthorized".toList).isSome

def isAnswer (t : List Char) : Bool := (find t "Session: ".toList).isSome

def isDescription (t : List Char) : Bool :=
  (find t "v=".toList).isSome && (find t "a=control".toList).isSome && (find t "track".toList).isSome

def linesOf (t : List Char) : List (List Char) := splitString t "\r\n".toList

def partsOf (t : List Char) : List (List Char) := (linesOf t).flatMap fun line => splitString line [',']

-- The first text that refuses a request is the challenge. Of the others, the first one with a session
-- is the answer to SETUP, and the rest is looked through for descriptions of the stream.

def challengeText (texts : List (List Char)) : Option (List Char) := texts.find? isChallenge

def answerText (texts : List (List Char)) : Option (List Char) := (texts.eraseP isChallenge).find? isAnswer

def descriptions (texts : List (List Char)) : List (List Char) :=
  ((texts.eraseP isChallenge).eraseP isAnswer).filter isDescription

def tracks (texts : List (List Char)) : List (List Char) :=
  ((descriptions texts).flatMap linesOf).filterMap trackOf

-- The variables after these texts.
structure Heard (texts : List (List Char)) (g : RtspGlobals) : Prop where
  isfirst : g.isfirst = (challengeText texts).isNone
  needCertify : g.needCertify = (challengeText texts).isSome
  REALM : g.REALM = latest realmOf ((challengeText texts).toList.flatMap partsOf) []
  NONECE : g.NONECE = latest nonceOf ((challengeText texts).toList.flatMap partsOf) []
  isfirst2 : g.isfirst2 = (answerText texts).isNone
  SESSION : g.SESSION = latest sessionOf ((answerText texts).toList.flatMap linesOf) []
  RTCP_SERVER_PORT : g.RTCP_SERVER_PORT = latest portOf ((answerText texts).toList.flatMap linesOf) 0
  onlyVideo : g.onlyVideo = (tracks texts).isEmpty
  TRACK : g.TRACK = (tracks texts).head?.getD []
  TYPE : g.TYPE = latest codecOf ((descriptions texts).flatMap linesOf) .H264

section Texts

variable {texts : List (List Char)} {t : List Char} {g u : RtspGlobals}

-- A text that is not taken for the challenge leaves what is read of it alone.
theorem not_challenge (h : Heard texts g) (hnot : ¬ (isChallenge t && g.isfirst) = true) :
    challengeText (texts ++ [t]) = challengeText texts ∧
      (texts ++ [t]).eraseP isChallenge = texts.eraseP isChallenge ++ [t] := by
  refine of_not_first fun ht hnone => hnot ?_
  rw [ht, h.isfirst, challengeText, hnone]
  rfl

theorem heard_challenge (h : Heard texts g) (hfirst : g.isfirst = true) (ht : isChallenge t = true)
    (hu : g.challenge t = .ok u) : Heard (texts ++ [t]) u := by
  have hnone : texts.find? isChallenge = none := by
    rw [← Option.isNone_iff_eq_none]
    exact h.isfirst.symm.trans hfirst
  obtain ⟨htext, hrest⟩ := of_first hnone ht
  have hsame : texts.eraseP isChallenge = texts := List.eraseP_of_forall_not (List.find?_eq_none.mp hnone)
  have hchallenge : challengeText (texts ++ [t]) = some t := htext
  have hanswer : answerText (texts ++ [t]) = answerText texts := by rw [answerText, answerText, hrest, hsame]
  have hdescriptions : descriptions (texts ++ [t]) = descriptions texts := by
    rw [descriptions, descriptions, hrest, hsame]
  have hempty : challengeText texts = none := hnone
  have hrealm := h.REALM
  have hnonce := h.NONECE
  rw [hempty] at hrealm hnonce
  unfold RtspGlobals.challenge at hu
  obtain ⟨_, -, hu⟩ := of_bind_ok hu
  cases hu
  rw [RtspGlobals.foldl_challengePart_eq]
  refine ⟨by rw [hchallenge]; rfl, by rw [hchallenge]; rfl, ?_, ?_, ?_, ?_, ?_, ?_, ?_, ?_⟩
  · rw [hchallenge, Option.toList_some, List.flatMap_singleton]
    exact congrArg (latest realmOf (partsOf t)) hrealm
  · rw [hchallenge, Option.toList_some, List.flatMap_singleton]
    exact congrArg (latest nonceOf (partsOf t)) hnonce
  · rw [hanswer]
    exact h.isfirst2
  · rw [hanswer]
    exact h.SESSION
  · rw [hanswer]
    exact h.RTCP_SERVER_PORT
  · rw [tracks, hdescriptions]
    exact h.onlyVideo
  · rw [tracks, hdescriptions]
    exact h.TRACK
  · rw [hdescriptions]
    exact h.TYPE

theorem heard_answer (h : Heard texts g) (hnot : ¬ (isChallenge t && g.isfirst) = true) (hfirst : g.isfirst2 = true)
    (ht : isAnswer t = true) (hu : (linesOf t).foldlM RtspGlobals.sessionLine { g with isfirst2 := false } = .ok u) :
    Heard (texts ++ [t]) u := by
  obtain ⟨hchallenge, hothers⟩ := not_challenge h hnot
  have hnone : (texts.eraseP isChallenge).find? isAnswer = none := by
    rw [← Option.isNone_iff_eq_none]
    exact h.isfirst2.symm.trans hfirst
  obtain ⟨htext, hrest⟩ := of_first hnone ht
  have hanswer : answerText (texts ++ [t]) = some t := by rw [answerText, hothers, htext]
  have hdescriptions : descriptions (texts ++ [t]) = descriptions texts := by
    rw [descriptions, descriptions, hothers, hrest, List.eraseP_of_forall_not (List.find?_eq_none.mp hnone)]
  have hempty : answerText texts = none := hnone
  have hsession := h.SESSION
  have hport := h.RTCP_SERVER_PORT
  rw [hempty] at hsession hport
  rw [RtspGlobals.foldlM_sessionLine_eq (linesOf t) hu]
  refine ⟨?_, ?_, ?_, ?_, by rw [hanswer]; rfl, ?_, ?_, ?_, ?_, ?_⟩
  · rw [hchallenge]
    exact h.isfirst
  · rw [hchallenge]
    exact h.needCertify
  · rw [hchallenge]
    exact h.REALM
  · rw [hchallenge]
    exact h.NONECE
  · rw [hanswer, Option.toList_some, List.flatMap_singleton]
    exact congrArg (latest sessionOf (linesOf t)) hsession
  · rw [hanswer, Option.toList_some, List.flatMap_singleton]
    exact congrArg (latest portOf (linesOf t)) hport
  · rw [tracks, hdescriptions]
    exact h.onlyVideo
  · rw [tracks, hdescriptions]
    exact h.TRACK
  · rw [hdescriptions]
    exact h.TYPE

-- The rest of the texts: a description is read, and anything else is not.
theorem heard_rest (h : Heard texts g) (hnot : ¬ (isChallenge t && g.isfirst) = true)
    (hnot2 : ¬ (isAnswer t && g.isfirst2) = true) :
    Heard (texts ++ [t]) (if isDescription t then (linesOf t).foldl RtspGlobals.mediaLine g else g) := by
  obtain ⟨hchallenge, hothers⟩ := not_challenge h hnot
  obtain ⟨hanswer, hrest⟩ : ((texts.eraseP isChallenge) ++ [t]).find? isAnswer = answerText texts ∧
      ((texts.eraseP isChallenge) ++ [t]).eraseP isAnswer = (texts.eraseP isChallenge).eraseP isAnswer ++ [t] := by
    refine of_not_first fun ht hnone => hnot2 ?_
    rw [ht, h.isfirst2, answerText, hnone]
    rfl
  rw [← hothers] at hanswer hrest
  -- what is not looked through is no description
  have hmore : descriptions (texts ++ [t]) = descriptions texts ++ if isDescription t then [t] else [] := by
    rw [descriptions, hrest, List.filter_append, List.filter_singleton, Bool.cond_eq_ite]
    rfl
  have hflags : ∀ {track type onlyVideo}, onlyVideo = (tracks (texts ++ [t])).isEmpty →
      track = (tracks (texts ++ [t])).head?.getD [] →
      type = latest codecOf ((descriptions (texts ++ [t])).flatMap linesOf) .H264 →
      Heard (texts ++ [t]) { g with TRACK := track, TYPE := type, onlyVideo := onlyVideo } := by
    intro track type onlyVideo honly htrack htype
    refine ⟨?_, ?_, ?_, ?_, ?_, ?_, ?_, honly, htrack, htype⟩
    · rw [hchallenge]
      exact h.isfirst
    · rw [hchallenge]
      exact h.needCertify
    · rw [hchallenge]
      exact h.REALM
    · rw [hchallenge]
      exact h.NONECE
    · rw [answerText, hanswer]
      exact h.isfirst2
    · rw [answerText, hanswer]
      exact h.SESSION
    · rw [answerText, hanswer]
      exact h.RTCP_SERVER_PORT
  split
  · rename_i hdescription
    rw [if_pos hdescription] at hmore
    have hlines : (descriptions (texts ++ [t])).flatMap linesOf = (descriptions texts).flatMap linesOf ++ linesOf t := by
      rw [hmore, List.flatMap_append, List.flatMap_singleton]
    have htracks : tracks (texts ++ [t]) = tracks texts ++ (linesOf t).filterMap trackOf := by
      rw [tracks, hlines, List.filterMap_append]
      rfl
    rw [RtspGlobals.foldl_mediaLine_eq]
    refine hflags ?_ ?_ ?_
    · rw [htracks, h.onlyVideo]
      cases tracks texts with
      | nil => rfl
      | cons track more => rfl
    · rw [htracks, h.onlyVideo, h.TRACK]
      cases tracks texts with
      | nil => rfl
      | cons track more => rfl
    · rw [hlines, latest_append, h.TYPE]
  · rename_i hno
    rw [if_neg hno, List.append_nil] at hmore
    refine hflags ?_ ?_ ?_
    · rw [tracks, hmore]
      exact h.onlyVideo
    · rw [tracks, hmore]
      exact h.TRACK
    · rw [hmore]
      exact h.TYPE

theorem Heard.init : Heard [] {} := ⟨rfl, rfl, rfl, rfl, rfl, rfl, rfl, rfl, rfl, rfl⟩

theorem Heard.parser (h : Heard texts g) (hu : g.parser t = .ok u) : Heard (texts ++ [t]) u := by
  unfold RtspGlobals.parser at hu
  split at hu
  · rename_i hboth
    obtain ⟨ht, hfirst⟩ := Bool.and_eq_true_iff.mp hboth
    exact heard_challenge h hfirst ht hu
  · rename_i hnot
    split at hu
    · rename_i hboth
      obtain ⟨ht, hfirst⟩ := Bool.and_eq_true_iff.mp hboth
      exact heard_answer h hnot hfirst ht hu
    · rename_i hnot2
      have hrest := heard_rest h hnot hnot2
      split at hu
      · rename_i hdescription
        cases hu
        rw [if_pos (show isDescription t = true from hdescription)] at hrest
        exact hrest
      · rename_i hno
        cases hu
        rw [if_neg (show ¬ isDescription t = true from hno)] at hrest
        exact hrest

end Texts

end Vcu
