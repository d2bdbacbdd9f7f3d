import Vcu.Common.Searching
import Vcu.Lib.Latest
import Vcu.RtspDataManager.Parser

namespace Vcu

open Latest StdString

def controlKey : List Char := "a=control".toList

def trackKey : List Char := "track".toList

def h265 : List Char := "H265".toList

def h264 : List Char := "H264".toList

-- What one line of a response, or one part of a line, says about a variable.

def realmOf (part : List Char) : Option (List Char) :=
  (find part "realm=\"".toList).map (RtspGlobals.quoted part "realm=\"".toList)

def nonceOf (part : List Char) : Option (List Char) :=
  if (realmOf part).isSome then none
  else (find part "nonce=\"".toList).map (RtspGlobals.quoted part "nonce=\"".toList)

def sessionOf (line : List Char) : Option (List Char) :=
  if find line "Session: ".toList = some 0 then
    ((splitString line [';'])[0]?).map fun part => part.drop "Session: ".toList.length
  else none

def portOf (line : List Char) : Option Int :=
  if (find line "server_port=".toList).isSome then do
    let part ← (splitString line [';']).find? fun part => find part "server_port".toList = some 0
    let port ← (splitString part ['-'])[1]?
    some (atoi port)
  else none

-- The track that a line names, and the codec that it names. A line for the track is not looked at for
-- the codec.
def trackOf (line : List Char) : Option (List Char) :=
  if controlKey <:+: line then (find line trackKey).map fun pos => line.drop pos else none

def codecOf (line : List Char) : Option CodecType :=
  if controlKey <:+: line then none
  else if h265 <:+: line then some .H265
  else if h264 <:+: line then some .H264
  else none

section Sublists

variable {part line v : List Char}

theorem substr_to_end (s : List Char) (pos : Nat) : substr s pos (s.length - pos) = s.drop pos := by
  rw [substr, ← List.length_drop, List.take_length]

theorem substr_sublist (s : List Char) (pos count : Nat) : (substr s pos count).Sublist s :=
  (List.take_sublist _ _).trans (List.drop_sublist _ _)

theorem realmOf_sublist (h : realmOf part = some v) : v.Sublist part := by
  obtain ⟨pos, -, rfl⟩ := Option.map_eq_some_iff.mp h
  exact substr_sublist _ _ _

theorem nonceOf_sublist (h : nonceOf part = some v) : v.Sublist part := by
  unfold nonceOf at h
  split at h
  · cases h
  · obtain ⟨pos, -, rfl⟩ := Option.map_eq_some_iff.mp h
    exact substr_sublist _ _ _

-- The session comes from the first field of its line.
theorem sessionOf_sublist (h : sessionOf line = some v) : ∃ part ∈ splitString line [';'], v.Sublist part := by
  unfold sessionOf at h
  split at h
  · obtain ⟨part, hpart, rfl⟩ := Option.map_eq_some_iff.mp h
    exact ⟨part, List.mem_of_getElem? hpart, List.drop_sublist _ _⟩
  · cases h

theorem trackOf_sublist (h : trackOf line = some v) : v.Sublist line := by
  unfold trackOf at h
  split at h
  · obtain ⟨pos, -, rfl⟩ := Option.map_eq_some_iff.mp h
    exact List.drop_sublist _ _
  · cases h

end Sublists

namespace RtspGlobals

-- What each branch of parser does.

section Branches

variable {g u : RtspGlobals} {line : List Char}

theorem fservoCheck_ok {exp : String} {holds : Bool} {v : Unit} (h : fservoCheck exp holds = .ok v) :
    holds = true := by
  cases holds with
  | false => cases h
  | true => rfl

theorem challengePart_eq (g : RtspGlobals) (part : List Char) :
    g.challengePart part =
      { g with REALM := (realmOf part).getD g.REALM, NONECE := (nonceOf part).getD g.NONECE } := by
  unfold challengePart nonceOf realmOf
  cases find part "realm=\"".toList with
  | some pos => rfl
  | none =>
      cases find part "nonce=\"".toList with
      | some pos => rfl
      | none => rfl

theorem serverPort_eq (hline : (find line "server_port=".toList).isSome) (h : g.serverPort line = .ok u) :
    u = { g with RTCP_SERVER_PORT := (portOf line).getD g.RTCP_SERVER_PORT } := by
  unfold serverPort at h
  unfold portOf
  rw [if_pos hline]
  dsimp only at h ⊢
  split at h
  · rename_i hfind
    obtain ⟨v, hv, h⟩ := of_bind_ok h
    obtain ⟨_, -, h⟩ := of_bind_ok h
    cases hv
    cases h
    rw [hfind]
    rfl
  · rename_i part hfind
    obtain ⟨port, hport, h⟩ := of_bind_ok h
    obtain ⟨v, hv, h⟩ := of_bind_ok h
    obtain ⟨_, -, h⟩ := of_bind_ok h
    cases hv
    cases h
    unfold element at hport
    split at hport
    · rename_i str hstr
      cases hport
      rw [hfind, Option.bind_eq_bind, Option.bind_some, hstr]
      rfl
    · cases hport

theorem sessionId_eq (hline : find line "Session: ".toList = some 0) (h : g.sessionId line = .ok u) :
    u = { g with SESSION := (sessionOf line).getD g.SESSION } := by
  unfold sessionId at h
  unfold sessionOf
  rw [if_pos hline]
  obtain ⟨part, hpart, h⟩ := of_bind_ok h
  cases h
  unfold element at hpart
  split at hpart
  · rename_i str hstr
    cases hpart
    rw [hstr]
    simp only [substr_to_end, Option.map_some, Option.getD_some]
  · cases hpart

theorem sessionLine_eq (h : g.sessionLine line = .ok u) :
    u = { g with
      SESSION := (sessionOf line).getD g.SESSION
      RTCP_SERVER_PORT := (portOf line).getD g.RTCP_SERVER_PORT } := by
  have hport : ∀ {v : RtspGlobals},
      (if (find line "server_port=".toList).isSome then v.serverPort line else .ok v) = .ok u →
        u = { v with RTCP_SERVER_PORT := (portOf line).getD v.RTCP_SERVER_PORT } := by
    intro v hv
    split at hv
    · exact serverPort_eq ‹_› hv
    · rename_i hno
      cases hv
      rw [portOf, if_neg hno]
      rfl
  unfold sessionLine at h
  dsimp only at h
  split at h
  · rename_i hline
    obtain ⟨v, hv, h⟩ := of_bind_ok h
    obtain rfl := sessionId_eq hline hv
    exact hport h
  · rename_i hno
    obtain ⟨v, hv, h⟩ := of_bind_ok h
    cases hv
    rw [sessionOf, if_neg hno]
    exact hport h

theorem mediaLine_eq (g : RtspGlobals) (line : List Char) :
    g.mediaLine line = { g with
      TRACK := if g.onlyVideo then (trackOf line).getD g.TRACK else g.TRACK
      TYPE := (codecOf line).getD g.TYPE
      onlyVideo := g.onlyVideo && (trackOf line).isNone } := by
  unfold mediaLine trackOf codecOf
  rw [show "a=control".toList = controlKey from rfl, show "track".toList = trackKey from rfl,
    show "H265".toList = h265 from rfl, show "H264".toList = h264 from rfl]
  simp only [find_isSome_iff, substr_to_end]
  by_cases hcontrol : controlKey <:+: line
  · simp only [if_pos hcontrol]
    cases find line trackKey with
    | none => simp
    | some pos =>
        cases honly : g.onlyVideo with
        | false =>
            simp only [Bool.false_eq_true, if_false, Option.getD_none, Bool.false_and]
            rw [← honly]
        | true => rfl
  · simp only [if_neg hcontrol, Option.getD_none, Option.isNone_none, Bool.and_true, ite_self]
    split
    · rfl
    · split
      · rfl
      · rfl

-- What all lines of a text do together.

theorem foldl_challengePart_eq (parts : List (List Char)) (g : RtspGlobals) :
    parts.foldl challengePart g =
      { g with REALM := latest realmOf parts g.REALM, NONECE := latest nonceOf parts g.NONECE } := by
  induction parts generalizing g with
  | nil => rfl
  | cons part parts ih => rw [List.foldl_cons, ih, challengePart_eq, latest_cons, latest_cons]

theorem foldlM_sessionLine_eq (lines : List (List Char)) (h : lines.foldlM sessionLine g = .ok u) :
    u = { g with
      SESSION := latest sessionOf lines g.SESSION
      RTCP_SERVER_PORT := latest portOf lines g.RTCP_SERVER_PORT } := by
  induction lines generalizing g with
  | nil =>
      cases h
      rfl
  | cons line lines ih =>
      rw [List.foldlM_cons] at h
      obtain ⟨v, hv, h⟩ := of_bind_ok h
      obtain rfl := sessionLine_eq hv
      rw [ih h, latest_cons, latest_cons]

theorem foldl_mediaLine_eq (lines : List (List Char)) (g : RtspGlobals) :
    lines.foldl mediaLine g =
      { g with
        TRACK := if g.onlyVideo then ((lines.filterMap trackOf).head?).getD g.TRACK else g.TRACK
        TYPE := latest codecOf lines g.TYPE
        onlyVideo := g.onlyVideo && (lines.filterMap trackOf).isEmpty } := by
  induction lines generalizing g with
  | nil => simp
  | cons line lines ih =>
      rw [List.foldl_cons, ih, mediaLine_eq, latest_cons]
      cases htrack : trackOf line with
      | none => rw [List.filterMap_cons_none htrack]; simp
      | some track => rw [List.filterMap_cons_some htrack]; simp

end Branches

end RtspGlobals

end Vcu
