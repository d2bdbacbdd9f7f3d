import Vcu.RtspDataManager.Challenge

namespace Vcu

open Runs StdString

def newline (c : Char) : Bool := "\r\n".toList.contains c

def controlLine (id : List Char) : List Char := controlKey ++ ':' :: (trackKey ++ id)

def NamesTrack (line : List Char) : Prop := controlKey <:+: line ∧ trackKey <:+: line

def codecName : CodecType → List Char
  | .H264 => h264
  | .H265 => h265

def otherCodec : CodecType → CodecType
  | .H264 => .H265
  | .H265 => .H264

def NamesCodec (codec : CodecType) (line : List Char) : Prop := codecName codec <:+: line

def Rtpmap (line : List Char) : Prop := "a=rtpmap:".toList <+: line ∧ ¬ controlKey <:+: line

instance (line : List Char) : Decidable (NamesTrack line) :=
  inferInstanceAs (Decidable (controlKey <:+: line ∧ trackKey <:+: line))

instance (codec : CodecType) (line : List Char) : Decidable (NamesCodec codec line) :=
  inferInstanceAs (Decidable (codecName codec <:+: line))

instance (line : List Char) : Decidable (Rtpmap line) :=
  inferInstanceAs (Decidable ("a=rtpmap:".toList <+: line ∧ ¬ controlKey <:+: line))

-- A media section, from the line m= on.
structure MediaSection where
  media : List Char
  front : List (List Char)
  id : List Char
  back : List (List Char)
  one_track : ∀ line ∈ ("m=".toList ++ media) :: (front ++ back), ¬ NamesTrack line

def MediaSection.lines (s : MediaSection) : List (List Char) :=
  ("m=".toList ++ s.media) :: (s.front ++ controlLine s.id :: s.back)

-- A reply with one video section. `session` holds the lines before the sections.
structure SdpReply where
  text : List Char
  session : List (List Char)
  before : List MediaSection
  video : MediaSection
  after : List MediaSection
  codec : CodecType
  text_lines : runs newline text = session ++ (before ++ video :: after).flatMap MediaSection.lines
  version : ∃ line ∈ session, "v=".toList <+: line
  session_track : ∀ line ∈ session, ¬ NamesTrack line
  one_video : "video".toList <+: video.media ∧ ∀ s ∈ before ++ after, ¬ "video".toList <+: s.media
  own_id : ∀ s ∈ before ++ after, s.id ≠ video.id
  rtpmap : ∃ line ∈ video.lines, Rtpmap line ∧ NamesCodec codec line
  one_codec : ∀ line ∈ video.lines, Rtpmap line → ¬ NamesCodec (otherCodec codec) line
  other_rtpmap : ∀ line ∈ session ++ (before ++ after).flatMap MediaSection.lines, Rtpmap line →
    ¬ NamesCodec .H264 line ∧ ¬ NamesCodec .H265 line

namespace SdpReply

structure VideoRead (r : SdpReply) : Prop where
  no_challenge : ¬ "Unauthorized".toList <:+: r.text
  no_session : ¬ "Session: ".toList <:+: r.text
  video_first : r.before = []
  codec_last : ((runs newline r.text).filterMap codecOf).getLast? = some r.codec

end SdpReply

section Sections

theorem controlLine_controlKey (id : List Char) : controlKey <:+: controlLine id := List.infix_append_left

theorem controlLine_trackKey (id : List Char) : trackKey <:+: controlLine id :=
  List.infix_append_of_infix_right (List.infix_cons List.infix_append_left)

theorem trackOf_control (id : List Char) : trackOf (controlLine id) = some (trackKey ++ id) := by
  have hkey : trackKey = "trac".toList ++ ['k'] := by decide
  have hbefore : ¬ trackKey <:+: controlKey ++ [':'] := by decide
  have heq : controlLine id = controlKey ++ [':'] ++ trackKey ++ id := by simp [controlLine]
  have hfind : find (controlLine id) trackKey = some (controlKey ++ [':']).length := by
    rw [heq]
    rw [hkey] at hbefore ⊢
    exact find_append_key (by decide) hbefore
  rw [trackOf, if_pos (controlLine_controlKey id), hfind, Option.map_some, heq, List.append_assoc,
    List.drop_left]

theorem trackOf_eq_none {line : List Char} (h : ¬ NamesTrack line) : trackOf line = none := by
  unfold trackOf
  by_cases hcontrol : controlKey <:+: line
  · rw [if_pos hcontrol, find_eq_none fun htrack => h ⟨hcontrol, htrack⟩]
    rfl
  · rw [if_neg hcontrol]

theorem filterMap_trackOf_eq_nil {lines : List (List Char)} (h : ∀ line ∈ lines, ¬ NamesTrack line) :
    lines.filterMap trackOf = [] :=
  List.filterMap_eq_nil_iff.mpr fun line hline => trackOf_eq_none (h line hline)

theorem filterMap_trackOf_lines (s : MediaSection) : s.lines.filterMap trackOf = [trackKey ++ s.id] := by
  have hone := s.one_track
  have hmedia := trackOf_eq_none (hone _ List.mem_cons_self)
  have hfront := filterMap_trackOf_eq_nil fun line hline =>
    hone line (List.mem_cons_of_mem _ (List.mem_append_left s.back hline))
  have hback := filterMap_trackOf_eq_nil fun line hline =>
    hone line (List.mem_cons_of_mem _ (List.mem_append_right s.front hline))
  rw [MediaSection.lines, List.filterMap_cons_none hmedia, List.filterMap_append, hfront, List.nil_append,
    List.filterMap_cons_some (trackOf_control s.id), hback]

theorem filterMap_trackOf_sections (sections : List MediaSection) :
    (sections.flatMap MediaSection.lines).filterMap trackOf = sections.map fun s => trackKey ++ s.id := by
  induction sections with
  | nil => rfl
  | cons s sections ih =>
      rw [List.flatMap_cons, List.filterMap_append, filterMap_trackOf_lines, ih]
      rfl

variable {r : SdpReply}

theorem SdpReply.tracks (r : SdpReply) :
    (runs newline r.text).filterMap trackOf =
      (r.before ++ r.video :: r.after).map fun s => trackKey ++ s.id := by
  rw [r.text_lines, List.filterMap_append, filterMap_trackOf_eq_nil r.session_track, List.nil_append,
    filterMap_trackOf_sections]

-- The track that the lines give is the one of the first section.
theorem SdpReply.TRACK_iff (r : SdpReply) :
    ((runs newline r.text).foldl RtspGlobals.mediaLine {}).TRACK = trackKey ++ r.video.id ↔
      r.before = [] := by
  rw [RtspGlobals.foldl_mediaLine_eq, r.tracks]
  simp only [if_true]
  cases hb : r.before with
  | nil => simp
  | cons s before =>
      have hid := r.own_id s (by rw [hb]; simp)
      simp only [List.cons_append, List.map_cons, List.head?_cons, Option.getD_some, reduceCtorEq,
        iff_false]
      exact fun heq => hid (List.append_cancel_left heq)

theorem mem_rtpmap_codecOf {line : List Char} {codec : CodecType} (hmap : Rtpmap line)
    (h : NamesCodec codec line) :
    (codecOf line).isSome := by
  unfold codecOf
  rw [if_neg hmap.2]
  cases codec with
  | H265 =>
      have h' : h265 <:+: line := h
      rw [if_pos h']
      rfl
  | H264 =>
      have h' : h264 <:+: line := h
      rw [if_pos h']
      split
      · rfl
      · rfl

theorem SdpReply.TYPE_iff (r : SdpReply) :
    ((runs newline r.text).foldl RtspGlobals.mediaLine {}).TYPE = r.codec ↔
      ((runs newline r.text).filterMap codecOf).getLast? = some r.codec := by
  obtain ⟨line, hline, hmap, hnames⟩ := r.rtpmap
  rw [RtspGlobals.foldl_mediaLine_eq, Latest.latest]
  dsimp only
  cases hlast : ((runs newline r.text).filterMap codecOf).getLast? with
  | some codec => rw [Option.getD_some, Option.some_inj]
  | none =>
      -- the rtpmap line of the video section names a codec
      rw [List.getLast?_eq_none_iff, List.filterMap_eq_nil_iff] at hlast
      have hmem : line ∈ runs newline r.text := by
        rw [r.text_lines]
        exact List.mem_append_right _ (List.mem_flatMap.mpr ⟨r.video, by simp, hline⟩)
      have hsome := mem_rtpmap_codecOf hmap hnames
      rw [hlast line hmem] at hsome
      cases hsome

theorem SdpReply.infix_text {line key : List Char} (hline : line ∈ runs newline r.text)
    (hkey : key <:+: line) :
    key <:+: r.text :=
  hkey.trans (of_mem_runs hline).1

theorem SdpReply.controlLine_mem (r : SdpReply) : controlLine r.video.id ∈ runs newline r.text := by
  rw [r.text_lines]
  refine List.mem_append_right _ (List.mem_flatMap.mpr ⟨r.video, by simp, ?_⟩)
  simp [MediaSection.lines]

end Sections

-- On a fresh start the reply gives the track and the codec of its video section exactly under these conditions.
theorem sdp_video_iff (r : SdpReply) :
    (∃ u, RtspGlobals.parser {} r.text = .ok u ∧ u.TRACK = trackKey ++ r.video.id ∧ u.TYPE = r.codec) ↔
      r.VideoRead := by
  have hne : ∀ id : List Char, ([] : List Char) ≠ trackKey ++ id := fun id => nofun
  unfold RtspGlobals.parser
  rw [splitString_eq_runs, show "a=control".toList = controlKey from rfl,
    show "track".toList = trackKey from rfl]
  simp only [Bool.and_true, Bool.and_eq_true, find_isSome_iff]
  by_cases hauth : "Unauthorized".toList <:+: r.text
  · -- the reply is taken for a challenge
    rw [if_pos hauth]
    constructor
    · rintro ⟨u, hu, htrack, -⟩
      obtain ⟨rfl, -⟩ := (challenge_ok_iff {} u r.text).mp hu
      rw [readPieces, RtspGlobals.foldl_challengePart_eq] at htrack
      exact absurd htrack (hne r.video.id)
    · intro h
      exact absurd hauth h.no_challenge
  rw [if_neg hauth]
  by_cases hsession : "Session: ".toList <:+: r.text
  · -- the reply is taken for the answer to SETUP
    rw [if_pos hsession]
    constructor
    · rintro ⟨u, hu, htrack, -⟩
      obtain rfl := RtspGlobals.foldlM_sessionLine_eq _ hu
      exact absurd htrack (hne r.video.id)
    · intro h
      exact absurd hsession h.no_session
  rw [if_neg hsession]
  -- the reply is read line by line
  have hversion : "v=".toList <:+: r.text := by
    obtain ⟨line, hline, hprefix⟩ := r.version
    refine r.infix_text ?_ hprefix.isInfix
    rw [r.text_lines]
    exact List.mem_append_left _ hline
  have hcontrol := r.infix_text r.controlLine_mem (controlLine_controlKey r.video.id)
  have htrack := r.infix_text r.controlLine_mem (controlLine_trackKey r.video.id)
  have hboth := and_congr r.TRACK_iff r.TYPE_iff
  rw [if_pos ⟨⟨hversion, hcontrol⟩, htrack⟩]
  constructor
  · rintro ⟨u, hu, hread⟩
    cases hu
    obtain ⟨hfirst, hlast⟩ := hboth.mp hread
    exact ⟨hauth, hsession, hfirst, hlast⟩
  · intro h
    exact ⟨_, rfl, hboth.mpr ⟨h.video_first, h.codec_last⟩⟩

def videoSection : MediaSection where
  media := "video 0 RTP/AVP 96".toList
  front := ["a=rtpmap:96 H265/90000".toList]
  id := "ID=0".toList
  back := []
  one_track := by decide +kernel

def audioSection : MediaSection where
  media := "audio 0 RTP/AVP 8".toList
  front := ["a=rtpmap:8 PCMA/8000".toList]
  id := "ID=1".toList
  back := []
  one_track := by decide +kernel

def sessionPart : List (List Char) :=
  ["RTSP/1.0 200 OK".toList, "v=0".toList, "s=Media".toList, "a=control:*".toList]

def replyText (sections : List MediaSection) : List Char :=
  (sessionPart ++ sections.flatMap MediaSection.lines).flatMap fun line => line ++ "\r\n".toList

def videoFirst : SdpReply where
  text := replyText [videoSection, audioSection]
  session := sessionPart
  before := []
  video := videoSection
  after := [audioSection]
  codec := .H265
  text_lines := by decide +kernel
  version := ⟨"v=0".toList, by decide, by decide⟩
  session_track := by decide +kernel
  one_video := by decide +kernel
  own_id := by decide
  rtpmap := ⟨"a=rtpmap:96 H265/90000".toList, by decide, by decide +kernel⟩
  one_codec := by decide +kernel
  other_rtpmap := by decide +kernel

theorem sdp_video_iff_videoFirst :
    ∃ u, RtspGlobals.parser {} videoFirst.text = .ok u ∧ u.TRACK = "trackID=0".toList ∧ u.TYPE = .H265 := by
  refine (sdp_video_iff videoFirst).mpr ⟨?_, ?_, rfl, ?_⟩
  · decide +kernel
  · decide +kernel
  · decide +kernel

def audioFirst : SdpReply where
  text := replyText [audioSection, videoSection]
  session := sessionPart
  before := [audioSection]
  video := videoSection
  after := []
  codec := .H265
  text_lines := by decide +kernel
  version := ⟨"v=0".toList, by decide, by decide⟩
  session_track := by decide +kernel
  one_video := by decide +kernel
  own_id := by decide
  rtpmap := ⟨"a=rtpmap:96 H265/90000".toList, by decide, by decide +kernel⟩
  one_codec := by decide +kernel
  other_rtpmap := by decide +kernel

theorem audio_set_up :
    (RtspGlobals.parser {} audioFirst.text).toOption.map (fun u => (u.TRACK, u.TYPE)) =
      some ("trackID=1".toList, .H265) ∧ audioFirst.video.id = "ID=0".toList := by
  decide +kernel

end Vcu
