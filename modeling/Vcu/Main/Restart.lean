import Vcu.DataSend
import Vcu.Lib.Machine
import Vcu.Main
import Vcu.Rtp.Bounds

namespace Vcu

open Machine

-- The connection thread and the packet parser with what they share.
structure System where
  dataSend : DataSend := {}
  thread : ParserThread := {}
  globals : Globals

inductive SystemEvent where
  | connection (event : ReceiveEvent)
  | packet (datagram : List UInt8)

-- The threads take turns between packets. A packet that faults ends the run.
def System.step (s : System) : SystemEvent → Option System
  | .connection event => do
      let (dataSend, restart) ← s.dataSend.receiveStep event
      return { s with
        dataSend := dataSend
        globals := if restart then s.globals.clear else s.globals }
  | .packet datagram => do
      let (call, thread) ←
        (handleDatagram s.globals.codecType s.dataSend.canSendBox datagram s.thread).toOption
      return { s with thread := thread, globals := call.elim s.globals s.globals.rtpCallback }

def System.init (type : CodecType) : System := { globals := { codecType := type } }

-- The first bytes pushed into the decoder are those of a parameter set.
def BeginsWithParameterSet (type : CodecType) (session : List (List UInt8)) : Prop :=
  ∀ data ∈ session.head?, ∃ rest, data = iden ++ startByte type :: rest

def Globals.AllBegin (g : Globals) : Prop :=
  ∀ session ∈ g.vcu.sessions ++ [g.vcu.pushed], BeginsWithParameterSet g.codecType session

-- The packet is not parsed under a start flag that is older than the decoder session, unless it
-- is a start packet itself.
def FreshStart : List SystemEvent → System → SystemEvent → Prop := fun _ s e =>
  ∀ datagram, e = .packet datagram → s.dataSend.canSendBox = true → s.globals.vcu.pushed = [] →
    s.thread.isStart = false ∨ byteAt datagram 12 = startByte s.globals.codecType

section Globals

variable {g : Globals}

@[simp] theorem codecType_clear : g.clear.codecType = g.codecType := rfl

@[simp] theorem vcu_clear : g.clear.vcu = g.vcu.restart := rfl

theorem pushTimestamp_frame (mark : Bool) (time : UInt32) :
    (g.pushTimestamp mark time).codecType = g.codecType ∧ (g.pushTimestamp mark time).vcu = g.vcu := by
  unfold Globals.pushTimestamp
  split
  · split
    · exact ⟨rfl, rfl⟩
    · exact ⟨rfl, rfl⟩
  · exact ⟨rfl, rfl⟩

@[simp] theorem codecType_rtpCallback (c : Callback) : (g.rtpCallback c).codecType = g.codecType :=
  (pushTimestamp_frame c.mark _).1

@[simp] theorem vcu_rtpCallback (c : Callback) : (g.rtpCallback c).vcu = g.vcu.pushData c.pdata :=
  (pushTimestamp_frame c.mark _).2

theorem allBegin_clear (h : g.AllBegin) : g.clear.AllBegin := by
  intro session hs
  rw [vcu_clear, VcuControl.restart] at hs
  rcases List.mem_append.mp hs with hs | hs
  · exact h session hs
  · rw [List.mem_singleton.mp hs]
    nofun

-- A push matters only when it is the first one of its session.
theorem allBegin_rtpCallback {c : Callback} (h : g.AllBegin)
    (hc : g.vcu.pushed = [] → ∃ rest, c.pdata = iden ++ startByte g.codecType :: rest) :
    (g.rtpCallback c).AllBegin := by
  intro session hs
  rw [vcu_rtpCallback, VcuControl.pushData] at hs
  rw [codecType_rtpCallback]
  rcases List.mem_append.mp hs with hs | hs
  · exact h session (List.mem_append_left _ hs)
  · rw [List.mem_singleton.mp hs]
    cases hp : g.vcu.pushed with
    | nil =>
        rintro data ⟨⟩
        exact hc hp
    | cons first rest =>
        have hlast := h g.vcu.pushed (by simp)
        rw [hp] at hlast
        exact hlast

end Globals

section Run

variable {s u : System} {e : SystemEvent} {before : List SystemEvent}

theorem connection_step {event : ReceiveEvent} (hu : s.step (.connection event) = some u) :
    u.thread = s.thread ∧ (u.globals = s.globals ∨ u.globals = s.globals.clear) := by
  simp only [System.step] at hu
  obtain ⟨⟨d, restart⟩, -, hu⟩ := Option.bind_eq_some_iff.mp hu
  obtain rfl := Option.some.inj hu
  cases restart
  · exact ⟨rfl, .inl rfl⟩
  · exact ⟨rfl, .inr rfl⟩

theorem packet_step {datagram : List UInt8} (hu : s.step (.packet datagram) = some u) :
    ∃ call, handleDatagram s.globals.codecType s.dataSend.canSendBox datagram s.thread =
        .ok (call, u.thread) ∧ u.dataSend = s.dataSend ∧
      u.globals = call.elim s.globals s.globals.rtpCallback := by
  simp only [System.step] at hu
  obtain ⟨⟨call, thread⟩, hd, hu⟩ := Option.bind_eq_some_iff.mp hu
  obtain rfl := Option.some.inj hu
  refine ⟨call, ?_, rfl, rfl⟩
  cases hh : handleDatagram s.globals.codecType s.dataSend.canSendBox datagram s.thread with
  | error f =>
      rw [hh] at hd
      cases hd
  | ok r =>
      rw [hh] at hd
      obtain rfl := Option.some.inj hd
      rfl

theorem codecType_step (hu : s.step e = some u) : u.globals.codecType = s.globals.codecType := by
  cases e with
  | connection event =>
      rcases (connection_step hu).2 with h | h
      · rw [h]
      · rw [h, codecType_clear]
  | packet datagram =>
      obtain ⟨call, -, -, hg⟩ := packet_step hu
      cases call with
      | none => rw [hg]; rfl
      | some c => rw [hg]; exact codecType_rtpCallback c

theorem allBegin_step (hi : Idle s.thread) (h : s.globals.AllBegin) (hg : FreshStart before s e)
    (hu : s.step e = some u) : Idle u.thread ∧ u.globals.AllBegin := by
  cases e with
  | connection event =>
      obtain ⟨ht, hglobals⟩ := connection_step hu
      refine ⟨by rwa [ht], ?_⟩
      rcases hglobals with heq | heq
      · rwa [heq]
      · rw [heq]
        exact allBegin_clear h
  | packet datagram =>
      obtain ⟨call, hd, -, hglobals⟩ := packet_step hu
      obtain ⟨hidle, hfirst⟩ := handleDatagram_inv hi hd
      refine ⟨hidle, ?_⟩
      rw [hglobals]
      cases call with
      | none => exact h
      | some c =>
          obtain ⟨hbox, hbegin⟩ := hfirst c rfl
          exact allBegin_rtpCallback h fun hp => hbegin (hg datagram rfl hbox hp)

theorem allBegin_run {type : CodecType} {es : List SystemEvent}
    (hg : Along System.step FreshStart (System.init type) es)
    (hr : run System.step (System.init type) es = some s) :
    s.globals.codecType = type ∧ s.globals.AllBegin := by
  have hidle : Idle (System.init type).thread := rfl
  have hbegin : (System.init type).globals.AllBegin := by
    intro session hs
    rw [List.mem_singleton.mp hs]
    nofun
  have hstep : ∀ es t e u, t.globals.codecType = type ∧ Idle t.thread ∧ t.globals.AllBegin →
      FreshStart es t e → t.step e = some u →
      u.globals.codecType = type ∧ Idle u.thread ∧ u.globals.AllBegin := by
    rintro es t e u ⟨ht, hi, hb⟩ hg hu
    exact ⟨(codecType_step hu).trans ht, allBegin_step hi hb hg hu⟩
  have hinv := run_invariant_along FreshStart
    (fun _ s => s.globals.codecType = type ∧ Idle s.thread ∧ s.globals.AllBegin)
    ⟨rfl, hidle, hbegin⟩ hstep hg hr
  exact ⟨hinv.1, hinv.2.2⟩

end Run

-- If no session begins under an old start flag, every session begins with a parameter set.
theorem restarts_begin (type : CodecType) (es : List SystemEvent) (s : System)
    (hg : Along System.step FreshStart (System.init type) es)
    (hr : run System.step (System.init type) es = some s) :
    ∀ session ∈ s.globals.vcu.sessions ++ [s.globals.vcu.pushed],
      BeginsWithParameterSet type session := by
  obtain ⟨ht, hb⟩ := allBegin_run hg hr
  subst ht
  exact hb

-- A request of the given type, in the 27 bytes that the server reads.
def request (frameType : UInt8) : List UInt8 :=
  [0x55, frameType] ++ List.replicate 24 0 ++ [0xAA]

-- A packet that holds a whole unit of H.264 with this header.
def unitPacket (header : UInt8) : List UInt8 :=
  [0x80, 0x60, 0, 1, 0, 0, 0, 0, 0, 0, 0, 1, header, 1]

-- A client connects and asks for boxes.
def session : List SystemEvent :=
  [.connection .advance, .connection .advance, .connection .connect, .connection .advance,
    .connection (.read (request PacketType.BOX))]

def firstSession : List SystemEvent := session ++ [.packet (unitPacket 0x67)]

-- A packet is parsed between two clients, which clears the flag.
def pausedSession : List SystemEvent :=
  firstSession ++ [.connection (.read []), .connection .advance, .packet (unitPacket 0x41)] ++ session.tail ++
    [.packet (unitPacket 0x41), .packet (unitPacket 0x67)]

def freshStartCheck (s : System) : SystemEvent → Bool
  | .connection _ => true
  | .packet datagram =>
      !s.dataSend.canSendBox || !s.thread.isStart || byteAt datagram 12 == startByte s.globals.codecType

theorem freshStart_of_check {before : List SystemEvent} {s : System} {e : SystemEvent}
    (h : freshStartCheck s e = true) : FreshStart before s e := by
  rintro datagram rfl hbox -
  simpa [freshStartCheck, hbox] using h

theorem restarts_begin_first :
    ∃ s, run System.step (System.init .H264) pausedSession = some s ∧
      s.globals.vcu.sessions = [[iden ++ [0x67, 1]]] ∧ s.globals.vcu.pushed = [iden ++ [0x67, 1]] ∧
      ∀ session ∈ s.globals.vcu.sessions ++ [s.globals.vcu.pushed], BeginsWithParameterSet .H264 session := by
  have hp : (run System.step (System.init .H264) pausedSession).map
      (fun s => (s.globals.vcu.sessions, s.globals.vcu.pushed)) =
        some ([[iden ++ [0x67, 1]]], [iden ++ [0x67, 1]]) := by
    decide +kernel
  obtain ⟨s, hr, hp⟩ := Option.map_eq_some_iff.mp hp
  obtain ⟨hsessions, hpushed⟩ := Prod.mk.inj hp
  have hg : Along System.step FreshStart (System.init .H264) pausedSession :=
    along_of_check freshStartCheck (fun _ _ _ => freshStart_of_check) (by decide +kernel)
  exact ⟨s, hr, hsessions, hpushed, restarts_begin .H264 pausedSession s hg hr⟩

-- The client leaves, and the next one is there before another packet comes.
def secondSession : List SystemEvent :=
  firstSession ++ .connection (.read []) :: session ++ [.packet (unitPacket 0x41)]

theorem stale_start :
    ¬ ∀ (type : CodecType) (es : List SystemEvent) (s : System),
      run System.step (System.init type) es = some s →
      ∀ session ∈ s.globals.vcu.sessions ++ [s.globals.vcu.pushed],
        BeginsWithParameterSet type session := by
  intro h
  have hp : (run System.step (System.init .H264) secondSession).map (·.globals.vcu.pushed) =
      some [iden ++ [0x41, 1]] := by
    decide +kernel
  obtain ⟨s, hr, hp⟩ := Option.map_eq_some_iff.mp hp
  obtain ⟨rest, he⟩ := h .H264 secondSession s hr s.globals.vcu.pushed (by simp) (iden ++ [0x41, 1])
    (by rw [hp]; rfl)
  simp [startByte] at he

end Vcu
