import Vcu.DataSend

namespace Vcu

-- From the clearing of the flag to the first read there is nobody who sets it.
def DataSend.FlagDown (d : DataSend) : Prop :=
  d.pc ≠ .clearBox → d.pc ≠ .read → d.canSendBox = false

section Receive

variable {d d' : DataSend} {e : ReceiveEvent} {restart : Bool}

theorem pc_request (d : DataSend) (frameType : UInt8) : (d.request frameType).pc = d.pc := by
  unfold DataSend.request
  split
  · rfl
  · split
    · rfl
    · rfl

theorem canSendBox_request {frameType : UInt8} (h : (d.request frameType).canSendBox = true) :
    d.canSendBox = true ∨ frameType = PacketType.BOX := by
  unfold DataSend.request at h
  split at h
  · exact .inl h
  · split at h
    · exact .inr ‹_›
    · exact .inl h

-- All that the receive thread can do in a step.
theorem receiveStep_cases (h : d.receiveStep e = some (d', restart)) :
    e = .advance ∧ d.pc = .clearBox ∧ d' = { d with canSendBox := false, pc := .clearCon } ∨
    e = .advance ∧ d.pc = .clearCon ∧ d' = { d with canSendCon := false, pc := .waitBeConnected } ∨
    e = .advance ∧ d.pc = .connected ∧ d' = { d with notFirst := true, pc := .read } ∨
    e = .connect ∧ d.pc = .waitBeConnected ∧ d' = { d with pc := .connected } ∨
    ∃ bytes, e = .read bytes ∧ d.pc = .read ∧
      (bytes.length = PACKET_HEAD_LEN + PACKET_END_LEN ∧ d' = d.request (bytes.getD 1 0) ∨
        d' = { d with pc := .clearBox } ∨ d' = d) := by
  cases e with
  | advance =>
      simp only [DataSend.receiveStep] at h
      split at h
      · exact .inl ⟨rfl, ‹_›, (Prod.mk.inj (Option.some.inj h)).1.symm⟩
      · exact .inr (.inl ⟨rfl, ‹_›, (Prod.mk.inj (Option.some.inj h)).1.symm⟩)
      · exact .inr (.inr (.inl ⟨rfl, ‹_›, (Prod.mk.inj (Option.some.inj h)).1.symm⟩))
      · cases h
      · cases h
  | connect =>
      simp only [DataSend.receiveStep] at h
      split at h
      · exact .inr (.inr (.inr (.inl ⟨rfl, ‹_›, (Prod.mk.inj (Option.some.inj h)).1.symm⟩)))
      · cases h
  | read bytes =>
      simp only [DataSend.receiveStep] at h
      split at h
      · cases h
      rename_i hpc
      refine .inr (.inr (.inr (.inr ⟨bytes, rfl, Decidable.not_not.mp hpc, ?_⟩)))
      split at h
      · exact .inl ⟨‹_›, (Prod.mk.inj (Option.some.inj h)).1.symm⟩
      · split at h
        · exact .inr (.inl (Prod.mk.inj (Option.some.inj h)).1.symm)
        · exact .inr (.inr (Prod.mk.inj (Option.some.inj h)).1.symm)

theorem flagDown_receiveStep (hd : d.FlagDown) (h : d.receiveStep e = some (d', restart)) :
    d'.FlagDown := by
  intro hclear hread
  rcases receiveStep_cases h with ⟨-, -, rfl⟩ | ⟨-, hpc, rfl⟩ | ⟨-, -, rfl⟩ | ⟨-, hpc, rfl⟩ |
    ⟨bytes, -, hpc, ⟨-, rfl⟩ | rfl | rfl⟩
  · rfl
  · exact hd (by simp [hpc]) (by simp [hpc])
  · exact absurd rfl hread
  · exact hd (by simp [hpc]) (by simp [hpc])
  · exact absurd ((pc_request _ _).trans hpc) hread
  · exact absurd rfl hclear
  · exact absurd hpc hread

-- The flag goes up at a request for boxes only.
theorem canSendBox_receiveStep (h : d.receiveStep e = some (d', restart))
    (hup : d'.canSendBox = true) :
    d.canSendBox = true ∨ ∃ bytes, e = .read bytes ∧
      bytes.length = PACKET_HEAD_LEN + PACKET_END_LEN ∧ bytes.getD 1 0 = PacketType.BOX := by
  rcases receiveStep_cases h with ⟨-, -, rfl⟩ | ⟨-, -, rfl⟩ | ⟨-, -, rfl⟩ | ⟨-, -, rfl⟩ |
    ⟨bytes, he, -, ⟨hlen, rfl⟩ | rfl | rfl⟩
  · cases hup
  · exact .inl hup
  · exact .inl hup
  · exact .inl hup
  · exact (canSendBox_request hup).imp_right fun hbox => ⟨bytes, he, hlen, hbox⟩
  · exact .inl hup
  · exact .inl hup

-- A client is accepted while the flag is down.
theorem canSendBox_connect (hd : d.FlagDown) (h : d.receiveStep .connect = some (d', restart)) :
    d'.canSendBox = false := by
  have hpc : d.pc = .waitBeConnected ∧ d' = { d with pc := .connected } := by
    simpa using receiveStep_cases h
  rw [hpc.2]
  exact hd (by simp [hpc.1]) (by simp [hpc.1])

end Receive

end Vcu
