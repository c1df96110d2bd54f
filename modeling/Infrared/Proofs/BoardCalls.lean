import Infrared.Proofs.History
import Infrared.Proofs.Session.View

namespace Infrared

namespace Board

variable {ω : Type}

@[simp] theorem station_rename (b : Board ω) (name : List UInt8) :
    (b.rename name).2.station = b.station := rfl

theorem setName_eq (b : Board ω) (name : List UInt8) :
    (b.setName name).2.station = b.station ∧ (b.setName name).2.world = b.world := by
  rw [setName]
  split
  · exact ⟨rfl, rfl⟩
  · exact ⟨rfl, rfl⟩

theorem generateName_eq (b : Board ω) (chip : UInt32) :
    (b.generateName chip).2.station = b.station ∧ (b.generateName chip).2.world = b.world := by
  rw [generateName]
  split
  · exact ⟨rfl, rfl⟩
  · exact ⟨rfl, rfl⟩

variable [Platform ω]

@[simp] theorem station_announce (b : Board ω) (ssid password : List UInt8) :
    (b.announce ssid password).station = b.station := by
  rw [announce]
  split
  · rfl
  · rfl

theorem capture_of_not_armed {b : Board ω} (h : b.station.armed = false) (store : Buffer) :
    b.capture store = (none, b.tell .disableInterrupts, store) := by
  rw [capture, Station.capture_of_not_armed h]
  rfl

theorem capture_of_armed {b : Board ω} (h : b.station.armed = true) (store : Buffer) :
    ∃ report, (b.capture store).1 = some report ∧
      (b.capture store).2.1.station = { b.station with armed := false, cursor := report.count } := by
  refine ⟨_, by rw [capture, Station.capture_of_armed h], ?_⟩
  rw [capture, Station.capture_of_armed h]

section Calls

variable {ω : Type} [Platform ω] (b : Board (Traced ω))

theorem adds_tell (call : Call) : Traced.Adds [call] b.world (b.tell call).world :=
  Traced.adds_tell call b.world

theorem adds_resetStation : Traced.Adds [.disableInterrupts] b.world b.resetStation.world :=
  Traced.adds_tell _ _

theorem adds_armCapture :
    Traced.Adds [.input b.receivePin, .disableInterrupts, .clearEdge b.receivePin,
      .attachEdge b.receivePin, .enableInterrupts] b.world b.armCapture.world :=
  Traced.adds_tellAll _ _

theorem adds_transmit (frequency : UInt32) (pulses : List UInt8) :
    Traced.Adds (Waveform.calls b.sendPin (Waveform.halfPeriod frequency)
      (b.station.durations pulses)) b.world (b.transmit frequency pulses).world :=
  Traced.adds_tellAll _ _

theorem exists_adds_capture (store : Buffer) :
    ∃ count, Traced.Adds (.disableInterrupts :: Station.samples b.station.pin count) b.world
      (b.capture store).2.1.world :=
  b.station.exists_adds_capture store b.world

theorem adds_announce (ssid password : List UInt8) :
    Traced.Adds (if b.listener then [.configured b.name.filled ssid password] else []) b.world
      (b.announce ssid password).world := by
  rw [announce]
  split
  · exact Traced.adds_tell _ _
  · exact Traced.Adds.nil

end Calls

end Board

namespace Session.View

variable {ω : Type} [Platform ω]

@[simp] theorem station_apply (reply : Reply) (kept : List UInt8) (b : Board ω) :
    (apply reply kept b).station = b.station := by
  cases reply with
  | sent => rfl
  | captured count => rfl
  | configured name ssid password => simp [apply]

theorem adds_dismiss (connection : Connection) (b : Board (Traced ω)) :
    Traced.Adds [.close connection, .disableInterrupts] b.world (dismiss connection b).world :=
  (b.adds_tell (.close connection)).trans (b.tell (.close connection)).adds_resetStation

theorem exists_adds_apply (reply : Reply) (kept : List UInt8) (b : Board (Traced ω)) :
    ∃ calls, Traced.Adds calls b.world (apply reply kept b).world ∧
      ∀ call ∈ calls, ∃ name ssid password, call = .configured name ssid password := by
  cases reply with
  | sent => exact ⟨[], Traced.Adds.nil, by simp⟩
  | captured count => exact ⟨[], Traced.Adds.nil, by simp⟩
  | configured name ssid password =>
      refine ⟨_, (b.rename (name.of kept)).2.adds_announce (ssid.of kept) (password.of kept), ?_⟩
      intro call hcall
      split at hcall
      · exact ⟨_, _, _, List.mem_singleton.mp hcall⟩
      · simp at hcall

theorem sendings_dismiss (connection : Connection) (b : Board (Traced ω)) :
    (dismiss connection b).world.sendings = b.world.sendings := by
  apply (adds_dismiss connection b).sendings_eq
  simp [Call.IsSend]

/-- What comes of going on with a reply: its next piece was taken, or it was refused and the connection closed,
or there was none and the connection was closed. -/
theorem respond_cases (config : Config) (connection : Connection) (reply : Reply)
    (kept : List UInt8) (sent : Nat) (b : Board (Traced ω)) :
    (piece config reply kept sent ≠ [] ∧
      (respond config connection reply kept sent b).2.1 =
        response connection reply kept (sent + 1) ∧
      (respond config connection reply kept sent b).2.2.world.sendings =
        b.world.sendings ++ [⟨connection, piece config reply kept sent, true⟩]) ∨
    ((respond config connection reply kept sent b).2.1 = ready ∧
      (respond config connection reply kept sent b).2.2.world.sendings =
        b.world.sendings ++ [⟨connection, piece config reply kept sent, false⟩]) ∨
    (piece config reply kept sent = [] ∧
      (respond config connection reply kept sent b).2.1 = ready ∧
      ∃ calls, (∀ call ∈ calls, ∃ name ssid password, call = .configured name ssid password) ∧
        Traced.Adds (calls ++ [.close connection, .disableInterrupts]) b.world
          (respond config connection reply kept sent b).2.2.world) := by
  have hsendings := Traced.sendings_send connection (piece config reply kept sent) b.world
  simp only [respond]
  split
  · rename_i hempty
    obtain ⟨calls, hadds, hcalls⟩ := exists_adds_apply reply kept b
    exact .inr (.inr ⟨hempty, rfl, calls, hcalls, hadds.trans (adds_dismiss connection _)⟩)
  · rename_i hsome
    split
    · rename_i world hsend
      rw [hsend] at hsendings
      exact .inl ⟨hsome, rfl, hsendings⟩
    · rename_i world hsend
      rw [hsend] at hsendings
      exact .inr (.inl ⟨rfl, by rw [sendings_dismiss]; exact hsendings⟩)

theorem not_isSend_of_mem_configured {connection : Connection} {calls : List Call}
    (h : ∀ call ∈ calls, ∃ name ssid password, call = .configured name ssid password) :
    ∀ call ∈ calls ++ [.close connection, .disableInterrupts], ¬call.IsSend := by
  intro call hcall
  rw [List.mem_append] at hcall
  rcases hcall with hcall | hcall
  · obtain ⟨name, ssid, password, rfl⟩ := h call hcall
    exact id
  · simp only [List.mem_cons, List.not_mem_nil, or_false] at hcall
    rcases hcall with rfl | rfl
    · exact id
    · exact id

end Session.View

end Infrared
