import Infrared.Proofs.Device.Waiting

namespace Infrared

variable {ω : Type}

namespace Beacon

/-- Whether a beacon is that of a device with the configuration, which runs or does not. -/
structure Serves (config : Config) (running : Bool) (b : Beacon) : Prop where
  port_eq : b.port = config.beaconPort
  interval_eq : b.interval = config.beaconInterval
  running_eq : b.running = running

theorem Serves.pack {config : Config} {running : Bool} {b : Beacon} (h : b.Serves config running)
    (servicePort : UInt16) (name : List UInt8) : (b.pack servicePort name).2.Serves config running := by
  simp only [Beacon.pack]
  split
  · split
    · exact ⟨h.port_eq, h.interval_eq, h.running_eq⟩
    · exact ⟨h.port_eq, h.interval_eq, h.running_eq⟩
  · exact ⟨h.port_eq, h.interval_eq, h.running_eq⟩

/-- What a beacon does when its timer runs out while the device runs. -/
theorem Serves.tickCalls_eq {config : Config} {b : Beacon} (h : b.Serves config true) :
    b.tickCalls =
      (if b.payload.data = [] then [] else [.broadcast config.beaconPort b.payload.data]) ++
        [.arm config.beaconInterval] := by
  simp only [tickCalls, h.port_eq, h.interval_eq, h.running_eq, if_true, List.isEmpty_iff]

end Beacon

/-- Whether a property of boards does not look at the world or the station, and outlasts a change of name. A
session keeps such a property, whatever it does. -/
structure Board.Lasting (P : Board ω → Prop) : Prop where
  on : ∀ {b : Board ω}, P b → ∀ station world, P { b with station := station, world := world }
  rename : ∀ {b : Board ω}, P b → ∀ name, P (b.rename name).2

namespace Board.Lasting

variable [Platform ω] {P : Board ω → Prop} {b : Board ω} (hP : Lasting P)

include hP

theorem dismiss (h : P b) (connection : Connection) : P (Session.View.dismiss connection b) :=
  hP.on h _ _

theorem apply (h : P b) (reply : Reply) (kept : List UInt8) : P (Session.View.apply reply kept b) := by
  cases reply with
  | sent => exact h
  | captured count => exact h
  | configured name ssid password =>
      simp only [Session.View.apply, Board.announce]
      split
      · exact hP.on (hP.rename h _) _ _
      · exact hP.rename h _

theorem respond (h : P b) (config : Config) (connection : Connection) (reply : Reply)
    (kept : List UInt8) (sent : Nat) :
    P (Session.View.respond config connection reply kept sent b).2.2 := by
  simp only [Session.View.respond]
  split
  · exact hP.dismiss (hP.apply h reply kept) connection
  · split
    · exact hP.on h _ _
    · exact hP.dismiss (hP.on h _ _) connection

theorem run (h : P b) (config : Config) (v : Session.View) : P (v.run config b).2.2 := by
  cases v with
  | process connection request kept =>
      cases request with
      | send frequency => exact hP.respond (hP.on h _ _) config connection .sent kept 0
      | config name ssid password => exact hP.respond h config connection _ kept 0
      | receive report =>
          cases report with
          | some report => exact hP.respond h config connection _ kept 0
          | none =>
              simp only [Session.View.run]
              split
              · exact h
              · exact hP.on h _ _
  | ready => exact h
  | request connection received => exact h
  | response connection reply kept sent => exact h

theorem receive (h : P b) (config : Config) (data : List UInt8) (v : Session.View) :
    P (v.receive config data b).2.2 := by
  cases v with
  | request connection received =>
      simp only [Session.View.receive]
      split
      · exact hP.dismiss h connection
      · split
        · exact h
        · exact h
        · exact hP.dismiss h connection
  | ready => exact h
  | process connection request kept => exact h
  | response connection reply kept sent => exact h

theorem sent (h : P b) (config : Config) (v : Session.View) : P (v.sent config b).2.2 := by
  cases v with
  | response connection reply kept sent => exact hP.respond h config connection reply kept sent
  | ready => exact h
  | request connection received => exact h
  | process connection request kept => exact h

theorem edge (h : P b) (config : Config) (v : Session.View) : P (v.edge config b).2.2 := by
  have hcapture : P (b.capture (Buffer.new config.scratchLength)).2.1 := hP.on h _ _
  rcases hanswer : b.capture (Buffer.new config.scratchLength) with ⟨report, board, store⟩
  rw [hanswer] at hcapture
  simp only [Session.View.edge, hanswer]
  cases report with
  | none => exact hcapture
  | some report =>
      dsimp only
      split
      · exact hcapture
      · exact hcapture

end Board.Lasting

namespace Device

theorem lasting_serves (config : Config) (running : Bool) :
    Board.Lasting (fun b : Board ω => b.beacon.Serves config running) :=
  ⟨fun h _ _ => h, fun h _ => h.pack _ _⟩

variable [Platform ω]

/-- What every session keeps is kept in every event. -/
theorem View.lasting_handle {P : Board (Traced ω) → Prop} (hP : Board.Lasting P) {v : View (Traced ω)}
    (h : P v.board) (event : Event) : P (v.handle event).board := by
  cases event with
  | connect connection =>
      simp only [View.handle, View.connect]
      split
      · exact h
      · exact hP.on h _ _
  | receive connection data =>
      simp only [View.handle]
      split
      · exact hP.receive h v.config data v.session
      · exact h
  | sent connection =>
      simp only [View.handle]
      split
      · exact hP.sent h v.config v.session
      · exact h
  | disconnect connection =>
      simp only [View.handle]
      split
      · exact hP.on h _ _
      · exact h
  | edge => exact hP.edge h v.config v.session
  | timer => exact hP.on h _ _

theorem View.running_handle (v : View (Traced ω)) (event : Event) :
    (v.handle event).running = v.running := by
  cases event with
  | connect connection =>
      simp only [View.handle, View.connect]
      split
      · rfl
      · rfl
  | receive connection data =>
      simp only [View.handle]
      split
      · rfl
      · rfl
  | sent connection =>
      simp only [View.handle]
      split
      · rfl
      · rfl
  | disconnect connection =>
      simp only [View.handle]
      split
      · rfl
      · rfl
  | edge => rfl
  | timer => rfl

theorem View.serves_perform {v : View (Traced ω)} (h : v.board.beacon.Serves v.config v.running)
    (op : Operation ω) :
    (v.perform op).2.board.beacon.Serves v.config (v.perform op).2.running := by
  cases op with
  | setListener => exact h
  | surroundings f => exact h
  | setName name =>
      simp only [View.perform, View.setName, Board.setName]
      split
      · exact h
      · exact h.pack _ _
  | generateName chip =>
      simp only [View.perform, View.generateName, Board.generateName]
      split
      · exact h.pack _ _
      · exact h
  | start =>
      have hpacked : v.board.packBeacon.2.beacon.Serves v.config v.running := h.pack _ _
      simp only [View.perform, View.start]
      split
      · exact h
      · split
        · exact ⟨hpacked.port_eq, hpacked.interval_eq, rfl⟩
        · exact hpacked
  | stop =>
      simp only [View.perform, View.stop]
      split
      · cases v.session.connection? with
        | some connection => exact ⟨h.port_eq, h.interval_eq, rfl⟩
        | none => exact ⟨h.port_eq, h.interval_eq, rfl⟩
      · exact h
  | runPending =>
      simp only [View.perform, View.runPending]
      split
      · exact (lasting_serves v.config v.running).run h v.config v.session
      · exact h
  | handle event =>
      simp only [View.perform, v.running_handle event]
      exact View.lasting_handle (lasting_serves v.config v.running) h event

/-- The beacon is on exactly while the device runs. -/
theorem Reachable.beacon_serves {config : Config} {d : Device (Traced ω)} (h : Reachable config d) :
    d.board.beacon.Serves config d.running := by
  suffices hview : ∃ v, d.Follows v ∧ v.config = config ∧ v.board.beacon.Serves config v.running by
    obtain ⟨v, hfollows, -, hserves⟩ := hview
    rw [hfollows.shows.board_eq, hfollows.shows.running_eq]
    exact hserves
  induction h with
  | new hnew => exact ⟨_, Follows.new hnew, rfl, rfl, rfl, rfl⟩
  | perform hreachable op ih =>
      obtain ⟨v, hfollows, rfl, hserves⟩ := ih
      exact ⟨_, (hfollows.perform op).2, v.config_perform op, View.serves_perform hserves op⟩

end Device

end Infrared
