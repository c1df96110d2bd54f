import Infrared.Proofs.Device.Run

namespace Infrared

variable {ω : Type}

/-- The board on the platform that the history is kept of. -/
def Board.untraced (b : Board (Traced ω)) : Board ω where
  world := b.world.world
  station := b.station
  name := b.name
  beacon := b.beacon
  listener := b.listener
  servicePort := b.servicePort
  sendPin := b.sendPin
  receivePin := b.receivePin

/-- What comes of a session on the platform that the history is kept of. -/
def Session.untraced {α β : Type} (x : α × β × Board (Traced ω)) : α × β × Board ω :=
  (x.1, x.2.1, x.2.2.untraced)

def Device.untraced (d : Device (Traced ω)) : Device ω :=
  ⟨d.config, d.session, d.board.untraced, d.running, d.pending⟩

variable [Platform ω]

namespace Traced

theorem world_tellAll (calls : List Call) (t : Traced ω) :
    (Platform.tellAll calls t).world = Platform.tellAll calls t.world := by
  induction calls generalizing t with
  | nil => rfl
  | cons call calls ih => exact ih (Platform.tell call t)

theorem world_send (connection : Connection) (data : List UInt8) (t : Traced ω) :
    Platform.send connection data t.world =
      ((Platform.send connection data t).1, (Platform.send connection data t).2.world) := rfl

theorem world_listen (port : UInt16) (t : Traced ω) :
    Platform.listen port t.world =
      ((Platform.listen port t).1, (Platform.listen port t).2.world) := rfl

theorem world_record (s : Station) (budget : Nat) (r : Station.Recording) (t : Traced ω) :
    s.record budget r t.world =
      ((s.record budget r t).1, (s.record budget r t).2.1, (s.record budget r t).2.2.world) := by
  induction budget generalizing r t with
  | zero => rfl
  | succ budget ih =>
      have hsample : Platform.sample s.pin t.world =
          ((Platform.sample s.pin t).1, (Platform.sample s.pin t).2.world) := rfl
      rw [Station.record_succ, Station.record_succ, hsample]
      dsimp only
      split
      · rfl
      · exact ih _ _

theorem world_capture (s : Station) (store : Buffer) (t : Traced ω) :
    s.capture store t.world =
      ((s.capture store t).1, (s.capture store t).2.1, (s.capture store t).2.2.1,
        (s.capture store t).2.2.2.world) := by
  cases harmed : s.armed with
  | false =>
      rw [Station.capture_of_not_armed harmed, Station.capture_of_not_armed harmed]
      rfl
  | true =>
      rw [Station.capture_of_armed harmed, Station.capture_of_armed harmed]
      have hrecord := world_record s
        (Platform.patience (Platform.sample s.pin (Platform.tell .disableInterrupts t)).2)
        ⟨(Platform.sample s.pin (Platform.tell .disableInterrupts t)).1.2,
          (Platform.sample s.pin (Platform.tell .disableInterrupts t)).1.2,
          (Platform.sample s.pin (Platform.tell .disableInterrupts t)).1.1, s.cursor, store.reset⟩
        (Platform.sample s.pin (Platform.tell .disableInterrupts t)).2
      exact congrArg (fun recorded : Station.End × Station.Recording × ω =>
        (some (⟨recorded.2.1.count, recorded.1⟩ : Station.Report),
          ({ s with armed := false, cursor := recorded.2.1.count } : Station),
          recorded.2.1.pulses, recorded.2.2)) hrecord

end Traced

namespace Board

variable (b : Board (Traced ω))

theorem untraced_transmit (frequency : UInt32) (pulses : List UInt8) :
    b.untraced.transmit frequency pulses = (b.transmit frequency pulses).untraced := by
  have hworld := Traced.world_tellAll (Waveform.calls b.sendPin (Waveform.halfPeriod frequency)
    (b.station.durations pulses)) b.world
  simp only [transmit, untraced, Station.transmit, hworld]

theorem untraced_armCapture : b.untraced.armCapture = b.armCapture.untraced := by
  simp only [armCapture, untraced, Station.armCapture, Traced.world_tellAll]

theorem untraced_capture (store : Buffer) :
    b.untraced.capture store =
      ((b.capture store).1, (b.capture store).2.1.untraced, (b.capture store).2.2) := by
  have hcapture := Traced.world_capture b.station store b.world
  simp only [capture, untraced, hcapture]

theorem untraced_announce (ssid password : List UInt8) :
    b.untraced.announce ssid password = (b.announce ssid password).untraced := by
  have hlistener : b.untraced.listener = b.listener := rfl
  rw [announce, announce, hlistener]
  split
  · rfl
  · rfl

end Board

namespace Session

variable (s : Session) (b : Board (Traced ω))

theorem untraced_release :
    s.release b.untraced = ((s.release b).1, (s.release b).2.untraced) := by
  rw [release, release]
  split
  · rfl
  · rfl

theorem untraced_apply (reply : Reply) : s.apply reply b.untraced = (s.apply reply b).untraced := by
  cases reply with
  | sent => rfl
  | captured count => rfl
  | configured name ssid password =>
      simp only [apply]
      cases hname : name.read? s.scratch with
      | none => rfl
      | some text =>
          have hrename : (b.untraced.rename text).2 = (b.rename text).2.untraced := rfl
          simp only [hrename]
          split
          · exact Board.untraced_announce _ _ _
          · rfl

omit [Platform ω] in
theorem untraced_stepRequest (connection : Connection) (reading : Request.Reading) :
    s.stepRequest connection reading b.untraced =
      untraced (s.stepRequest connection reading b) := by
  simp only [stepRequest]
  split
  · rfl
  · rfl
  · rfl

theorem untraced_stepResponse (connection : Connection) (reply : Reply) (next : Nat) :
    s.stepResponse connection reply next b.untraced =
      untraced (s.stepResponse connection reply next b) := by
  simp only [stepResponse]
  split
  · split
    · split
      · rw [untraced_apply, untraced_release]
        rfl
      · rfl
    · rename_i out _ _
      have hsend := Traced.world_send connection out.data b.world
      have hworld : b.untraced.world = b.world.world := rfl
      rw [hworld, hsend]
      cases Platform.send connection out.data b.world with
      | mk taken world =>
          cases taken with
          | true => rfl
          | false => rfl
  · rfl

theorem untraced_stepProcess (connection : Connection) (request : Request) :
    s.stepProcess connection request b.untraced =
      untraced (s.stepProcess connection request b) := by
  cases request with
  | send frequency =>
      simp only [stepProcess, Board.untraced_transmit]
      exact untraced_stepResponse _ _ _ _ _
  | config name ssid password => exact untraced_stepResponse _ _ _ _ _
  | receive report =>
      cases report with
      | some report => exact untraced_stepResponse _ _ _ _ _
      | none =>
          have harmed : b.untraced.station.armed = b.station.armed := rfl
          simp only [stepProcess, harmed, Board.untraced_armCapture]
          split
          · rfl
          · rfl

theorem untraced_run : s.run b.untraced = untraced (s.run b) := by
  have hstep : s.step b.untraced = untraced (s.step b) := by
    simp only [step]
    split
    · rfl
    · exact untraced_stepRequest _ _ _ _
    · exact untraced_stepProcess _ _ _ _
    · rfl
    · exact untraced_stepResponse _ _ _ _ _
  simp only [run, hstep]
  rcases s.step b with ⟨result, s', b'⟩
  cases result with
  | ok progress => rfl
  | error fault =>
      simp only [untraced, untraced_release]

theorem untraced_receive (data : List UInt8) :
    s.receive data b.untraced = untraced (s.receive data b) := by
  simp only [receive]
  split
  · split
    · exact untraced_run _ _
    · simp only [untraced, untraced_release]
  · rfl

theorem untraced_sent : s.sent b.untraced = untraced (s.sent b) := by
  simp only [sent]
  split
  · exact untraced_run _ _
  · rfl

theorem untraced_edge : s.edge b.untraced = untraced (s.edge b) := by
  simp only [edge, Board.untraced_capture]
  rcases b.capture s.scratch with ⟨report, b', store⟩
  cases report with
  | none => rfl
  | some report =>
      dsimp only
      split
      · rfl
      · rfl

end Session

namespace Device

/-- What an operation makes of a device. -/
def act (d : Device ω) : Operation ω → Device ω
  | .setListener => d.setListener
  | .setName name => (d.setName name).2
  | .generateName chip => (d.generateName chip).2
  | .start => d.start.2
  | .stop => d.stop
  | .runPending => d.runPending.2
  | .handle event => d.handle event
  | .surroundings f => { d with board := { d.board with world := f d.board.world } }

/-- Whether operations come to a device, from a new one. -/
inductive Arises (config : Config) : Device ω → Prop where
  | new {world : ω} {d : Device ω} (h : Device.new config world = .ok d) : Arises config d
  | act {d : Device ω} (h : Arises config d) (op : Operation ω) : Arises config (d.act op)

variable (d : Device (Traced ω))

omit [Platform ω] in
theorem untraced_resume {f : Session → Board (Traced ω) → Session.Progress × Session × Board (Traced ω)}
    {g : Session → Board ω → Session.Progress × Session × Board ω}
    (h : g d.session d.board.untraced = Session.untraced (f d.session d.board)) :
    d.untraced.resume g = (d.resume f).untraced := by
  obtain ⟨config, session, board, running, pending⟩ := d
  dsimp only at h
  simp only [resume, untraced, h]
  rfl

theorem untraced_start : d.untraced.start.2 = d.start.2.untraced := by
  have hboard : d.untraced.board.packBeacon.2 = d.board.packBeacon.2.untraced := rfl
  have hrunning : d.untraced.running = d.running := rfl
  have hconfig : d.untraced.config = d.config := rfl
  have hworld : d.board.packBeacon.2.untraced.world = d.board.packBeacon.2.world.world := rfl
  simp only [start, hboard, hrunning, hconfig, hworld, Traced.world_listen]
  split
  · rfl
  · cases Platform.listen d.config.port d.board.packBeacon.2.world with
    | mk accepted world =>
        cases accepted with
        | true => rfl
        | false => rfl

theorem untraced_stop : d.untraced.stop = d.stop.untraced := by
  have hrunning : d.untraced.running = d.running := rfl
  have hsession : d.untraced.session = d.session := rfl
  have hrelease : d.session.release d.untraced.board =
      ((d.session.release d.board).1, (d.session.release d.board).2.untraced) :=
    d.session.untraced_release d.board
  simp only [stop, hrunning, hsession, hrelease]
  split
  · split
    · rfl
    · rfl
  · rfl

theorem untraced_connect (connection : Connection) :
    d.untraced.connect connection = (d.connect connection).untraced := by
  have hrunning : d.untraced.running = d.running := rfl
  have hsession : d.untraced.session = d.session := rfl
  simp only [connect, hrunning, hsession]
  split
  · split
    · rfl
    · rfl
  · rfl

theorem untraced_handle (event : Event) : d.untraced.handle event = (d.handle event).untraced := by
  have hcurrent (connection : Connection) :
      d.untraced.isCurrent connection = d.isCurrent connection := rfl
  cases event with
  | connect connection => exact d.untraced_connect connection
  | receive connection data =>
      simp only [handle, hcurrent]
      split
      · exact d.untraced_resume (d.session.untraced_receive d.board data)
      · rfl
  | sent connection =>
      simp only [handle, hcurrent]
      split
      · exact d.untraced_resume (d.session.untraced_sent d.board)
      · rfl
  | disconnect connection =>
      have hdisconnect : d.untraced.session.disconnect d.untraced.board =
          ((d.session.disconnect d.board).1, (d.session.disconnect d.board).2.untraced) :=
        Session.untraced_release { d.session with conversation := none } d.board
      simp only [handle, hcurrent, hdisconnect]
      split
      · rfl
      · rfl
  | edge => exact d.untraced_resume (d.session.untraced_edge d.board)
  | timer =>
      have htick := Traced.world_tellAll d.board.beacon.tickCalls d.board.world
      simp only [handle, untraced, Board.untraced, Beacon.tick, htick]

theorem untraced_runPending : d.untraced.runPending.2 = d.runPending.2.untraced := by
  have hpending : d.untraced.pending = d.pending := rfl
  simp only [runPending, hpending]
  split
  · exact untraced_resume { d with pending := false } (d.session.untraced_run d.board)
  · rfl

/-- What an operation makes of a device does not depend on its history. -/
theorem untraced_perform (op : Operation ω) : d.untraced.act op = (d.perform op).2.untraced := by
  cases op with
  | setListener => rfl
  | setName name =>
      have hset : d.board.untraced.setName name =
          ((d.board.setName name).1, (d.board.setName name).2.untraced) := by
        have hname : d.board.untraced.name = d.board.name := rfl
        simp only [Board.setName, hname]
        split
        · rfl
        · rfl
      simp only [act, perform, setName, untraced, hset]
  | generateName chip =>
      have hgenerate : d.board.untraced.generateName chip =
          ((d.board.generateName chip).1, (d.board.generateName chip).2.untraced) := by
        have hname : d.board.untraced.name = d.board.name := rfl
        simp only [Board.generateName, hname]
        split
        · rfl
        · rfl
      simp only [act, perform, generateName, untraced, hgenerate]
  | start => exact d.untraced_start
  | stop => exact d.untraced_stop
  | runPending => exact d.untraced_runPending
  | handle event => exact d.untraced_handle event
  | surroundings f => rfl

theorem Arises.exists_reachable {config : Config} {d : Device ω} (h : Arises config d) :
    ∃ t : Device (Traced ω), Reachable config t ∧ t.untraced = d := by
  induction h with
  | @new world d hnew =>
      simp only [Device.new] at hnew
      split at hnew
      · rename_i hvalid
        simp only [Except.ok.injEq] at hnew
        subst hnew
        exact ⟨fresh config ⟨world, []⟩, reachable_fresh hvalid world, rfl⟩
      · simp at hnew
  | act h op ih =>
      obtain ⟨t, ht, rfl⟩ := ih
      exact ⟨_, ht.perform op, (t.untraced_perform op).symm⟩

end Device

end Infrared
