import Infrared.Proofs.Bench.Service
import Infrared.Proofs.Bench.Signal

namespace Infrared

-- Over any platform, since what the simulated one comes to must not be evaluated.
theorem Device.View.handle_edge_of_capture {ω : Type} [Platform ω] {v : View ω}
    {connection : Connection} {kept : List UInt8} {board : Board ω} {report : Station.Report}
    {store : Buffer} (hv : v.session = .process connection (.receive none) kept)
    (h : v.board.capture (Buffer.new v.config.scratchLength) = (some report, board, store)) :
    v.handle .edge = ⟨v.config, .process connection (.receive (some report)) store.filled, board,
      v.running, true⟩ := by
  rw [handle, hv, Session.View.edge, h]
  rfl

namespace Bench

open Device

variable {config : Config} {client : Client} {d e : Device Bench} {connection : Connection}
  {chunk writeMax : Nat} {signal : List UInt32} {calls : List Call} {b : Board Bench} {store : Buffer}

/-- Whether the capture that an edge starts comes to an end by itself. -/
def CaptureEnds (d : Device Bench) : Prop :=
  ∃ report, (d.board.capture d.session.scratch).1 = some report ∧ report.ending ≠ .abandoned

/-- Whether a device waits for a signal, with calls made since its board was another. -/
structure Listens (config : Config) (connection : Connection) (calls : List Call) (b : Board Bench)
    (e : Device Bench) : Prop where
  shows : e.Shows ⟨config, .process connection (.receive none) [], e.board, true, false⟩
  fittings_eq : e.board.fittings = .of config
  armed_eq : e.board.station.armed = true
  cursor_eq : e.board.station.cursor = 0
  interrupts_eq : e.board.world.interrupts = true
  attached_eq : e.board.world.attached = true
  makes : Makes calls b.world e.board.world

/-- A client that asks for a signal has the device wait for one. -/
theorem Setting.listens_of_receive (h : Setting config client d connection chunk writeMax) :
    Listens config connection [.input config.receivePin, .disableInterrupts,
        .clearEdge config.receivePin, .attachEdge config.receivePin, .enableInterrupts] d.board
      (deliver connection chunk (Request.Content.receive.wire config)
        (d.handle (.connect connection))) := by
  obtain ⟨hvalid, -, hfittings, harmed⟩ := h.shows_ready
  have hcontent : Request.Content.receive.Admissible config := trivial
  obtain ⟨e, unconfirmed, hdeliver, he⟩ := h.exists_deliver_of_admissible hcontent
  have hshows := pump_of_receive he hvalid rfl rfl harmed
  have hpin : d.board.receivePin = config.receivePin := congrArg Board.Fittings.receivePin hfittings
  have harm : Makes [.input config.receivePin, .disableInterrupts, .clearEdge config.receivePin,
      .attachEdge config.receivePin, .enableInterrupts] d.board.world
      ((d.board.onBench (awaiting unconfirmed)).armCapture.onBench (awaiting none)).world := by
    have hmakes := (d.board.onBench (awaiting unconfirmed)).makes_armCapture
    rw [← hpin]
    exact (makes_awaiting unconfirmed d.board.world).trans (hmakes.trans (makes_awaiting none _))
  have hfit : ((d.board.onBench (awaiting unconfirmed)).armCapture.onBench (awaiting none)).fittings =
      .of config := (Board.fittings_armCapture (d.board.onBench (awaiting unconfirmed))).trans hfittings
  have hstation : ((d.board.onBench (awaiting unconfirmed)).armCapture.onBench (awaiting none)).station =
      { d.board.station with
        pin := d.board.receivePin, carrierFrequency := 0, cursor := 0, armed := true } := rfl
  generalize (d.board.onBench (awaiting unconfirmed)).armCapture.onBench (awaiting none) = waiting
    at hshows harm hfit hstation
  rw [hdeliver]
  obtain rfl : (pump e).board = waiting := hshows.board_eq
  exact ⟨hshows, hfit, congrArg Station.armed hstation, congrArg Station.cursor hstation,
    harm.interrupts_eq, harm.attached_eq, harm⟩

namespace Listens

/-- On a clock that counts single microseconds a capture records what is on the air, as far as there is room, and
it ends by itself. -/
theorem exists_capture_eq (h : Listens config connection calls b e) (htick : e.board.world.tick = 1)
    (hpulses : ∀ pulse ∈ signal, 1 ≤ pulse ∧ pulse < config.pulseTimeout)
    (hsum : (signal.map UInt32.toNat).sum < config.signalTimeout.toNat)
    (hstore : store.capacity = config.scratchLength) :
    ∃ ending board after,
      (e.board.onBench fun w => w.schedule signal 0).capture store =
          (some ⟨(signal.take config.pulsesMax.toNat).length, ending⟩, board, after) ∧
        after.filled = (signal.take config.pulsesMax.toNat).flatMap config.pulseWidth.encode ∧
        ending ≠ .abandoned ∧ Makes [.disableInterrupts] e.board.world board.world := by
  have hwidth : e.board.station.pulseWidth = config.pulseWidth :=
    congrArg Board.Fittings.pulseWidth h.fittings_eq
  have hsignal : e.board.station.signalTimeout = config.signalTimeout :=
    congrArg Board.Fittings.signalTimeout h.fittings_eq
  have hpulse : e.board.station.pulseTimeout = config.pulseTimeout :=
    congrArg Board.Fittings.pulseTimeout h.fittings_eq
  have hcapacity : e.board.station.capacity store.capacity = config.pulsesMax.toNat := by
    rw [Station.capacity, hwidth, hstore]
    exact config.capacity_scratchLength
  have hpos : 0 < e.board.world.tick := by omega
  have hbounds : ∀ pulse ∈ signal, e.board.world.tick ≤ pulse.toNat ∧
      pulse.toNat + e.board.world.tick ≤ e.board.station.pulseTimeout.toNat := by
    intro pulse hmem
    obtain ⟨hle, hlt⟩ := hpulses pulse hmem
    rw [UInt32.le_iff_toNat_le] at hle
    rw [UInt32.lt_iff_toNat_lt] at hlt
    rw [htick, hpulse]
    exact ⟨hle, hlt⟩
  obtain ⟨report, hreport, hcount, hfilled, -, habandoned⟩ := Station.exists_capture_schedule hpos hbounds
    h.armed_eq h.cursor_eq (by rw [htick, hsignal]; exact hsum) store
  rw [htick] at habandoned hfilled
  rw [hcapacity] at hcount hfilled
  rw [hwidth] at hfilled
  have hmakes := makes_capture e.board.station store (e.board.world.schedule signal 0)
  have hschedule : Makes [] e.board.world (e.board.world.schedule signal 0) :=
    ⟨(List.append_nil _).symm, rfl, rfl, rfl, rfl, rfl⟩
  refine ⟨report.ending, _, _, Prod.ext ?_ rfl, ?_, ?_, hschedule.trans hmakes⟩
  · refine hreport.trans ?_
    rw [List.length_take, Nat.min_comm, ← hcount]
  · refine hfilled.trans ?_
    rw [heard_one, ← List.map_take, List.flatMap_map]
    simp only [UInt32.ofNat_toNat]
  · intro hending
    exact (habandoned.mp hending).2 (e.board.station.expires_of_odd rfl)

theorem captureEnds (h : Listens config connection calls b e) (htick : e.board.world.tick = 1)
    (hpulses : ∀ pulse ∈ signal, 1 ≤ pulse ∧ pulse < config.pulseTimeout)
    (hsum : (signal.map UInt32.toNat).sum < config.signalTimeout.toNat) :
    CaptureEnds (update (fun w => w.schedule signal 0) e) := by
  have hstore := h.shows.session_shows.fits.intake_fits.scratch_eq
  obtain ⟨ending, board, after, hcapture, -, hending, -⟩ :=
    h.exists_capture_eq htick hpulses hsum hstore
  exact ⟨_, congrArg Prod.fst hcapture, hending⟩

/-- The signal is recorded, and it is the reply. -/
theorem rests_offerSignal (h : Listens config connection calls b e) (hvalid : config.Valid)
    (haccepts : b.world.refusesSend = false) (htick : e.board.world.tick = 1) (hsignal : signal ≠ [])
    (hpulses : ∀ pulse ∈ signal, 1 ≤ pulse ∧ pulse < config.pulseTimeout)
    (hsum : (signal.map UInt32.toNat).sum < config.signalTimeout.toNat) :
    Rests config ((calls ++ [.disableInterrupts]) ++
        ((pieces config (.captured ((signal.take config.pulsesMax.toNat).map
          config.pulseWidth.saturate))).map (.send connection) ++
            [.close connection, .disableInterrupts]))
      b (Loopback.offerSignal signal e) := by
  have hsome : signal.isEmpty = false := by simpa using hsignal
  have hoffer : Loopback.offerSignal signal e =
      pump ((update (fun w => w.schedule signal 0) e).handle .edge) := by
    simp only [Loopback.offerSignal, h.interrupts_eq, h.attached_eq, hsome, Bool.not_false,
      Bool.and_self, if_true]
  have hstore : (Buffer.new config.scratchLength).capacity = config.scratchLength := rfl
  obtain ⟨ending, board, after, hcapture, hfilled, -, hmakes⟩ :=
    h.exists_capture_eq htick hpulses hsum hstore
  have hholds : (Session.View.process connection (.receive none) []).Holds config
      (e.board.onBench fun w => w.schedule signal 0) :=
    ⟨congrArg Board.Fittings.pulseWidth h.fittings_eq, fun _ => h.cursor_eq,
      fun _ => ⟨connection, rfl⟩⟩
  have hedge := (h.shows.update fun w => w.schedule signal 0).handle hvalid hholds .edge
  rw [View.handle_edge_of_capture rfl hcapture] at hedge
  obtain ⟨hrests, -⟩ := rests_of_respond hedge hvalid rfl rfl rfl hedge.session_shows.sound haccepts
    (h.makes.trans hmakes) fun _ => Makes.nil
  have hanswer := config.pulseWidth.decodeMany_flatMap_encode (signal.take config.pulsesMax.toNat)
  rw [← hfilled] at hanswer
  rw [hoffer, ← hanswer]
  exact hrests

end Listens

end Bench

end Infrared
