import Infrared.Proofs.Bench.Loopback
import Infrared.Proofs.Bench.Pump
import Infrared.Proofs.Device.Adoption
import Infrared.Proofs.Device.Untraced
import Infrared.Proofs.Device.WaitState

namespace Infrared

theorem PulseWidth.map_saturate_map_saturate (w : PulseWidth) (pulses : List UInt32) :
    (pulses.map w.saturate).map w.saturate = pulses.map w.saturate :=
  map_saturate_of_le fun _ => le_longest_of_mem_map_saturate

/-- The name and the beacon are changed by the configuration, and by nothing after it. -/
theorem Session.View.identity_conclude (connection : Connection) (name ssid password : Span)
    (kept : List UInt8) (rest : List (List UInt8)) (b : Board Bench) :
    (conclude connection (.configured name ssid password) kept rest b).name =
        (b.rename (name.of kept)).2.name ∧
      (conclude connection (.configured name ssid password) kept rest b).beacon =
        (b.rename (name.of kept)).2.beacon := by
  simp only [conclude, apply, Board.announce]
  split
  · exact ⟨rfl, rfl⟩
  · exact ⟨rfl, rfl⟩

namespace Bench

open Device

/-- A link to a device that was just connected to, with a signal on the air. -/
def Loopback.opened (d : Device Bench) (connection : Connection) (signal : List UInt32)
    (chunk writeMax : Nat) : Loopback where
  device := d.handle (.connect connection)
  connection := connection
  signal := signal
  chunk := chunk
  writeMax := writeMax

/-- The device after it was served with what the client wrote, and with the signal if it waits for one. -/
def Loopback.attended (l : Loopback) : Device Bench :=
  offerSignal l.signal (deliver l.connection l.chunk l.toDevice.toList l.device)

/-- Whether a client and a device that is run with a configuration can talk to each other: the device waits for
a connection, its sends do not fail, and everything that was sent before was taken. -/
structure Setting (config : Config) (client : Client) (d : Device Bench) (connection : Connection)
    (chunk writeMax : Nat) : Prop where
  arises : Arises config d
  running_eq : d.running = true
  isAttached_eq : d.session.isAttached = false
  refusesSend_eq : d.board.world.refusesSend = false
  takeSent_eq : (d.board.world.takeSent connection).1 = []
  swapped_eq : client.swapped = config.swapped
  chunk_pos : 0 < chunk
  chunk_le : chunk ≤ config.receiveBufferLength
  writeMax_pos : 0 < writeMax

/-- Whether a device is ready once more, with calls made since it was another. -/
structure Settled (calls : List Call) (d e : Device Bench) : Prop where
  ready : WaitState.ready.Holds e
  running_eq : e.running = true
  calls_eq : e.board.world.calls = d.board.world.calls ++ calls

/-- Whether a device waits for a connection, with calls made since its board was another. -/
structure Rests (config : Config) (calls : List Call) (b : Board Bench) (e : Device Bench) : Prop where
  shows : e.Shows ⟨config, .ready, e.board, true, false⟩
  armed_eq : e.board.station.armed = false
  makes : Makes calls b.world e.board.world

variable {config : Config} {client : Client} {d e : Device Bench} {connection : Connection}
  {chunk writeMax : Nat} {calls told : List Call} {b : Board Bench} {l : Loopback}

theorem Rests.of_shows {board : Board Bench} (h : e.Shows ⟨config, .ready, board, true, false⟩)
    (harmed : board.station.armed = false) (hmakes : Makes calls b.world board.world) :
    Rests config calls b e := by
  obtain rfl : e.board = board := h.board_eq
  exact ⟨h, harmed, hmakes⟩

theorem Rests.ready (h : Rests config calls b e) : WaitState.ready.Holds e := by
  obtain ⟨hshows, harmed, -⟩ := h
  obtain ⟨hconversation, -, hinbound, -, hscratch⟩ := hshows.session_shows.agrees
  refine ⟨hconversation, hshows.pending_eq, harmed, hinbound, hshows.session_shows.drained, hscratch, ?_⟩
  rw [Session.awaitsConfirmation, hconversation]

theorem offerSignal_of_off (h : d.board.world.interrupts = false) (signal : List UInt32) :
    Loopback.offerSignal signal d = d := by
  simp only [Loopback.offerSignal, h]
  rfl

/-- A conversation whose last call switches the interrupts off has the device hear nothing after it. -/
theorem Rests.offerSignal_eq (h : Rests config calls b e)
    (hlast : calls.getLast? = some .disableInterrupts) (signal : List UInt32) :
    Loopback.offerSignal signal e = e := by
  obtain ⟨earlier, rfl⟩ := List.getLast?_eq_some_iff.mp hlast
  apply offerSignal_of_off
  rw [h.makes.interrupts_eq, List.foldl_append]
  rfl

/-- A loopback whose device comes to the end of the conversation has for the client what was sent in it. -/
theorem Loopback.serve_eq (h : Rests config calls d.board l.attended)
    (htaken : (d.board.world.takeSent l.connection).1 = []) :
    l.serve.toClient = l.toClient ++ calls.flatMap (Call.sentOn l.connection) ∧
      l.serve.device.board.name = l.attended.board.name ∧
      l.serve.device.board.beacon = l.attended.board.beacon ∧
      Settled calls d l.serve.device := by
  have hsent := h.makes.takeSent_eq l.connection
  rw [htaken, List.nil_append] at hsent
  have hready : WaitState.ready.Holds l.attended := h.ready
  exact ⟨congrArg (l.toClient ++ ·) hsent, rfl, rfl, hready, h.shows.running_eq, h.makes.calls_eq⟩

/-- A request that is answered at once comes to the end of its conversation. -/
theorem rests_of_respond {v : View Bench} {reply : Reply} {kept : List UInt8} {after : Board Bench}
    (h : e.Shows v) (hvalid : v.config.Valid) (hpending : v.pending = true)
    (hrunning : v.running = true) (hrun : v.session.run v.config v.board =
      Session.View.respond v.config connection reply kept 0 after)
    (hsupplied : Session.View.Supplied v.config kept reply)
    (haccepts : b.world.refusesSend = false) (hbefore : Makes calls b.world after.world)
    (happly : ∀ f : Bench → Bench, Makes told (after.onBench f).world
      (Session.View.apply reply kept (after.onBench f)).world) :
    Rests v.config (calls ++ ((pieces v.config (reply.answer v.config.pulseWidth kept)).map
        (.send connection) ++ (told ++ [.close connection, .disableInterrupts]))) b (pump e) ∧
      (pump e).board = Session.View.conclude connection reply kept
        (pieces v.config (reply.answer v.config.pulseWidth kept)) after := by
  have hafter := hbefore.refusesSend_eq.trans haccepts
  have hshows := pump_of_respond h hvalid hpending hrun hafter hsupplied
  rw [hrunning] at hshows
  refine ⟨.of_shows hshows rfl (hbefore.trans ((makes_sendAll hafter connection _).trans ?_)),
    hshows.board_eq⟩
  have hdone := happly (sendAll connection
    (pieces v.config (reply.answer v.config.pulseWidth kept)))
  exact hdone.trans ((Board.makes_dismiss _ connection).trans (makes_awaiting none _))

namespace Setting

theorem shows_ready (h : Setting config client d connection chunk writeMax) :
    config.Valid ∧ d.Shows ⟨config, .ready, d.board, true, false⟩ ∧ d.board.fittings = .of config ∧
      d.board.station.armed = false := by
  obtain ⟨t, ht, rfl⟩ := h.arises.exists_reachable
  obtain ⟨v, hfollows, rfl, hfittings, -⟩ := ht.exists_tracks
  have hconnection := hfollows.shows.session_shows.connection?_eq
  have hnone : t.session.conversation = none := by
    have hattached : t.session.conversation.isSome = false := h.isAttached_eq
    simpa using hattached
  have hready : v.session = .ready := by
    rw [Session.connection?, hnone] at hconnection
    cases hv : v.session with
    | ready => rfl
    | _ => simp [hv, Session.View.connection?] at hconnection
  obtain ⟨hpending, harmed⟩ : v.pending = false ∧ v.board.station.armed = false := by
    have hwaits := hfollows.keeps.waits
    rw [hready] at hwaits
    exact hwaits
  have hsession := hfollows.shows.session_shows
  have hboard := hfollows.shows.board_eq
  rw [hready] at hsession
  refine ⟨hfollows.keeps.valid, ⟨hfollows.shows.config_eq, rfl, h.running_eq, ?_, hsession⟩, ?_, ?_⟩
  · exact hfollows.shows.pending_eq.trans hpending
  · exact (congrArg Board.fittings hboard).trans hfittings
  · exact (congrArg (fun board => board.station.armed) hboard).trans harmed

theorem shows_request (h : Setting config client d connection chunk writeMax) :
    (d.handle (.connect connection)).Shows
      ⟨config, .request connection [], d.board, true, false⟩ := by
  obtain ⟨hvalid, hshows, -, -⟩ := h.shows_ready
  have hconnect : Event.connect connection ≠ .edge := by simp
  exact hshows.handle_of_ne_edge hvalid hconnect

theorem fragments (h : Setting config client d connection chunk writeMax) (data : List UInt8) :
    (cut chunk data).flatten = data ∧ ∀ fragment ∈ cut chunk data,
      fragment ≠ [] ∧ fragment.length ≤ config.receiveBufferLength := by
  have hcuts := cuts_cut h.chunk_pos data
  refine ⟨hcuts.flatten_eq, ?_⟩
  intro fragment hfragment
  obtain ⟨hpos, hle⟩ := hcuts.pos_and_le fragment hfragment
  exact ⟨List.length_pos_iff.mp hpos, Nat.le_trans hle h.chunk_le⟩

theorem exists_deliver_of_admissible (h : Setting config client d connection chunk writeMax)
    {content : Request.Content} (hcontent : content.Admissible config) :
    ∃ e unconfirmed,
      deliver connection chunk (content.wire config) (d.handle (.connect connection)) = pump e ∧
        e.Shows ⟨config, .process connection content.request (content.kept config.pulseWidth),
          d.board.onBench (awaiting unconfirmed), true, true⟩ := by
  obtain ⟨hvalid, -⟩ := h.shows_ready
  obtain ⟨hflatten, hfragments⟩ := h.fragments (content.wire config)
  have hverdict := Request.verdict_wire_append hvalid hcontent []
  rw [List.append_nil] at hverdict
  have hne : cut chunk (content.wire config) ≠ [] := by
    intro hnil
    rw [hnil, List.flatten_nil] at hflatten
    rw [← hflatten] at hverdict
    simp [Request.verdict] at hverdict
  have hwhole : [] ++ (cut chunk (content.wire config)).flatten = content.wire config := hflatten
  obtain ⟨e, unconfirmed, hfold, he⟩ := exists_foldl_receive_of_accepted h.shows_request hvalid rfl rfl
    hfragments hne (by rw [hwhole]; exact hverdict) (by
      rw [hwhole]
      intro front hfront hpart
      exact Request.verdict_eq_waiting_of_isPrefix hvalid hcontent hfront hpart)
  exact ⟨e, unconfirmed, hfold, he⟩

/-- A request that is refused leaves nothing behind. -/
theorem deliver_of_refused (h : Setting config client d connection chunk writeMax)
    {bytes : List UInt8} (hverdict : Request.verdict config bytes = .refused) :
    (deliver connection chunk bytes (d.handle (.connect connection))).Shows
      ⟨config, .ready, (Session.View.dismiss connection d.board).onBench (awaiting none), true,
        false⟩ := by
  obtain ⟨hvalid, -⟩ := h.shows_ready
  obtain ⟨hflatten, hfragments⟩ := h.fragments bytes
  have hwhole : [] ++ (cut chunk bytes).flatten = bytes := hflatten
  refine foldl_receive_of_refused h.shows_request hvalid rfl rfl
    (fun fragment hfragment => (hfragments fragment hfragment).2) rfl ?_
  rw [hwhole]
  exact hverdict

theorem rests_of_refused (h : Setting config client d connection chunk writeMax)
    {bytes : List UInt8} (hverdict : Request.verdict config bytes = .refused) :
    Rests config [.close connection, .disableInterrupts] d.board
      (deliver connection chunk bytes (d.handle (.connect connection))) :=
  .of_shows (h.deliver_of_refused hverdict) rfl
    ((d.board.makes_dismiss connection).trans (makes_awaiting none _))

theorem rests_of_send (h : Setting config client d connection chunk writeMax) (frequency : UInt32)
    {pulses : List UInt32} (hfew : pulses.length ≤ config.pulsesMax.toNat) :
    Rests config (Waveform.calls config.sendPin (Waveform.halfPeriod frequency)
          (pulses.map config.pulseWidth.saturate) ++
        ((pieces config .sent).map (.send connection) ++ [.close connection, .disableInterrupts]))
      d.board (deliver connection chunk
        ((Request.Content.send frequency (pulses.map config.pulseWidth.saturate)).wire config)
        (d.handle (.connect connection))) := by
  obtain ⟨hvalid, -, hfittings, -⟩ := h.shows_ready
  have hcontent : (Request.Content.send frequency
      (pulses.map config.pulseWidth.saturate)).Admissible config :=
    ⟨by rwa [List.length_map], fun _ => PulseWidth.le_longest_of_mem_map_saturate⟩
  obtain ⟨e, unconfirmed, hdeliver, he⟩ := h.exists_deliver_of_admissible hcontent
  have hpin : d.board.sendPin = config.sendPin := congrArg Board.Fittings.sendPin hfittings
  have hwidth : d.board.station.pulseWidth = config.pulseWidth :=
    congrArg Board.Fittings.pulseWidth hfittings
  have hmax := config.pulsesMax.toNat_lt
  have hlength : (pulses.map config.pulseWidth.saturate).length ≤ 65535 := by
    rw [List.length_map]
    omega
  have hdurations : d.board.station.durations ((Request.Content.send frequency
      (pulses.map config.pulseWidth.saturate)).kept config.pulseWidth) =
        pulses.map config.pulseWidth.saturate := by
    have hall := d.board.station.durations_flatMap_encode hlength
    rw [hwidth, PulseWidth.map_saturate_map_saturate] at hall
    rw [Request.Content.kept_send]
    exact hall
  have htransmit := (d.board.onBench (awaiting unconfirmed)).makes_transmit frequency
    ((Request.Content.send frequency (pulses.map config.pulseWidth.saturate)).kept config.pulseWidth)
  have hbefore := (makes_awaiting unconfirmed d.board.world).trans htransmit
  obtain ⟨hrests, -⟩ := rests_of_respond he hvalid rfl rfl rfl trivial h.refusesSend_eq hbefore
    fun _ => Makes.nil
  have hcalls : Waveform.calls d.board.sendPin (Waveform.halfPeriod frequency)
      (d.board.station.durations ((Request.Content.send frequency
        (pulses.map config.pulseWidth.saturate)).kept config.pulseWidth)) =
      Waveform.calls config.sendPin (Waveform.halfPeriod frequency)
        (pulses.map config.pulseWidth.saturate) := by rw [hpin, hdurations]
  rw [hdeliver, ← hcalls]
  exact hrests

theorem rests_of_config (h : Setting config client d connection chunk writeMax)
    {name ssid password : List UInt8}
    (hcontent : (Request.Content.config name ssid password).Admissible config) :
    Rests config ((pieces config .configured).map (.send connection) ++
        ((if d.board.listener then [.configured name ssid password] else []) ++
          [.close connection, .disableInterrupts]))
      d.board (deliver connection chunk ((Request.Content.config name ssid password).wire config)
        (d.handle (.connect connection))) ∧
      (deliver connection chunk ((Request.Content.config name ssid password).wire config)
        (d.handle (.connect connection))).board.name.filled = name ∧
      (deliver connection chunk ((Request.Content.config name ssid password).wire config)
        (d.handle (.connect connection))).board.beacon.payload.data =
          Beacon.datagram config.swapped config.port name := by
  obtain ⟨hvalid, -, hfittings, -⟩ := h.shows_ready
  obtain ⟨e, unconfirmed, hdeliver, he⟩ := h.exists_deliver_of_admissible hcontent
  obtain ⟨hname, hssid, hpassword⟩ := Span.of_append name ssid password
  obtain ⟨hstored, hpayload⟩ := Board.rename_of_length_le hfittings hvalid hcontent.1
  have hbefore := makes_awaiting unconfirmed d.board.world
  have htold (f : Bench → Bench) :
      Makes (if d.board.listener then [.configured name ssid password] else [])
        ((d.board.onBench (awaiting unconfirmed)).onBench f).world
        (Session.View.apply (.configured ⟨0, name.length⟩ ⟨name.length, ssid.length⟩
            ⟨name.length + ssid.length, password.length⟩)
          (name ++ (ssid ++ password))
          ((d.board.onBench (awaiting unconfirmed)).onBench f)).world := by
    have happly := ((d.board.onBench (awaiting unconfirmed)).onBench f).makes_apply
      (.configured ⟨0, name.length⟩ ⟨name.length, ssid.length⟩
        ⟨name.length + ssid.length, password.length⟩)
      (name ++ (ssid ++ password))
    have hnamed : (((d.board.onBench (awaiting unconfirmed)).onBench f).rename name).2.name.filled =
        name := hstored
    simp only [hname, hssid, hpassword, hnamed] at happly
    exact happly
  obtain ⟨hrests, hboard⟩ := rests_of_respond he hvalid rfl rfl rfl he.session_shows.sound
    h.refusesSend_eq hbefore htold
  obtain ⟨hnameEq, hbeaconEq⟩ := Session.View.identity_conclude connection ⟨0, name.length⟩
    ⟨name.length, ssid.length⟩ ⟨name.length + ssid.length, password.length⟩
    (name ++ (ssid ++ password))
    (pieces config .configured) (d.board.onBench (awaiting unconfirmed))
  rw [hname] at hnameEq hbeaconEq
  rw [hdeliver]
  refine ⟨hrests, ?_, ?_⟩
  · rw [hboard]
    exact (congrArg Buffer.filled hnameEq).trans hstored
  · rw [hboard]
    exact (congrArg (fun beacon => beacon.payload.data) hbeaconEq).trans hpayload

end Setting

end Bench

end Infrared
