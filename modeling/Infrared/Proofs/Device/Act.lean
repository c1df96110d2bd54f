import Infrared.Proofs.Device.Arbitration

namespace Infrared

/-- Whether a call sends nothing, takes no pin and does not enable interrupts. -/
def Call.Aside (call : Call) : Prop :=
  call.Still ∧ ¬call.IsSend

theorem Call.aside_of_minor {call : Call} (h : call.Minor) : call.Aside := by
  refine ⟨still_of_minor h, ?_⟩
  intro hsend
  cases call with
  | send connection data => exact h
  | _ => exact hsend

theorem Call.aside_close (connection : Connection) : (close connection).Aside :=
  ⟨⟨id, by simp⟩, id⟩

/-- The calls that have the station wait for a signal on a pin. -/
def Station.arming (pin : UInt8) : List Call :=
  [.input pin, .disableInterrupts, .clearEdge pin, .attachEdge pin, .enableInterrupts]

namespace Session.View

variable {ω : Type} [Platform ω]

theorem aside_of_mem_dismiss {connection : Connection} {call : Call}
    (h : call ∈ [Call.close connection, .disableInterrupts]) : call.Aside := by
  simp only [List.mem_cons, List.not_mem_nil, or_false] at h
  rcases h with rfl | rfl
  · exact Call.aside_close connection
  · exact Call.aside_of_minor trivial

/-- Going on with a reply sends at most, and leaves the conversation with the reply or ends it. -/
theorem exists_adds_respond (config : Config) (connection : Connection) (reply : Reply)
    (kept : List UInt8) (sent : Nat) (b : Board (Traced ω)) :
    ∃ calls, Traced.Adds calls b.world (respond config connection reply kept sent b).2.2.world ∧
      (∀ call ∈ calls, call.Aside ∨ call.IsSend) ∧
      ((respond config connection reply kept sent b).2.1 = ready ∨
        (respond config connection reply kept sent b).2.1 =
          response connection reply kept (sent + 1)) := by
  rcases history_respond config connection reply kept sent b with
    ⟨-, hview, hhistory⟩ | ⟨-, hview, hhistory⟩ | ⟨-, hview, told, htold, hhistory⟩
  · refine ⟨_, ⟨_, hhistory, rfl⟩, ?_, .inr hview⟩
    exact List.forall_mem_singleton.mpr (.inr trivial)
  · refine ⟨_, ⟨_, hhistory, rfl⟩, ?_, .inl hview⟩
    refine List.forall_mem_cons.mpr ⟨.inr trivial, ?_⟩
    intro call hcall
    exact .inl (aside_of_mem_dismiss hcall)
  · refine ⟨_, ⟨_, hhistory, rfl⟩, ?_, .inl hview⟩
    intro call hcall
    rw [List.map_append, List.mem_append] at hcall
    rcases hcall with hcall | hcall
    · obtain ⟨entry, hentry, rfl⟩ := List.mem_map.mp hcall
      obtain ⟨name, ssid, password, hconfigured⟩ := htold entry hentry
      rw [hconfigured]
      exact .inl (Call.aside_of_minor trivial)
    · exact .inl (aside_of_mem_dismiss hcall)

@[simp] theorem carrierFrequency_dismiss (connection : Connection) (b : Board ω) :
    (dismiss connection b).station.carrierFrequency = b.station.carrierFrequency :=
  rfl

theorem carrierFrequency_respond (config : Config) (connection : Connection) (reply : Reply)
    (kept : List UInt8) (sent : Nat) (b : Board ω) :
    (respond config connection reply kept sent b).2.2.station.carrierFrequency =
      b.station.carrierFrequency := by
  rw [respond]
  split
  · rw [carrierFrequency_dismiss, station_apply]
  · split
    · rfl
    · rfl

end Session.View

namespace Device

variable {ω : Type}

namespace View

/-- The calls that a request asks for before its reply may begin. -/
def deed [Platform ω] (v : View ω) : List Call :=
  match v.session with
  | .process _ (.send frequency) kept =>
    Waveform.calls v.board.sendPin (Waveform.halfPeriod frequency) (v.board.station.durations kept)
  | _ => []

/-- The carrier frequency of the station once a request is done. -/
def frequency (v : View ω) : UInt32 :=
  match v.session with
  | .process _ (.send frequency) _ => frequency
  | _ => v.board.station.carrierFrequency

/-- What an operation does to the conversation on a connection, and the calls that it makes for it. -/
inductive Act [Platform ω] (connection : Connection) (v w : View (Traced ω)) : List Call → Prop
  | aside {calls : List Call} (hsession : w.session = v.session) (hpending : w.pending = v.pending)
      (hstation : w.board.station = v.board.station) (hcalls : ∀ call ∈ calls, call.Aside) :
    Act connection v w calls
  | ended {calls : List Call} (hready : w.session = .ready)
      (hfrequency : w.board.station.carrierFrequency = v.board.station.carrierFrequency)
      (hcalls : ∀ call ∈ calls, call.Aside) : Act connection v w calls
  /-- A part of the request is read. -/
  | read {received more : List UInt8} (hv : v.session = .request connection received)
      (hw : w.session = .request connection more) : Act connection v w []
  /-- The request is taken up. -/
  | accepted {received bytes kept : List UInt8} {request : Request}
      (hv : v.session = .request connection received)
      (hverdict : Request.verdict v.config bytes = .accepted request kept)
      (hw : w = v.decided connection bytes (.accepted request kept)) : Act connection v w []
  /-- A capture is armed. -/
  | armed {kept : List UInt8} (hv : v.session = .process connection (.receive none) kept)
      (hpending : v.pending = true) (hsession : w.session = v.session) (hwaits : w.pending = false)
      (hpin : w.board.station.pin = v.board.receivePin) :
    Act connection v w (Station.arming v.board.receivePin)
  /-- A signal is recorded. -/
  | recorded {kept pulses : List UInt8} {report : Station.Report} {count : Nat}
      (hv : v.session = .process connection (.receive none) kept) (hwaits : v.pending = false)
      (hw : w.session = .process connection (.receive (some report)) pulses) :
    Act connection v w (.disableInterrupts :: Station.samples v.board.station.pin (count + 1))
  /-- The request is done, and a piece of the reply is sent. -/
  | spoke {calls : List Call} (hanswer : v.answer? ≠ none)
      (hw : w.session = .ready ∨
        ∃ reply kept sent, w.session = .response connection reply kept sent)
      (hfrequency : w.board.station.carrierFrequency = v.frequency)
      (hcalls : ∀ call ∈ calls, call.Aside ∨ call.IsSend) : Act connection v w (v.deed ++ calls)

variable [Platform ω] {connection : Connection} {v : View (Traced ω)}

/-- Whether an operation of a view does one of these things. -/
def Acts (connection : Connection) (v w : View (Traced ω)) : Prop :=
  ∃ calls, Traced.Adds calls v.board.world w.board.world ∧ v.Act connection w calls

theorem acts_of_eq {w : View (Traced ω)} (hsession : w.session = v.session)
    (hpending : w.pending = v.pending) (hstation : w.board.station = v.board.station)
    (hhistory : w.board.world.history = v.board.world.history) : Acts connection v w :=
  ⟨[], ⟨[], by rw [hhistory, List.append_nil], rfl⟩, .aside hsession hpending hstation (by simp)⟩

theorem acts_of_dismiss {w : View (Traced ω)} (hready : w.session = .ready)
    (hboard : w.board = Session.View.dismiss connection v.board) : Acts connection v w := by
  have hadds := Session.View.adds_dismiss connection v.board
  rw [← hboard] at hadds
  refine ⟨_, hadds, .ended hready ?_ fun call => Session.View.aside_of_mem_dismiss⟩
  rw [hboard, Session.View.carrierFrequency_dismiss]

theorem acts_of_respond {w : View (Traced ω)} (reply : Reply) (kept : List UInt8) (sent : Nat)
    (b : Board (Traced ω)) (hanswer : v.answer? ≠ none) (hdeed : Traced.Adds v.deed v.board.world b.world)
    (hfrequency : b.station.carrierFrequency = v.frequency)
    (hw : w.session = (Session.View.respond v.config connection reply kept sent b).2.1 ∧
      w.board = (Session.View.respond v.config connection reply kept sent b).2.2) :
    Acts connection v w := by
  obtain ⟨calls, hadds, hcalls, hview⟩ :=
    Session.View.exists_adds_respond v.config connection reply kept sent b
  have hsame := Session.View.carrierFrequency_respond v.config connection reply kept sent b
  rw [← hw.1] at hview
  rw [← hw.2] at hadds hsame
  refine ⟨v.deed ++ calls, hdeed.trans hadds, .spoke hanswer ?_ (hsame.trans hfrequency) hcalls⟩
  exact hview.imp_right fun hresponse => ⟨reply, kept, sent + 1, hresponse⟩

theorem acts_runPending (hkeeps : v.Keeps) (hserved : v.session.connection? = some connection) :
    Acts connection v v.runPending.2 := by
  rw [runPending]
  split
  · rename_i hpending
    have hwaits := hkeeps.waits
    rw [hpending] at hwaits
    obtain ⟨harmed, current, request, kept, hv⟩ := hwaits.eq_process_of_pending
    rw [hv, Session.View.connection?, Option.some.injEq] at hserved
    subst hserved
    cases request with
    | send frequency =>
        refine acts_of_respond .sent kept 0 (v.board.transmit frequency kept) (by simp [answer?, hv]) ?_ ?_ ?_
        · rw [deed, hv]
          exact v.board.adds_transmit frequency kept
        · rw [View.frequency, hv]
          rfl
        · simp only [after, hv, Session.View.run, and_self]
    | config name ssid password =>
        refine acts_of_respond (.configured name ssid password) kept 0 v.board (by simp [answer?, hv]) ?_ ?_ ?_
        · rw [deed, hv]
          exact Traced.Adds.nil
        · rw [View.frequency, hv]
        · simp only [after, hv, Session.View.run, and_self]
    | receive report =>
        cases report with
        | some report =>
            refine acts_of_respond (.captured report.count) kept 0 v.board (by simp [answer?, hv]) ?_ ?_ ?_
            · rw [deed, hv]
              exact Traced.Adds.nil
            · rw [View.frequency, hv]
            · simp only [after, hv, Session.View.run, and_self]
        | none =>
            have hoff : ¬v.board.station.armed = true := by simp [harmed]
            have hw : View.after { v with pending := false } (v.session.run v.config v.board) =
                ⟨v.config, v.session, v.board.armCapture, v.running, false⟩ := by
              simp only [after, hv, Session.View.run, if_neg hoff, pendingAfter]
            rw [hw]
            exact ⟨_, v.board.adds_armCapture, .armed hv hpending rfl rfl rfl⟩
  · exact acts_of_eq rfl rfl rfl rfl

theorem acts_edge (hkeeps : v.Keeps) (hserved : v.session.connection? = some connection) :
    Acts connection v (v.handle .edge) := by
  cases harmed : v.board.station.armed with
  | false =>
      have hedge : v.handle .edge = { v with board := v.board.tell .disableInterrupts } := by
        simp only [handle, Session.View.edge, Board.capture_of_not_armed harmed, after, pendingAfter]
      rw [hedge]
      refine ⟨_, v.board.adds_tell .disableInterrupts, .aside rfl rfl rfl ?_⟩
      exact List.forall_mem_singleton.mpr (Call.aside_of_minor trivial)
  | true =>
      obtain ⟨hpending, -, current, hv⟩ := hkeeps.waits.eq_process_of_armed harmed
      rw [hv, Session.View.connection?, Option.some.injEq] at hserved
      subst hserved
      obtain ⟨report, hreport, -⟩ :=
        Board.capture_of_armed harmed (Buffer.new v.config.scratchLength)
      obtain ⟨count, hadds⟩ := Station.exists_adds_capture_of_armed harmed
        (Buffer.new v.config.scratchLength) v.board.world
      have hworld : (v.board.capture (Buffer.new v.config.scratchLength)).2.1.world =
          (v.board.station.capture (Buffer.new v.config.scratchLength) v.board.world).2.2.2 := rfl
      rw [← hworld] at hadds
      rcases hcapture : v.board.capture (Buffer.new v.config.scratchLength) with ⟨got, board, store⟩
      rw [hcapture] at hreport hadds
      dsimp only at hreport hadds
      subst hreport
      have hw : (v.handle .edge).session = .process current (.receive (some report)) store.filled ∧
          (v.handle .edge).board = board := by
        simp only [handle, hv, Session.View.edge, hcapture, after, and_self]
      rw [← hw.2] at hadds
      exact ⟨_, hadds, .recorded hv hpending hw.1⟩

theorem acts_receive (hserved : v.session.connection? = some connection) (other : Connection)
    (data : List UInt8) : Acts connection v (v.handle (.receive other data)) := by
  by_cases hother : other = connection
  · subst hother
    have hcurrent : v.isCurrent other = true := by simp [isCurrent, hserved]
    cases hv : v.session with
    | request current received =>
        rw [hv, Session.View.connection?, Option.some.injEq] at hserved
        subst hserved
        by_cases hlength : data.length ≤ v.config.receiveBufferLength
        · rw [handle_receive_of_request hv hlength]
          cases hverdict : Request.verdict v.config (received ++ data) with
          | waiting => exact ⟨[], Traced.Adds.nil, .read hv rfl⟩
          | accepted request kept => exact ⟨[], Traced.Adds.nil, .accepted hv hverdict rfl⟩
          | refused => exact acts_of_dismiss rfl rfl
        · have hlong : v.config.receiveBufferLength < data.length := Nat.lt_of_not_le hlength
          rw [handle, if_pos hcurrent, hv, Session.View.receive, if_pos hlong]
          exact acts_of_dismiss rfl rfl
    | _ =>
        rw [handle_receive_of_label_ne (by simp [hv, Session.View.label])]
        exact acts_of_eq rfl rfl rfl rfl
  · have hcurrent : ¬v.isCurrent other = true := by simp [isCurrent, hserved, Ne.symm hother]
    rw [handle, if_neg hcurrent]
    exact acts_of_eq rfl rfl rfl rfl

theorem acts_sent (hserved : v.session.connection? = some connection) (other : Connection) :
    Acts connection v (v.handle (.sent other)) := by
  by_cases hother : other = connection
  · subst hother
    have hcurrent : v.isCurrent other = true := by simp [isCurrent, hserved]
    cases hv : v.session with
    | response current reply kept sent =>
        rw [hv, Session.View.connection?, Option.some.injEq] at hserved
        subst hserved
        refine acts_of_respond reply kept sent v.board (by simp [answer?, hv]) ?_ ?_ ?_
        · rw [deed, hv]
          exact Traced.Adds.nil
        · rw [View.frequency, hv]
        · simp only [handle, hcurrent, if_true, hv, Session.View.sent, after, and_self]
    | _ =>
        rw [handle_sent_of_label_ne (by simp [hv, Session.View.label])]
        exact acts_of_eq rfl rfl rfl rfl
  · have hcurrent : ¬v.isCurrent other = true := by simp [isCurrent, hserved, Ne.symm hother]
    rw [handle, if_neg hcurrent]
    exact acts_of_eq rfl rfl rfl rfl

theorem acts_handle (hkeeps : v.Keeps) (hserved : v.session.connection? = some connection)
    (event : Event) : Acts connection v (v.handle event) := by
  cases event with
  | connect other =>
      have hbusy : ¬(v.running = true ∧ v.session = .ready) := by
        rintro ⟨-, hready⟩
        simp [hready, Session.View.connection?] at hserved
      rw [handle, connect, if_neg hbusy]
      refine ⟨_, v.board.adds_tell (.close other), .aside rfl rfl rfl ?_⟩
      exact List.forall_mem_singleton.mpr (Call.aside_close other)
  | receive other data => exact acts_receive hserved other data
  | sent other => exact acts_sent hserved other
  | disconnect other =>
      rw [handle]
      split
      · refine ⟨_, v.board.adds_resetStation, .ended rfl rfl ?_⟩
        exact List.forall_mem_singleton.mpr (Call.aside_of_minor trivial)
      · exact acts_of_eq rfl rfl rfl rfl
  | edge => exact acts_edge hkeeps hserved
  | timer =>
      refine ⟨_, Traced.adds_tellAll v.board.beacon.tickCalls v.board.world, .aside rfl rfl rfl ?_⟩
      intro call hcall
      rcases Beacon.mem_tickCalls hcall with ⟨port, data, rfl⟩ | ⟨delay, rfl⟩
      · exact Call.aside_of_minor trivial
      · exact Call.aside_of_minor trivial

/-- Every operation does one of these things to the conversation that is going on. -/
theorem acts_perform (hkeeps : v.Keeps) (hserved : v.session.connection? = some connection)
    (op : Operation ω) : Acts connection v (v.perform op).2 := by
  have hrunning : v.running = true := by
    apply hkeeps.running_of_ne_ready
    intro hready
    simp [hready, Session.View.connection?] at hserved
  cases op with
  | setListener => exact acts_of_eq rfl rfl rfl rfl
  | surroundings f => exact acts_of_eq rfl rfl rfl rfl
  | setName name =>
      obtain ⟨hstation, hworld⟩ := v.board.setName_eq name
      exact acts_of_eq rfl rfl hstation (congrArg Traced.history hworld)
  | generateName chip =>
      obtain ⟨hstation, hworld⟩ := v.board.generateName_eq chip
      exact acts_of_eq rfl rfl hstation (congrArg Traced.history hworld)
  | start =>
      have hbusy : v.start = (.error .busy, v) := by rw [start, if_pos hrunning]
      rw [perform, hbusy]
      exact acts_of_eq rfl rfl rfl rfl
  | stop =>
      have hstop : v.stop = ⟨v.config, .ready,
          shutDown (Session.View.dismiss connection v.board), false, false⟩ := by
        rw [stop, if_pos hrunning, hserved]
      have hshut : Traced.Adds [.disarm, .shutdown] (Session.View.dismiss connection v.board).world
          (shutDown (Session.View.dismiss connection v.board)).world :=
        (Traced.adds_tell .disarm _).trans (Traced.adds_tell .shutdown _)
      rw [perform, hstop]
      refine ⟨_, (Session.View.adds_dismiss connection v.board).trans hshut, .ended rfl rfl ?_⟩
      intro call hcall
      rcases List.mem_append.mp hcall with hcall | hcall
      · exact Session.View.aside_of_mem_dismiss hcall
      · simp only [List.mem_cons, List.not_mem_nil, or_false] at hcall
        rcases hcall with rfl | rfl
        · exact Call.aside_of_minor trivial
        · exact Call.aside_of_minor trivial
  | runPending => exact acts_runPending hkeeps hserved
  | handle event => exact acts_handle hkeeps hserved event

end View

variable [Platform ω]

/-- What an operation does to the conversation that is going on, told of the device. -/
theorem Follows.act {d : Device (Traced ω)} {v : View (Traced ω)} (h : d.Follows v)
    {connection : Connection} (hserved : d.session.connection? = some connection) (op : Operation ω) :
    v.Act connection (v.perform op).2 ((d.added op).map (·.call)) := by
  rw [h.shows.session_shows.connection?_eq] at hserved
  obtain ⟨calls, ⟨entries, hhistory, rfl⟩, hact⟩ := View.acts_perform h.keeps hserved op
  rw [← (h.perform op).2.shows.board_eq, ← h.shows.board_eq] at hhistory
  have hadded : d.added op = entries := by rw [added, hhistory, List.drop_left]
  rwa [hadded]

end Device

end Infrared
