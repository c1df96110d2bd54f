import Infrared.Proofs.Device.Turn

namespace Infrared

/-- Whether a call neither sends on a connection nor closes one, and neither takes a pin nor enables interrupts. -/
def Call.Minor : Call → Prop
  | send _ _ | close _ | output _ _ | input _ | write _ _ | enableInterrupts => False
  | _ => True

/-- Whether a call is part of a transmission. -/
def Call.Drives : Call → Prop
  | output _ _ | write _ _ | delay _ => True
  | _ => False

theorem Beacon.mem_tickCalls {beacon : Beacon} {call : Call} (h : call ∈ beacon.tickCalls) :
    (∃ port data, call = .broadcast port data) ∨ ∃ delay, call = .arm delay := by
  rw [tickCalls] at h
  split at h
  · rcases List.mem_append.mp h with h | h
    · split at h
      · simp at h
      · exact .inl ⟨_, _, List.mem_singleton.mp h⟩
    · exact .inr ⟨_, List.mem_singleton.mp h⟩
  · simp at h

namespace Traced

variable {ω : Type} {t u : Traced ω} {calls : List Call}

theorem Adds.exists_history_eq {P : Call → Prop} (h : Adds calls t u) (hcalls : ∀ call ∈ calls, P call) :
    ∃ entries, u.history = t.history ++ entries ∧ ∀ entry ∈ entries, P entry.call := by
  obtain ⟨entries, hhistory, rfl⟩ := h
  exact ⟨entries, hhistory, fun entry hentry => hcalls _ (List.mem_map_of_mem hentry)⟩

end Traced

namespace Session.View

variable {ω : Type} [Platform ω]

theorem history_dismiss (connection : Connection) (b : Board (Traced ω)) :
    (dismiss connection b).world.history =
      b.world.history ++ [⟨.close connection, ()⟩, ⟨.disableInterrupts, ()⟩] :=
  List.append_assoc _ _ _

/-- What going on with a reply comes to, call by call. -/
theorem history_respond (config : Config) (connection : Connection) (reply : Reply)
    (kept : List UInt8) (sent : Nat) (b : Board (Traced ω)) :
    (piece config reply kept sent ≠ [] ∧
      (respond config connection reply kept sent b).2.1 = response connection reply kept (sent + 1) ∧
      (respond config connection reply kept sent b).2.2.world.history =
        b.world.history ++ [⟨.send connection (piece config reply kept sent), true⟩]) ∨
    (piece config reply kept sent ≠ [] ∧
      (respond config connection reply kept sent b).2.1 = ready ∧
      (respond config connection reply kept sent b).2.2.world.history =
        b.world.history ++ [⟨.send connection (piece config reply kept sent), false⟩,
          ⟨.close connection, ()⟩, ⟨.disableInterrupts, ()⟩]) ∨
    (piece config reply kept sent = [] ∧
      (respond config connection reply kept sent b).2.1 = ready ∧
      ∃ told : List Entry, (∀ entry ∈ told, ∃ name ssid password,
          entry.call = .configured name ssid password) ∧
        (respond config connection reply kept sent b).2.2.world.history =
          b.world.history ++ (told ++ [⟨.close connection, ()⟩, ⟨.disableInterrupts, ()⟩])) := by
  have hhistory : (Platform.send connection (piece config reply kept sent) b.world).2.history =
      b.world.history ++ [⟨.send connection (piece config reply kept sent),
        (Platform.send connection (piece config reply kept sent) b.world).1⟩] := rfl
  by_cases hpiece : piece config reply kept sent = []
  · obtain ⟨calls, hadds, hcalls⟩ := exists_adds_apply reply kept b
    obtain ⟨told, htold, hconfigured⟩ := hadds.exists_history_eq hcalls
    refine .inr (.inr ⟨hpiece, ?_, told, hconfigured, ?_⟩)
    · rw [respond, if_pos hpiece]
    · rw [respond, if_pos hpiece, history_dismiss, htold, List.append_assoc]
  · rcases hanswer : Platform.send connection (piece config reply kept sent) b.world with ⟨taken, world⟩
    rw [hanswer] at hhistory
    cases taken with
    | true =>
        refine .inl ⟨hpiece, ?_, ?_⟩
        · rw [respond, if_neg hpiece, hanswer]
        · rw [respond, if_neg hpiece, hanswer]
          exact hhistory
    | false =>
        refine .inr (.inl ⟨hpiece, ?_, ?_⟩)
        · rw [respond, if_neg hpiece, hanswer]
        · rw [respond, if_neg hpiece, hanswer]
          dsimp only at hhistory ⊢
          rw [history_dismiss, hhistory, List.append_assoc]
          rfl

theorem length_piece_le (config : Config) (reply : Reply) (kept : List UInt8) (sent : Nat) :
    (piece config reply kept sent).length ≤ config.sendBufferLength :=
  List.length_take_le _ _

end Session.View

namespace Device

variable {ω : Type}

/-- Whether an operation asks for a connection or takes away the one that is served. -/
def Operation.Moves (s : Session.View) : Operation ω → Prop
  | .handle (.connect _) => True
  | .handle (.disconnect connection) => s.connection? = some connection
  | _ => False

namespace View

/-- Whether an operation has the conversation on a connection go on with its reply, after the given calls: the
first piece follows on what the request asked for, and each other one on a confirmation. -/
inductive Speaks (v : View (Traced ω)) (connection : Connection) : Operation ω → List Entry → Prop
  | first {request : Request} {kept : List UInt8} {entries : List Entry}
      (hv : v.session = .process connection request kept) (hpending : v.pending = true)
      (hdrives : ∀ entry ∈ entries, entry.call.Drives) : Speaks v connection .runPending entries
  | next {reply : Reply} {kept : List UInt8} {sent : Nat}
      (hv : v.session = .response connection reply kept sent) :
    Speaks v connection (.handle (.sent connection)) []

/-- What an operation comes to: the entries that it adds to the history, and the view of the session that it
leaves behind. -/
inductive Effect (v : View (Traced ω)) : Operation ω → List Entry → Session.View → Prop
  /-- The conversation, or its absence, goes on as it was. -/
  | stays {op : Operation ω} {entries : List Entry} (hidle : ¬op.Moves v.session)
      (hminor : ∀ entry ∈ entries, entry.call.Minor) : Effect v op entries v.session
  /-- A connection is refused. -/
  | turnedAway {connection : Connection} (hbusy : ¬(v.running = true ∧ v.session = .ready)) :
    Effect v (.handle (.connect connection)) [⟨.close connection, ()⟩] v.session
  /-- A connection is accepted. -/
  | tookUp {connection : Connection} (hrunning : v.running = true) (hready : v.session = .ready) :
    Effect v (.handle (.connect connection)) [] (.request connection [])
  /-- A part of a request is read, perhaps the last one. -/
  | read {connection : Connection} {received data : List UInt8} {next : Session.View}
      (hv : v.session = .request connection received)
      (hnext : (∃ more, next = .request connection more) ∨
        ∃ request kept, next = .process connection request kept) :
    Effect v (.handle (.receive connection data)) [] next
  /-- A request is given up. -/
  | dropped {connection : Connection} {received data : List UInt8}
      (hv : v.session = .request connection received) :
    Effect v (.handle (.receive connection data))
      [⟨.close connection, ()⟩, ⟨.disableInterrupts, ()⟩] .ready
  /-- A capture is armed. -/
  | waits {connection : Connection} {kept : List UInt8} {entries : List Entry}
      (hv : v.session = .process connection (.receive none) kept) (hpending : v.pending = true)
      (hcalls : entries.map (·.call) = [.input v.board.receivePin, .disableInterrupts,
        .clearEdge v.board.receivePin, .attachEdge v.board.receivePin, .enableInterrupts]) :
    Effect v .runPending entries v.session
  /-- A signal is recorded. -/
  | recorded {connection : Connection} {report : Station.Report} {store : List UInt8}
      {entries : List Entry} (hv : v.session = .process connection (.receive none) [])
      (hminor : ∀ entry ∈ entries, entry.call.Minor) :
    Effect v (.handle .edge) entries (.process connection (.receive (some report)) store)
  /-- A piece of a reply is sent. -/
  | replied {op : Operation ω} {connection : Connection} {reply : Reply} {kept data : List UInt8}
      {sent : Nat} {entries : List Entry} (hspeaks : v.Speaks connection op entries)
      (hsome : data ≠ []) (hlength : data.length ≤ v.config.sendBufferLength) :
    Effect v op (entries ++ [⟨.send connection data, true⟩]) (.response connection reply kept sent)
  /-- A piece of a reply is refused. -/
  | cut {op : Operation ω} {connection : Connection} {data : List UInt8} {entries : List Entry}
      (hspeaks : v.Speaks connection op entries) (hsome : data ≠ [])
      (hlength : data.length ≤ v.config.sendBufferLength) :
    Effect v op (entries ++ [⟨.send connection data, false⟩, ⟨.close connection, ()⟩,
      ⟨.disableInterrupts, ()⟩]) .ready
  /-- The last piece of a reply was confirmed. -/
  | finished {connection : Connection} {reply : Reply} {kept : List UInt8} {sent : Nat}
      {told : List Entry} (hv : v.session = .response connection reply kept sent)
      (htold : ∀ entry ∈ told, ∃ name ssid password, entry.call = .configured name ssid password) :
    Effect v (.handle (.sent connection))
      (told ++ [⟨.close connection, ()⟩, ⟨.disableInterrupts, ()⟩]) .ready
  /-- The client is gone. -/
  | left {connection : Connection} (hserved : v.session.connection? = some connection) :
    Effect v (.handle (.disconnect connection)) [⟨.disableInterrupts, ()⟩] .ready
  /-- The service is stopped. -/
  | stopped {connection : Connection} (hserved : v.session.connection? = some connection) :
    Effect v .stop [⟨.close connection, ()⟩, ⟨.disableInterrupts, ()⟩, ⟨.disarm, ()⟩,
      ⟨.shutdown, ()⟩] .ready

/-- Whether a view becomes another one in one operation, by one of the cases. -/
def Comes (v : View (Traced ω)) (op : Operation ω) (w : View (Traced ω)) : Prop :=
  ∃ entries, w.board.world.history = v.board.world.history ++ entries ∧
    v.Effect op entries w.session

variable {v : View (Traced ω)} {op : Operation ω}

theorem comes_of_stays {w : View (Traced ω)} {calls : List Call} (hidle : ¬op.Moves v.session)
    (hsession : w.session = v.session) (hadds : Traced.Adds calls v.board.world w.board.world)
    (hminor : ∀ call ∈ calls, call.Minor) : v.Comes op w := by
  obtain ⟨entries, hhistory, hentries⟩ := hadds.exists_history_eq hminor
  refine ⟨entries, hhistory, ?_⟩
  rw [hsession]
  exact .stays hidle hentries

/-- Nothing comes of an operation that leaves the session and the world as they are. -/
theorem comes_of_eq {w : View (Traced ω)} (hidle : ¬op.Moves v.session)
    (hsession : w.session = v.session) (hhistory : w.board.world.history = v.board.world.history) :
    v.Comes op w :=
  comes_of_stays hidle hsession ⟨[], by rw [hhistory, List.append_nil], rfl⟩ (by simp)

variable [Platform ω]

theorem comes_respond {w : View (Traced ω)} {connection : Connection} {reply : Reply}
    {kept : List UInt8} {sent : Nat} {b : Board (Traced ω)} {entries : List Entry}
    (hspeaks : v.Speaks connection op entries)
    (hb : b.world.history = v.board.world.history ++ entries)
    (hsession : w.session = (Session.View.respond v.config connection reply kept sent b).2.1)
    (hboard : w.board = (Session.View.respond v.config connection reply kept sent b).2.2)
    (hlast : Session.View.piece v.config reply kept sent = [] → v.session.label = "Response") :
    v.Comes op w := by
  have hlength := Session.View.length_piece_le v.config reply kept sent
  rcases Session.View.history_respond v.config connection reply kept sent b with
    ⟨hpiece, hview, hhistory⟩ | ⟨hpiece, hview, hhistory⟩ | ⟨hpiece, hview, told, htold, hhistory⟩
  · rw [← hsession] at hview
    rw [← hboard, hb, List.append_assoc] at hhistory
    refine ⟨_, hhistory, ?_⟩
    rw [hview]
    exact .replied hspeaks hpiece hlength
  · rw [← hsession] at hview
    rw [← hboard, hb, List.append_assoc] at hhistory
    refine ⟨_, hhistory, ?_⟩
    rw [hview]
    exact .cut hspeaks hpiece hlength
  · rw [← hsession] at hview
    rw [← hboard, hb] at hhistory
    have hlabel := hlast hpiece
    cases hspeaks with
    | first hv hpending hdrives => simp [hv, Session.View.label] at hlabel
    | next hv =>
        rw [List.append_nil] at hhistory
        refine ⟨_, hhistory, ?_⟩
        rw [hview]
        exact .finished hv htold

theorem comes_runPending (hkeeps : v.Keeps) : v.Comes .runPending v.runPending.2 := by
  rw [runPending]
  split
  · rename_i hpending
    have hwaits := hkeeps.waits
    rw [hpending] at hwaits
    obtain ⟨harmed, connection, request, kept, hv⟩ := hwaits.eq_process_of_pending
    have hfirst (reply : Reply) : Session.View.piece v.config reply kept 0 = [] →
        v.session.label = "Response" :=
      fun hpiece => absurd hpiece (Session.View.piece_zero_ne_nil hkeeps.valid reply kept)
    cases request with
    | send frequency =>
        have hdrives (call : Call) (hcall : call ∈ Waveform.calls v.board.sendPin
            (Waveform.halfPeriod frequency) (v.board.station.durations kept)) : call.Drives := by
          rcases Waveform.mem_calls hcall with ⟨_, rfl⟩ | ⟨_, rfl⟩ | ⟨_, rfl⟩
          · trivial
          · trivial
          · trivial
        obtain ⟨entries, hhistory, hentries⟩ :=
          (v.board.adds_transmit frequency kept).exists_history_eq hdrives
        refine comes_respond (.first hv hpending hentries) hhistory ?_ ?_ (hfirst .sent)
        · simp only [after, hv, Session.View.run]
        · simp only [after, hv, Session.View.run]
    | config name ssid password =>
        refine comes_respond (.first hv hpending (by simp)) (List.append_nil _).symm ?_ ?_
          (hfirst (.configured name ssid password))
        · simp only [after, hv, Session.View.run]
        · simp only [after, hv, Session.View.run]
    | receive report =>
        cases report with
        | some report =>
            refine comes_respond (.first hv hpending (by simp)) (List.append_nil _).symm ?_ ?_
              (hfirst (.captured report.count))
            · simp only [after, hv, Session.View.run]
            · simp only [after, hv, Session.View.run]
        | none =>
            have hoff : ¬v.board.station.armed = true := by simp [harmed]
            obtain ⟨entries, hhistory, hcalls⟩ := v.board.adds_armCapture
            have hboard : (View.after { v with pending := false }
                (v.session.run v.config v.board)).board = v.board.armCapture := by
              simp only [after, hv, Session.View.run, if_neg hoff]
            have hsession : (View.after { v with pending := false }
                (v.session.run v.config v.board)).session = v.session := by
              simp only [after, hv, Session.View.run]
            refine ⟨entries, by rw [hboard, hhistory], ?_⟩
            rw [hsession]
            exact .waits hv hpending hcalls
  · exact comes_of_eq id rfl rfl

theorem comes_edge (hkeeps : v.Keeps) : v.Comes (.handle .edge) (v.handle .edge) := by
  obtain ⟨count, hadds⟩ := v.board.exists_adds_capture (Buffer.new v.config.scratchLength)
  have hminor (call : Call)
      (hcall : call ∈ .disableInterrupts :: Station.samples v.board.station.pin count) : call.Minor := by
    rcases List.mem_cons.mp hcall with rfl | hcall
    · trivial
    · obtain ⟨pair, hpair, hmem⟩ := List.mem_flatten.mp hcall
      obtain ⟨-, rfl⟩ := List.mem_replicate.mp hpair
      simp only [List.mem_cons, List.not_mem_nil, or_false] at hmem
      rcases hmem with rfl | rfl
      · trivial
      · trivial
  cases harmed : v.board.station.armed with
  | false =>
      have hedge : v.handle .edge = { v with board := v.board.tell .disableInterrupts } := by
        simp only [handle, Session.View.edge, Board.capture_of_not_armed harmed, after, pendingAfter]
      rw [hedge]
      exact comes_of_stays id rfl (v.board.adds_tell .disableInterrupts)
        (List.forall_mem_singleton.mpr trivial)
  | true =>
      obtain ⟨-, -, connection, hv⟩ := hkeeps.waits.eq_process_of_armed harmed
      obtain ⟨report, hreport, -⟩ :=
        Board.capture_of_armed harmed (Buffer.new v.config.scratchLength)
      obtain ⟨entries, hhistory, hentries⟩ := hadds.exists_history_eq hminor
      rcases hcapture : v.board.capture (Buffer.new v.config.scratchLength) with ⟨got, board, store⟩
      rw [hcapture] at hreport hhistory
      dsimp only at hreport hhistory
      subst hreport
      refine ⟨entries, ?_, ?_⟩
      · simp only [handle, hv, Session.View.edge, hcapture, after]
        exact hhistory
      · have hsession : (v.handle .edge).session =
            .process connection (.receive (some report)) store.filled := by
          simp only [handle, hv, Session.View.edge, hcapture, after]
        rw [hsession]
        exact .recorded hv hentries

theorem comes_receive (v : View (Traced ω)) (connection : Connection) (data : List UInt8) :
    v.Comes (.handle (.receive connection data)) (v.handle (.receive connection data)) := by
  by_cases hserved : v.session.connection? = some connection
  · have hcurrent : v.isCurrent connection = true := by simp [isCurrent, hserved]
    cases hv : v.session with
    | request current received =>
        have hsame : current = connection := by simpa [hv, Session.View.connection?] using hserved
        subst hsame
        rw [handle, if_pos hcurrent, hv]
        simp only [Session.View.receive]
        split
        · exact ⟨_, Session.View.history_dismiss current v.board, .dropped hv⟩
        · split
          · exact ⟨[], (List.append_nil _).symm, .read hv (.inl ⟨_, rfl⟩)⟩
          · exact ⟨[], (List.append_nil _).symm, .read hv (.inr ⟨_, _, rfl⟩)⟩
          · exact ⟨_, Session.View.history_dismiss current v.board, .dropped hv⟩
    | _ =>
        rw [handle_receive_of_label_ne (by simp [hv, Session.View.label])]
        exact comes_of_eq id rfl rfl
  · have hcurrent : ¬v.isCurrent connection = true := by simp [isCurrent, hserved]
    rw [handle, if_neg hcurrent]
    exact comes_of_eq id rfl rfl

theorem comes_sent (v : View (Traced ω)) (connection : Connection) :
    v.Comes (.handle (.sent connection)) (v.handle (.sent connection)) := by
  by_cases hserved : v.session.connection? = some connection
  · have hcurrent : v.isCurrent connection = true := by simp [isCurrent, hserved]
    cases hv : v.session with
    | response current reply kept sent =>
        have hsame : current = connection := by simpa [hv, Session.View.connection?] using hserved
        subst hsame
        rw [handle, if_pos hcurrent, hv]
        refine comes_respond (.next hv) (List.append_nil _).symm rfl rfl fun _ => ?_
        rw [hv]
        rfl
    | _ =>
        rw [handle_sent_of_label_ne (by simp [hv, Session.View.label])]
        exact comes_of_eq id rfl rfl
  · have hcurrent : ¬v.isCurrent connection = true := by simp [isCurrent, hserved]
    rw [handle, if_neg hcurrent]
    exact comes_of_eq id rfl rfl

theorem comes_handle (hkeeps : v.Keeps) (event : Event) :
    v.Comes (.handle event) (v.handle event) := by
  cases event with
  | connect connection =>
      rw [handle, connect]
      split
      · rename_i hboth
        exact ⟨[], (List.append_nil _).symm, .tookUp hboth.1 hboth.2⟩
      · rename_i hbusy
        exact ⟨_, rfl, .turnedAway hbusy⟩
  | receive connection data => exact v.comes_receive connection data
  | sent connection => exact v.comes_sent connection
  | disconnect connection =>
      by_cases hserved : v.session.connection? = some connection
      · have hcurrent : v.isCurrent connection = true := by simp [isCurrent, hserved]
        rw [handle, if_pos hcurrent]
        exact ⟨_, rfl, .left hserved⟩
      · have hcurrent : ¬v.isCurrent connection = true := by simp [isCurrent, hserved]
        rw [handle, if_neg hcurrent]
        exact comes_of_eq hserved rfl rfl
  | edge => exact comes_edge hkeeps
  | timer =>
      refine comes_of_stays id rfl (Traced.adds_tellAll v.board.beacon.tickCalls v.board.world) ?_
      intro call hcall
      rcases Beacon.mem_tickCalls hcall with ⟨_, _, rfl⟩ | ⟨_, rfl⟩
      · trivial
      · trivial

theorem comes_start (v : View (Traced ω)) : v.Comes .start v.start.2 := by
  have hlisten : Traced.Adds [.listen v.config.port] v.board.world
      (Platform.listen v.config.port v.board.packBeacon.2.world).2 := Traced.adds_listen _ _
  simp only [start]
  split
  · exact comes_of_eq id rfl rfl
  · cases hanswer : Platform.listen v.config.port v.board.packBeacon.2.world with
    | mk accepted world =>
        rw [hanswer] at hlisten
        cases accepted with
        | true =>
            have harm := Traced.adds_tell (.arm v.board.packBeacon.2.beacon.interval) world
            refine comes_of_stays id rfl (hlisten.trans harm) ?_
            exact List.forall_mem_cons.mpr ⟨trivial, List.forall_mem_singleton.mpr trivial⟩
        | false =>
            exact comes_of_stays id rfl hlisten (List.forall_mem_singleton.mpr trivial)

theorem comes_stop (v : View (Traced ω)) : v.Comes .stop v.stop := by
  have hshut (b : Board (Traced ω)) : (shutDown b).world.history =
      b.world.history ++ [⟨.disarm, ()⟩, ⟨.shutdown, ()⟩] := List.append_assoc _ _ _
  rw [stop]
  split
  · cases hconnection : v.session.connection? with
    | some connection =>
        refine ⟨_, ?_, .stopped hconnection⟩
        simp only [hshut, Session.View.history_dismiss, List.append_assoc, List.cons_append,
          List.nil_append]
    | none =>
        have hready : v.session = .ready := by
          cases hv : v.session with
          | ready => rfl
          | _ => simp [hv, Session.View.connection?] at hconnection
        refine comes_of_stays id hready.symm ⟨_, hshut v.board, rfl⟩ ?_
        exact List.forall_mem_cons.mpr ⟨trivial, List.forall_mem_singleton.mpr trivial⟩
  · exact comes_of_eq id rfl rfl

/-- Every operation comes to one of the cases. -/
theorem effect_perform (hkeeps : v.Keeps) (op : Operation ω) : v.Comes op (v.perform op).2 := by
  cases op with
  | setListener => exact comes_of_eq id rfl rfl
  | setName name =>
      exact comes_of_eq id rfl (congrArg Traced.history (v.board.setName_eq name).2)
  | generateName chip =>
      exact comes_of_eq id rfl (congrArg Traced.history (v.board.generateName_eq chip).2)
  | start => exact v.comes_start
  | stop => exact v.comes_stop
  | runPending => exact comes_runPending hkeeps
  | handle event => exact comes_handle hkeeps event
  | surroundings f => exact comes_of_eq id rfl rfl

end View

variable [Platform ω]

/-- The calls that an operation makes, and how they are answered. -/
def added (d : Device (Traced ω)) (op : Operation ω) : List Entry :=
  (d.perform op).2.board.world.history.drop d.board.world.history.length

/-- What an operation comes to, told of the device. -/
theorem Follows.effect {d : Device (Traced ω)} {v : View (Traced ω)} (h : d.Follows v)
    (op : Operation ω) :
    (d.perform op).2.board.world.history = d.board.world.history ++ d.added op ∧
      v.Effect op (d.added op) (v.perform op).2.session := by
  obtain ⟨entries, hhistory, heffect⟩ := View.effect_perform h.keeps op
  rw [← (h.perform op).2.shows.board_eq, ← h.shows.board_eq] at hhistory
  have hadded : d.added op = entries := by rw [added, hhistory, List.drop_left]
  rw [hadded]
  exact ⟨hhistory, heffect⟩

theorem Follows.map_call_added {d : Device (Traced ω)} {v : View (Traced ω)} (h : d.Follows v)
    {op : Operation ω} {calls : List Call}
    (hadds : Traced.Adds calls v.board.world (v.perform op).2.board.world) :
    (d.added op).map (·.call) = calls := by
  obtain ⟨entries, hhistory, rfl⟩ := hadds
  rw [← h.shows.board_eq, ← (h.perform op).2.shows.board_eq] at hhistory
  rw [added, hhistory, List.drop_left]

end Device

end Infrared
