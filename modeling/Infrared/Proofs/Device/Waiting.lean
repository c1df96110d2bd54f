import Infrared.Proofs.Device.Run

/-!
What a device waits for between two operations. Main statement: a run comes only to devices that wait for
something that can still happen (`Reachable.exists_follows`).
-/

namespace Infrared

namespace Session.View

/-- Whether somebody serves a view: the session is run again, or a capture is armed for it, or the next event
concerns it. -/
def Waits (station : Station) (pending : Bool) : View → Prop
  | process _ r kept =>
    (pending = true ∧ station.armed = false) ∨
      (pending = false ∧ station.armed = true ∧ station.cursor = 0 ∧ r = .receive none ∧ kept = [])
  | _ => pending = false ∧ station.armed = false

theorem Waits.eq_process_of_armed {station : Station} {pending : Bool} {v : View}
    (h : v.Waits station pending) (harmed : station.armed = true) :
    pending = false ∧ station.cursor = 0 ∧ ∃ connection, v = process connection (.receive none) [] := by
  cases v with
  | process connection r kept =>
      rcases h with ⟨-, hoff⟩ | ⟨hpending, -, hcursor, rfl, rfl⟩
      · simp [harmed] at hoff
      · exact ⟨hpending, hcursor, connection, rfl⟩
  | _ =>
      have hoff : station.armed = false := h.2
      simp [harmed] at hoff

theorem Waits.eq_process_of_pending {station : Station} {v : View} (h : v.Waits station true) :
    station.armed = false ∧ ∃ connection r kept, v = process connection r kept := by
  cases v with
  | process connection r kept =>
      rcases h with ⟨-, harmed⟩ | ⟨hpending, -⟩
      · exact ⟨harmed, connection, r, kept, rfl⟩
      · simp at hpending
  | _ =>
      have hpending : true = false := h.1
      simp at hpending

variable {ω : Type} [Platform ω] {config : Config} {v : View} {board : Board ω} {pending : Bool}

theorem waits_respond (h : board.station.armed = false) (connection : Connection) (reply : Reply)
    (kept : List UInt8) (sent : Nat) :
    (respond config connection reply kept sent board).2.1.Waits
      (respond config connection reply kept sent board).2.2.station
      (Device.pendingAfter false (respond config connection reply kept sent board).1) := by
  simp only [respond]
  split
  · exact ⟨rfl, rfl⟩
  · split
    · exact ⟨rfl, h⟩
    · exact ⟨rfl, rfl⟩

theorem waits_run (hsound : v.Sound config) (h : v.Waits board.station true) :
    (v.run config board).2.1.Waits (v.run config board).2.2.station
      (Device.pendingAfter false (v.run config board).1) := by
  obtain ⟨harmed, connection, r, kept, rfl⟩ := h.eq_process_of_pending
  cases r with
  | send frequency =>
      have harmed' : (board.transmit frequency kept).station.armed = false := harmed
      exact waits_respond harmed' _ _ _ _
  | config name ssid password => exact waits_respond harmed _ _ _ _
  | receive report =>
      cases report with
      | some report => exact waits_respond harmed _ _ _ _
      | none =>
          have hoff : ¬board.station.armed = true := by simp [harmed]
          simp only [run, if_neg hoff]
          exact .inr ⟨rfl, rfl, rfl, rfl, hsound⟩

theorem waits_receive (h : v.Waits board.station pending) (data : List UInt8) :
    (v.receive config data board).2.1.Waits (v.receive config data board).2.2.station
      (Device.pendingAfter pending (v.receive config data board).1) := by
  cases v with
  | request connection received =>
      simp only [receive]
      split
      · exact ⟨rfl, rfl⟩
      · split
        · exact h
        · exact .inl ⟨rfl, h.2⟩
        · exact ⟨rfl, rfl⟩
  | ready => exact h
  | process connection r kept => exact h
  | response connection reply kept sent => exact h

theorem waits_sent (h : v.Waits board.station pending) :
    (v.sent config board).2.1.Waits (v.sent config board).2.2.station
      (Device.pendingAfter pending (v.sent config board).1) := by
  cases v with
  | response connection reply kept sent =>
      obtain ⟨hpending, harmed⟩ := h
      rw [hpending]
      exact waits_respond harmed connection reply kept sent
  | ready => exact h
  | request connection received => exact h
  | process connection r kept => exact h

theorem waits_edge (h : v.Waits board.station pending) :
    (v.edge config board).2.1.Waits (v.edge config board).2.2.station
      (Device.pendingAfter pending (v.edge config board).1) := by
  cases harmed : board.station.armed with
  | false =>
      simp only [edge, Board.capture_of_not_armed harmed]
      exact h
  | true =>
      obtain ⟨-, -, connection, rfl⟩ := h.eq_process_of_armed harmed
      obtain ⟨report, hreport, hstation⟩ :=
        Board.capture_of_armed harmed (Buffer.new config.scratchLength)
      rcases hcapture : board.capture (Buffer.new config.scratchLength) with ⟨got, after, store⟩
      rw [hcapture] at hreport hstation
      dsimp only at hreport hstation
      subst hreport
      simp only [edge, hcapture]
      refine .inl ⟨rfl, ?_⟩
      rw [hstation]

theorem ready_edge (board : Board ω) : (ready.edge config board).2.1 = ready := by
  simp only [edge]
  split
  · rfl
  · rfl

end Session.View

namespace Device

/-- How the parts of a view go together between two operations. -/
structure View.Keeps {ω : Type} (v : View (Traced ω)) : Prop where
  valid : v.config.Valid
  board_keeps : v.board.Keeps v.config
  waits : v.session.Waits v.board.station v.pending
  running_of_ne_ready : v.session ≠ .ready → v.running = true

/-- Whether a device has a view, and everything goes together in it. -/
structure Follows {ω : Type} (d : Device (Traced ω)) (v : View (Traced ω)) : Prop where
  shows : d.Shows v
  keeps : v.Keeps

namespace View.Keeps

variable {ω : Type} {v : View (Traced ω)}

theorem holds (h : v.Keeps) : v.session.Holds v.config v.board :=
  ⟨h.board_keeps.width_eq, fun harmed => (h.waits.eq_process_of_armed harmed).2.1,
    fun harmed => (h.waits.eq_process_of_armed harmed).2.2⟩

theorem of_board (h : v.Keeps) {board : Board (Traced ω)} (hboard : board.Keeps v.config)
    (hstation : board.station = v.board.station) : View.Keeps { v with board := board } :=
  ⟨h.valid, hboard, by rw [hstation]; exact h.waits, h.running_of_ne_ready⟩

theorem after (h : v.Keeps) {x : Session.Progress × Session.View × Board (Traced ω)}
    (hboard : x.2.2.Keeps v.config)
    (hwaits : x.2.1.Waits x.2.2.station (pendingAfter v.pending x.1))
    (hready : v.session = .ready → x.2.1 = .ready) : (v.after x).Keeps :=
  ⟨h.valid, hboard, hwaits,
    fun hne => h.running_of_ne_ready fun heq => hne (hready heq)⟩

variable [Platform ω]

theorem tell (h : v.Keeps) {call : Call} (hcall : ∀ enabled, call.switch enabled = enabled) :
    View.Keeps { v with board := v.board.tell call } :=
  h.of_board (h.board_keeps.tell hcall) rfl

theorem start (h : v.Keeps) : v.start.2.Keeps := by
  simp only [View.start]
  split
  · exact h
  · rename_i hrunning
    have hready : v.session = .ready := by
      refine Decidable.byContradiction fun hne => ?_
      exact hrunning (h.running_of_ne_ready hne)
    have hlisten : Traced.Adds [.listen v.config.port] v.board.world
        (Platform.listen v.config.port v.board.packBeacon.2.world).2 := Traced.adds_listen _ _
    cases hanswer : Platform.listen v.config.port v.board.packBeacon.2.world with
    | mk accepted world =>
        rw [hanswer] at hlisten
        cases accepted with
        | true =>
            have harm := Traced.adds_tell (.arm v.board.packBeacon.2.beacon.interval) world
            refine ⟨h.valid, h.board_keeps.of_adds (hlisten.trans harm) rfl rfl, ?_, fun _ => rfl⟩
            exact h.waits
        | false =>
            refine ⟨h.valid, h.board_keeps.of_adds hlisten rfl rfl, h.waits, h.running_of_ne_ready⟩

theorem shutDown {board : Board (Traced ω)} {config : Config} (h : board.Keeps config) :
    (View.shutDown board).Keeps config := by
  have hdisarm := Traced.adds_tell .disarm board.world
  have hshutdown := Traced.adds_tell .shutdown (Platform.tell .disarm board.world)
  exact h.of_adds (hdisarm.trans hshutdown) rfl rfl

theorem stop (h : v.Keeps) : v.stop.Keeps := by
  rw [View.stop]
  split
  · cases hconnection : v.session.connection? with
    | some connection =>
        exact ⟨h.valid, shutDown (h.board_keeps.dismiss connection), ⟨rfl, rfl⟩, by simp⟩
    | none =>
        have hready : v.session = .ready := by
          cases hv : v.session with
          | ready => rfl
          | _ => simp [hv, Session.View.connection?] at hconnection
        have hwaits := h.waits
        rw [hready] at hwaits
        exact ⟨h.valid, shutDown h.board_keeps, ⟨rfl, hwaits.2⟩, by simp⟩
  · exact h

theorem connect (h : v.Keeps) (connection : Connection) : (v.connect connection).Keeps := by
  rw [View.connect]
  split
  · rename_i hboth
    have hwaits := h.waits
    rw [hboth.2] at hwaits
    exact ⟨h.valid, h.board_keeps, hwaits, fun _ => hboth.1⟩
  · exact h.tell fun _ => rfl

theorem runPending (h : v.Keeps) (hsound : v.session.Sound v.config) : v.runPending.2.Keeps := by
  rw [View.runPending]
  split
  · rename_i hpending
    have hwaits := h.waits
    rw [hpending] at hwaits
    obtain ⟨harmed, connection, request, kept, hv⟩ := hwaits.eq_process_of_pending
    refine ⟨h.valid, ?_, Session.View.waits_run hsound hwaits,
      fun _ => h.running_of_ne_ready (by rw [hv]; simp)⟩
    rw [hv]
    cases request with
    | send frequency =>
        exact (h.board_keeps.transmit frequency kept).respond connection .sent kept 0
    | config name ssid password => exact h.board_keeps.respond connection _ kept 0
    | receive report =>
        cases report with
        | some report => exact h.board_keeps.respond connection _ kept 0
        | none =>
            simp only [View.after, Session.View.run]
            split
            · exact h.board_keeps
            · exact h.board_keeps.armCapture
  · exact h

theorem receive (h : v.Keeps) (data : List UInt8) :
    (v.after (v.session.receive v.config data v.board)).Keeps := by
  refine h.after ?_ (Session.View.waits_receive h.waits data) fun hready => by rw [hready]; rfl
  cases v.session with
  | request connection received =>
      simp only [Session.View.receive]
      split
      · exact h.board_keeps.dismiss connection
      · split
        · exact h.board_keeps
        · exact h.board_keeps
        · exact h.board_keeps.dismiss connection
  | ready => exact h.board_keeps
  | process connection request kept => exact h.board_keeps
  | response connection reply kept sent => exact h.board_keeps

theorem sent (h : v.Keeps) : (v.after (v.session.sent v.config v.board)).Keeps := by
  refine h.after ?_ (Session.View.waits_sent h.waits) fun hready => by rw [hready]; rfl
  cases v.session with
  | response connection reply kept sent => exact h.board_keeps.respond connection reply kept sent
  | ready => exact h.board_keeps
  | request connection received => exact h.board_keeps
  | process connection request kept => exact h.board_keeps

theorem edge (h : v.Keeps) : (v.after (v.session.edge v.config v.board)).Keeps := by
  have hcapture := h.board_keeps.capture (Buffer.new v.config.scratchLength)
  refine h.after ?_ (Session.View.waits_edge h.waits) fun hready => ?_
  · rcases hanswer : v.board.capture (Buffer.new v.config.scratchLength) with ⟨report, board, store⟩
    rw [hanswer] at hcapture
    simp only [Session.View.edge, hanswer]
    cases report with
    | none => exact hcapture
    | some report =>
        dsimp only
        split
        · exact hcapture
        · exact hcapture
  · rw [hready]
    exact Session.View.ready_edge v.board

theorem foldl_switch_tickCalls (beacon : Beacon) (enabled : Bool) :
    beacon.tickCalls.foldl Call.switch enabled = enabled := by
  rw [Beacon.tickCalls]
  split
  · split
    · rfl
    · rfl
  · rfl

theorem handle (h : v.Keeps) (event : Event) : (v.handle event).Keeps := by
  cases event with
  | connect connection => exact h.connect connection
  | receive connection data =>
      rw [View.handle]
      split
      · exact h.receive data
      · exact h
  | sent connection =>
      rw [View.handle]
      split
      · exact h.sent
      · exact h
  | disconnect connection =>
      rw [View.handle]
      split
      · exact ⟨h.valid, h.board_keeps.resetStation, ⟨rfl, rfl⟩, by simp⟩
      · exact h
  | edge => exact h.edge
  | timer =>
      refine h.of_board (h.board_keeps.of_adds (Traced.adds_tellAll _ _) rfl ?_) rfl
      exact foldl_switch_tickCalls _ _

theorem perform (h : v.Keeps) (hsound : v.session.Sound v.config) (op : Operation ω) :
    (v.perform op).2.Keeps := by
  cases op with
  | setListener => exact h.of_board (h.board_keeps.of_eq rfl rfl) rfl
  | setName name =>
      obtain ⟨hstation, hworld⟩ := v.board.setName_eq name
      exact h.of_board (h.board_keeps.of_eq hstation hworld) hstation
  | generateName chip =>
      obtain ⟨hstation, hworld⟩ := v.board.generateName_eq chip
      exact h.of_board (h.board_keeps.of_eq hstation hworld) hstation
  | start => exact h.start
  | stop => exact h.stop
  | runPending => exact h.runPending hsound
  | handle event => exact h.handle event
  | surroundings f => exact h.of_board (h.board_keeps.change f) rfl

end View.Keeps

variable {ω : Type} {d : Device (Traced ω)} {v : View (Traced ω)}

theorem Follows.new {config : Config} {world : ω} (h : Device.new config ⟨world, []⟩ = .ok d) :
    d.Follows ⟨config, .ready, Board.new config ⟨world, []⟩, false, false⟩ := by
  obtain ⟨hvalid, hshows⟩ := Shows.new h
  exact ⟨hshows, hvalid, ⟨rfl, rfl⟩, ⟨rfl, rfl⟩, fun hne => absurd rfl hne⟩

variable [Platform ω]

/-- What happens to a device happens to its view. -/
theorem Follows.perform (h : d.Follows v) (op : Operation ω) :
    (d.perform op).1 = (v.perform op).1 ∧ (d.perform op).2.Follows (v.perform op).2 := by
  have hkeeps := h.keeps.perform h.shows.session_shows.sound op
  have hvalid := h.keeps.valid
  cases op with
  | setListener => exact ⟨rfl, h.shows.setListener, hkeeps⟩
  | setName name =>
      obtain ⟨hresult, hshows⟩ := h.shows.setName name
      exact ⟨congrArg Outcome.result hresult, hshows, hkeeps⟩
  | generateName chip =>
      obtain ⟨hresult, hshows⟩ := h.shows.generateName chip
      exact ⟨congrArg Outcome.result hresult, hshows, hkeeps⟩
  | start =>
      obtain ⟨hresult, hshows⟩ := h.shows.start
      exact ⟨congrArg Outcome.result hresult, hshows, hkeeps⟩
  | stop => exact ⟨rfl, h.shows.stop, hkeeps⟩
  | runPending =>
      obtain ⟨hresult, hshows⟩ := h.shows.runPending hvalid
      exact ⟨congrArg Outcome.ran hresult, hshows, hkeeps⟩
  | handle event => exact ⟨rfl, h.shows.handle hvalid h.keeps.holds event, hkeeps⟩
  | surroundings f =>
      refine ⟨rfl, ⟨h.shows.config_eq, ?_, h.shows.running_eq, h.shows.pending_eq,
        h.shows.session_shows⟩, hkeeps⟩
      simp only [Device.perform, View.perform, h.shows.board_eq]

theorem Follows.run (h : d.Follows v) (ops : List (Operation ω)) :
    (d.run ops).1 = (v.run ops).1 ∧ (d.run ops).2.Follows (v.run ops).2 := by
  induction ops generalizing d v with
  | nil => exact ⟨rfl, h⟩
  | cons op ops ih =>
      obtain ⟨houtcome, hnext⟩ := h.perform op
      obtain ⟨houtcomes, hlast⟩ := ih hnext
      exact ⟨by rw [Device.run, View.run, houtcome, houtcomes], hlast⟩

omit [Platform ω] in
theorem View.config_after (v : View ω) (x : Session.Progress × Session.View × Board ω) :
    (v.after x).config = v.config := rfl

theorem View.config_perform (v : View (Traced ω)) (op : Operation ω) :
    (v.perform op).2.config = v.config := by
  cases op with
  | start =>
      simp only [View.perform, View.start]
      split
      · rfl
      · split
        · rfl
        · rfl
  | stop =>
      simp only [View.perform, View.stop]
      split
      · rfl
      · rfl
  | runPending =>
      simp only [View.perform, View.runPending]
      split
      · rfl
      · rfl
  | handle event =>
      cases event with
      | connect connection =>
          simp only [View.perform, View.handle, View.connect]
          split
          · rfl
          · rfl
      | edge => rfl
      | timer => rfl
      | _ =>
          simp only [View.perform, View.handle]
          split
          · rfl
          · rfl
  | _ => rfl

theorem View.config_run (v : View (Traced ω)) (ops : List (Operation ω)) :
    (v.run ops).2.config = v.config := by
  induction ops generalizing v with
  | nil => rfl
  | cons op ops ih => exact (ih (v.perform op).2).trans (v.config_perform op)

/-- Every device that a run comes to has a view. -/
theorem Reachable.exists_follows {config : Config} (h : Reachable config d) :
    ∃ v, d.Follows v ∧ v.config = config := by
  induction h with
  | new hnew => exact ⟨_, Follows.new hnew, rfl⟩
  | perform hreachable op ih =>
      obtain ⟨v, hfollows, hconfig⟩ := ih
      exact ⟨_, (hfollows.perform op).2, (v.config_perform op).trans hconfig⟩

end Device

end Infrared
