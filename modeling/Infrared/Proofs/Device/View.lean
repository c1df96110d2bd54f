import Infrared.Device
import Infrared.Proofs.Session.Refinement

/-!
A device as seen from outside: the view of its session, and everything else as it is. Main statement: what a
device does to itself its view does to itself (`Device.Shows` is kept by every entry point).
-/

namespace Infrared.Device

structure View (ω : Type) where
  config : Config
  session : Session.View
  board : Board ω
  running : Bool
  pending : Bool

namespace View

variable {ω : Type}

def isCurrent (v : View ω) (connection : Connection) : Bool :=
  v.session.connection? = some connection

def setListener (v : View ω) : View ω :=
  { v with board := { v.board with listener := true } }

def setName (v : View ω) (name : List UInt8) : Except Fault Unit × View ω :=
  ((v.board.setName name).1, { v with board := (v.board.setName name).2 })

def generateName (v : View ω) (chip : UInt32) : Except Fault Unit × View ω :=
  ((v.board.generateName chip).1, { v with board := (v.board.generateName chip).2 })

/-- The view after its session came to something. -/
def after (v : View ω) (x : Session.Progress × Session.View × Board ω) : View ω :=
  ⟨v.config, x.2.1, x.2.2, v.running, pendingAfter v.pending x.1⟩

variable [Platform ω]

def start (v : View ω) : Except Fault Unit × View ω :=
  if v.running then (.error .busy, v)
  else
    let board := v.board.packBeacon.2
    match Platform.listen v.config.port board.world with
    | (true, world) =>
      (.ok (), { v with
        board := { board with
          beacon := (board.beacon.start world).1, world := (board.beacon.start world).2 }
        running := true })
    | (false, world) => (.error .io, { v with board := { board with world := world } })

/-- The board without a beacon and without a service. -/
def shutDown (board : Board ω) : Board ω :=
  { board with
    beacon := (board.beacon.stop board.world).1
    world := Platform.tell .shutdown (board.beacon.stop board.world).2 }

def stop (v : View ω) : View ω :=
  if v.running then
    ⟨v.config, .ready,
      shutDown (match v.session.connection? with
        | some connection => Session.View.dismiss connection v.board
        | none => v.board), false, false⟩
  else v

def connect (v : View ω) (connection : Connection) : View ω :=
  if v.running ∧ v.session = .ready then { v with session := .request connection [] }
  else { v with board := v.board.tell (.close connection) }

def handle (v : View ω) (event : Event) : View ω :=
  match event with
  | .connect connection => v.connect connection
  | .receive connection data =>
    if v.isCurrent connection then v.after (v.session.receive v.config data v.board) else v
  | .sent connection =>
    if v.isCurrent connection then v.after (v.session.sent v.config v.board) else v
  | .disconnect connection =>
    if v.isCurrent connection then
      { v with session := .ready, board := v.board.resetStation, pending := false }
    else v
  | .edge => v.after (v.session.edge v.config v.board)
  | .timer => { v with board := { v.board with world := v.board.beacon.tick v.board.world } }

def runPending (v : View ω) : Bool × View ω :=
  if v.pending then
    (true, { v with pending := false }.after (v.session.run v.config v.board))
  else (false, v)

end View

structure Shows {ω : Type} (d : Device ω) (v : View ω) : Prop where
  config_eq : d.config = v.config
  board_eq : d.board = v.board
  running_eq : d.running = v.running
  pending_eq : d.pending = v.pending
  session_shows : d.session.Shows v.config v.session

namespace Shows

variable {ω : Type} {d : Device ω} {v : View ω}

theorem new {config : Config} {world : ω} (h : Device.new config world = .ok d) :
    config.Valid ∧ d.Shows ⟨config, .ready, Board.new config world, false, false⟩ := by
  unfold Device.new at h
  split at h
  · rename_i hvalid
    simp only [Except.ok.injEq] at h
    subst h
    exact ⟨Config.valid_of_validate hvalid, rfl, rfl, rfl, rfl, Session.shows_new config⟩
  · simp at h

theorem isCurrent_eq (h : d.Shows v) (connection : Connection) :
    d.isCurrent connection = v.isCurrent connection := by
  rw [isCurrent, View.isCurrent, h.session_shows.connection?_eq]

theorem setListener (h : d.Shows v) : d.setListener.Shows v.setListener := by
  refine ⟨h.config_eq, ?_, h.running_eq, h.pending_eq, h.session_shows⟩
  rw [Device.setListener, View.setListener, h.board_eq]

theorem setName (h : d.Shows v) (name : List UInt8) :
    (d.setName name).1 = (v.setName name).1 ∧ (d.setName name).2.Shows (v.setName name).2 := by
  have hboard := h.board_eq
  rw [Device.setName, View.setName, hboard]
  exact ⟨rfl, h.config_eq, rfl, h.running_eq, h.pending_eq, h.session_shows⟩

theorem generateName (h : d.Shows v) (chip : UInt32) :
    (d.generateName chip).1 = (v.generateName chip).1 ∧
      (d.generateName chip).2.Shows (v.generateName chip).2 := by
  have hboard := h.board_eq
  rw [Device.generateName, View.generateName, hboard]
  exact ⟨rfl, h.config_eq, rfl, h.running_eq, h.pending_eq, h.session_shows⟩

theorem resume (h : d.Shows v)
    {f : Session → Board ω → Session.Progress × Session × Board ω}
    {x : Session.Progress × Session.View × Board ω}
    (hmatches : Session.Matches v.config (f d.session v.board) x) :
    (d.resume f).Shows (v.after x) := by
  obtain ⟨config, session, board, running, pending⟩ := d
  obtain ⟨hconfig, hboard, hrunning, hpending, -⟩ := h
  dsimp only at hconfig hboard hrunning hpending hmatches
  subst hboard
  refine ⟨hconfig, hmatches.board_eq, hrunning, ?_, hmatches.shows⟩
  simp only [Device.resume, View.after, hmatches.progress_eq, hpending]

variable [Platform ω]

theorem runPending (hconfig : v.config.Valid) (h : d.Shows v) :
    d.runPending.1 = v.runPending.1 ∧ d.runPending.2.Shows v.runPending.2 := by
  have hpending := h.pending_eq
  rw [Device.runPending, View.runPending, hpending]
  split
  · refine ⟨rfl, ?_⟩
    have hshows : Shows { d with pending := false } { v with pending := false } :=
      ⟨h.config_eq, h.board_eq, h.running_eq, rfl, h.session_shows⟩
    exact hshows.resume (h.session_shows.matches_run hconfig v.board)
  · exact ⟨rfl, h⟩

theorem tell (h : d.Shows v) (call : Call) :
    (d.tell call).Shows { v with board := v.board.tell call } := by
  refine ⟨h.config_eq, ?_, h.running_eq, h.pending_eq, h.session_shows⟩
  rw [Device.tell, h.board_eq]

theorem connect (h : d.Shows v) (connection : Connection) :
    (d.connect connection).Shows (v.connect connection) := by
  have hclose := h.tell (.close connection)
  obtain ⟨config, session, board, running, pending⟩ := d
  obtain ⟨rfl, rfl, rfl, rfl, hsession⟩ := h
  dsimp only at hsession
  simp only [Device.connect, View.connect]
  by_cases hrun : v.running = true
  · rw [if_pos hrun]
    by_cases hready : v.session = .ready
    · rw [hready] at hsession
      obtain ⟨t, hattach, ht⟩ := hsession.attach_eq_of_ready connection
      rw [hattach, if_pos ⟨hrun, hready⟩]
      exact ⟨rfl, rfl, rfl, rfl, ht⟩
    · rw [hsession.attach_eq_of_ne_ready hready, if_neg fun hboth => hready hboth.2]
      exact hclose
  · rw [if_neg hrun, if_neg fun hboth => hrun hboth.1]
    exact hclose

theorem stop (h : d.Shows v) : d.stop.Shows v.stop := by
  obtain ⟨config, session, board, running, pending⟩ := d
  obtain ⟨rfl, rfl, rfl, rfl, hsession⟩ := h
  dsimp only at hsession
  have hconnection := hsession.connection?_eq
  simp only [Device.stop, View.stop]
  split
  · obtain ⟨t, hrelease, ht⟩ := hsession.release_eq v.board
    rw [Session.connection?] at hconnection
    simp only [Session.View.release] at hrelease ht
    cases hconversation : session.conversation with
    | none =>
        rw [hconversation, Option.map_none] at hconnection
        have hready : v.session = .ready := by
          cases hv : v.session with
          | ready => rfl
          | _ => simp [hv, Session.View.connection?] at hconnection
        rw [hready] at hsession
        simp only [Session.isAttached, hconversation, ← hconnection]
        exact ⟨rfl, rfl, rfl, rfl, hsession⟩
    | some conversation =>
        rw [hconversation, Option.map_some] at hconnection
        rw [← hconnection] at hrelease ht
        dsimp only at hrelease ht
        simp only [Session.isAttached, hconversation, Option.isSome_some, if_true, ← hconnection,
          hrelease]
        exact ⟨rfl, rfl, rfl, rfl, ht⟩
  · exact ⟨rfl, rfl, rfl, rfl, hsession⟩

theorem start (h : d.Shows v) : d.start.1 = v.start.1 ∧ d.start.2.Shows v.start.2 := by
  obtain ⟨config, session, board, running, pending⟩ := d
  obtain ⟨rfl, rfl, rfl, rfl, hsession⟩ := h
  dsimp only at hsession
  simp only [Device.start, View.start]
  split
  · exact ⟨rfl, rfl, rfl, rfl, rfl, hsession⟩
  · cases hlisten : Platform.listen v.config.port v.board.packBeacon.2.world with
    | mk accepted world =>
        cases accepted with
        | true => exact ⟨rfl, rfl, rfl, rfl, rfl, hsession⟩
        | false => exact ⟨rfl, rfl, rfl, rfl, rfl, hsession⟩

theorem handle_of_ne_edge (hconfig : v.config.Valid) (h : d.Shows v) {event : Event}
    (hevent : event ≠ .edge) : (d.handle event).Shows (v.handle event) := by
  cases event with
  | edge => exact absurd rfl hevent
  | connect connection => exact h.connect connection
  | receive connection data =>
      simp only [Device.handle, View.handle, h.isCurrent_eq]
      split
      · exact h.resume (h.session_shows.matches_receive data v.board)
      · exact h
  | sent connection =>
      simp only [Device.handle, View.handle, h.isCurrent_eq]
      split
      · exact h.resume (h.session_shows.matches_sent hconfig v.board)
      · exact h
  | disconnect connection =>
      simp only [Device.handle, View.handle, h.isCurrent_eq]
      split
      · obtain ⟨t, hdisconnect, ht⟩ := h.session_shows.disconnect_eq d.board
        rw [hdisconnect, h.board_eq]
        exact ⟨h.config_eq, rfl, h.running_eq, rfl, ht⟩
      · exact h
  | timer =>
      refine ⟨h.config_eq, ?_, h.running_eq, h.pending_eq, h.session_shows⟩
      simp only [Device.handle, View.handle, h.board_eq]

theorem handle (hconfig : v.config.Valid) (h : d.Shows v)
    (hholds : v.session.Holds v.config v.board) (event : Event) :
    (d.handle event).Shows (v.handle event) := by
  cases event with
  | edge => exact h.resume (h.session_shows.matches_edge hholds)
  | _ => exact h.handle_of_ne_edge hconfig (by simp)

end Shows

end Infrared.Device
