import Infrared.Proofs.Device.Soundness
import Infrared.Proofs.Machine.Conversation

namespace Infrared

open Access (AllInRange allInRange_append allInRange_cons)

/-- A device as the machine has it. -/
structure CheckedDevice (ω : Type) where
  config : Config
  session : CheckedSession
  board : CheckedBoard ω
  running : Bool
  /-- Whether the session asked to be run again. -/
  pending : Bool

namespace CheckedDevice

open Device (Operation Outcome)

variable {ω : Type}

def fresh (config : Config) (world : ω) : CheckedDevice ω :=
  ⟨config, .new config, .new config world, false, false⟩

def setName (m : CheckedDevice ω) (name : List UInt8) : Option (Except Fault Unit × CheckedDevice ω) := do
  let (result, board) ← m.board.setName name
  some (result, { m with board := board })

def generateName (m : CheckedDevice ω) (chip : UInt32) : Option (Except Fault Unit × CheckedDevice ω) := do
  let (result, board) ← m.board.generateName chip
  some (result, { m with board := board })

/-- The device after the session was run. -/
def settle (m : CheckedDevice ω) (ran : Session.Progress × CheckedSession × CheckedBoard ω) :
    CheckedDevice ω :=
  { m with
    session := ran.2.1
    board := ran.2.2
    pending := Device.pendingAfter m.pending ran.1 }

variable [Platform ω]

def start (m : CheckedDevice ω) : Option (Except Fault Unit × CheckedDevice ω) :=
  if m.running then some (.error .busy, m)
  else do
    let (_, board) ← m.board.packBeacon
    match Platform.listen m.config.port board.world with
    | (true, world) =>
      match board.beacon.start world with
      | (beacon, world) =>
        some (.ok (), { m with board := { board with beacon := beacon, world := world }, running := true })
    | (false, world) => some (.error .io, { m with board := { board with world := world } })

/-- Gives the conversation up, if there is one. -/
def hangUp (m : CheckedDevice ω) : Option (CheckedSession × CheckedBoard ω) :=
  if m.session.connection ≠ none then m.session.stop m.board else some (m.session, m.board)

def stop (m : CheckedDevice ω) : Option (CheckedDevice ω) :=
  if m.running then do
    let (session, board) ← m.hangUp
    match board.beacon.stop board.world with
    | (beacon, world) =>
      some { m with
        session := session
        board := { board with beacon := beacon, world := Platform.tell .shutdown world }
        running := false
        pending := false }
  else some m

def connect (m : CheckedDevice ω) (connection : Connection) : CheckedDevice ω :=
  if m.running then
    match m.session.attach connection with
    | (.ok _, session) => { m with session := session }
    | (.error _, session) => { m with session := session, board := m.board.tell (.close connection) }
  else { m with board := m.board.tell (.close connection) }

def handle (m : CheckedDevice ω) : Event → Option (CheckedDevice ω)
  | .connect connection => some (m.connect connection)
  | .receive connection data =>
    if m.session.connection = some connection then (m.session.receive data m.board).map m.settle
    else some m
  | .sent connection =>
    if m.session.connection = some connection then (m.session.sent m.board).map m.settle else some m
  | .disconnect connection =>
    if m.session.connection = some connection then do
      let (session, board) ← m.session.disconnect m.board
      some { m with session := session, board := board, pending := false }
    else some m
  | .edge => (m.session.edge m.board).map m.settle
  | .timer => do
    let world ← m.board.beacon.tick m.board.world
    some { m with board := { m.board with world := world } }

def runPending (m : CheckedDevice ω) : Option (Bool × CheckedDevice ω) :=
  if m.pending then do
    let m ← (m.session.run m.board).map (settle { m with pending := false })
    some (true, m)
  else some (false, m)

def perform (m : CheckedDevice (Traced ω)) : Operation ω → Option (Outcome × CheckedDevice (Traced ω))
  | .setListener => some (.nothing, { m with board := { m.board with listener := true } })
  | .setName name => do
    let (result, m) ← m.setName name
    some (.result result, m)
  | .generateName chip => do
    let (result, m) ← m.generateName chip
    some (.result result, m)
  | .start => do
    let (result, m) ← m.start
    some (.result result, m)
  | .stop => do
    let m ← m.stop
    some (.nothing, m)
  | .runPending => do
    let (was, m) ← m.runPending
    some (.ran was, m)
  | .handle event => do
    let m ← m.handle event
    some (.nothing, m)
  | .surroundings f =>
    some (.nothing, { m with board := { m.board with world := ⟨f m.board.world.world, m.board.world.history⟩ } })

def run (m : CheckedDevice (Traced ω)) :
    List (Operation ω) → Option (List Outcome × CheckedDevice (Traced ω))
  | [] => some ([], m)
  | op :: ops => do
    let (outcome, m) ← m.perform op
    let (outcomes, m) ← m.run ops
    some (outcome :: outcomes, m)

/-- Whether the machine has a device. -/
structure Shows {ω : Type} (m : CheckedDevice ω) (d : Device ω) : Prop where
  config_eq : m.config = d.config
  session : m.session.Shows d.session
  board : m.board.Shows d.board
  running_eq : m.running = d.running
  pending_eq : m.pending = d.pending

omit [Platform ω] in
theorem shows_fresh (config : Config) (world : ω) : (fresh config world).Shows (Device.fresh config world) :=
  ⟨rfl, CheckedSession.shows_new config, CheckedBoard.shows_new config world, rfl, rfl⟩

variable {m : CheckedDevice ω} {d : Device ω}

omit [Platform ω] in
theorem Shows.with_board (h : m.Shows d) {c : CheckedBoard ω} {b : Board ω} (hboard : c.Shows b) :
    Shows { m with board := c } { d with board := b } :=
  ⟨h.config_eq, h.session, hboard, h.running_eq, h.pending_eq⟩

omit [Platform ω] in
theorem Shows.setName (h : m.Shows d) (name : List UInt8) :
    ∃ m', m.setName name = some ((d.setName name).1, m') ∧ m'.Shows (d.setName name).2 ∧
      m'.session = m.session := by
  obtain ⟨c, hset, hc⟩ := h.board.setName name
  refine ⟨{ m with board := c }, ?_, h.with_board hc, rfl⟩
  rw [CheckedDevice.setName, hset]
  rfl

omit [Platform ω] in
theorem Shows.generateName (h : m.Shows d) (chip : UInt32) :
    ∃ m', m.generateName chip = some ((d.generateName chip).1, m') ∧ m'.Shows (d.generateName chip).2 ∧
      m'.session = m.session := by
  obtain ⟨c, hgenerate, hc⟩ := h.board.generateName chip
  refine ⟨{ m with board := c }, ?_, h.with_board hc, rfl⟩
  rw [CheckedDevice.generateName, hgenerate]
  rfl

theorem Shows.start (h : m.Shows d) :
    ∃ m', m.start = some (d.start.1, m') ∧ m'.Shows d.start.2 ∧ m'.session = m.session := by
  rw [CheckedDevice.start, Device.start]
  by_cases hrunning : d.running = true
  · rw [if_pos hrunning, if_pos (h.running_eq.trans hrunning)]
    exact ⟨m, rfl, h, rfl⟩
  · have hport : m.config.port = d.config.port := by rw [h.config_eq]
    obtain ⟨c, hpack, hc⟩ := h.board.packBeacon
    rw [if_neg hrunning, if_neg (h.running_eq ▸ hrunning), hpack]
    simp only [Option.bind_eq_bind, Option.bind_some, hc.world_eq, hport]
    cases Platform.listen d.config.port d.board.packBeacon.2.world with
    | mk accepted world =>
        cases accepted with
        | false => exact ⟨_, rfl, h.with_board (hc.with_world world), rfl⟩
        | true =>
            refine ⟨_, rfl, ⟨h.config_eq, h.session, ?_, rfl, h.pending_eq⟩, rfl⟩
            exact hc.with_beacon (hc.beacon.start world)

theorem Shows.hangUp (h : m.Shows d) :
    ∃ c board, m.hangUp = some (c, board) ∧
      c.Shows (if d.session.isAttached then d.session.release d.board else (d.session, d.board)).1 ∧
      board.Shows (if d.session.isAttached then d.session.release d.board else (d.session, d.board)).2 ∧
      c.stops = m.session.stops := by
  rw [CheckedDevice.hangUp, h.session.connection_eq, Session.connection?, Session.isAttached]
  cases d.session.conversation with
  | none => exact ⟨_, _, rfl, h.session, h.board, rfl⟩
  | some conversation => exact h.session.shows_stop h.board

theorem Shows.stop (h : m.Shows d) :
    ∃ m', m.stop = some m' ∧ m'.Shows d.stop ∧ m'.session.stops = m.session.stops := by
  rw [CheckedDevice.stop, Device.stop]
  by_cases hrunning : d.running = true
  · obtain ⟨c, board, hends, hc, hboard, hstops⟩ := h.hangUp
    rw [if_pos hrunning, if_pos (h.running_eq.trans hrunning), hends]
    refine ⟨_, rfl, ⟨h.config_eq, hc, ?_, rfl, rfl⟩, hstops⟩
    have hbeacon := hboard.beacon.stop board.world
    rw [hboard.world_eq] at hbeacon ⊢
    exact (hboard.with_beacon hbeacon).with_world _
  · rw [if_neg hrunning, if_neg (h.running_eq ▸ hrunning)]
    exact ⟨m, rfl, h, rfl⟩

theorem Shows.connect (h : m.Shows d) (connection : Connection) :
    (m.connect connection).Shows (d.connect connection) ∧
      (m.connect connection).session.stops = m.session.stops := by
  rw [CheckedDevice.connect, Device.connect]
  by_cases hrunning : d.running = true
  · rw [if_pos (h.running_eq.trans hrunning), if_pos hrunning]
    obtain ⟨hresult, hsession, hstops⟩ := h.session.attach connection
    cases hattach : m.session.attach connection with
    | mk result session =>
        rw [hattach] at hresult hsession hstops
        cases hmoved : d.session.attach connection with
        | mk outcome moved =>
            rw [hmoved] at hresult hsession
            dsimp only at hresult
            subst hresult
            cases result with
            | ok _ => exact ⟨⟨h.config_eq, hsession, h.board, h.running_eq, h.pending_eq⟩, hstops⟩
            | error fault =>
                exact ⟨⟨h.config_eq, hsession, h.board.tell _, h.running_eq, h.pending_eq⟩, hstops⟩
  · rw [if_neg (h.running_eq ▸ hrunning), if_neg hrunning]
    exact ⟨h.with_board (h.board.tell _), rfl⟩

/-- Whether a call goes through and comes to what the device's comes to, with what more it notes. -/
def Settles (stops : List (Stage × Fault)) (moved? : Option (CheckedDevice ω)) (d : Device ω) : Prop :=
  ∃ m, moved? = some m ∧ m.Shows d ∧ m.session.stops = stops

omit [Platform ω] in
theorem Shows.settles (h : m.Shows d) {stops : List (Stage × Fault)}
    {ran? : Option (Session.Progress × CheckedSession × CheckedBoard ω)}
    (run : Session → Board ω → Session.Progress × Session × Board ω)
    (hran : CheckedSession.Runs stops ran? (run d.session d.board)) :
    Settles stops (ran?.map m.settle) (d.resume run) := by
  obtain ⟨config, session, board, running, pending⟩ := d
  obtain ⟨c, b, hcall, hc, hb, hstops⟩ := hran
  dsimp only at hcall hc hb
  rw [hcall]
  refine ⟨_, rfl, ⟨h.config_eq, ?_, ?_, h.running_eq, ?_⟩, hstops⟩
  · exact hc
  · exact hb
  · exact congrArg (Device.pendingAfter · _) h.pending_eq

omit [Platform ω] in
theorem Shows.isCurrent_iff (h : m.Shows d) (connection : Connection) :
    d.isCurrent connection = true ↔ m.session.connection = some connection := by
  rw [h.session.connection_eq, Device.isCurrent, decide_eq_true_iff]

omit [Platform ω] in
theorem Shows.settles_self (h : m.Shows d) : Settles (m.session.stops ++ d.session.givenUp none) (some m) d :=
  ⟨m, rfl, h, (List.append_nil _).symm⟩

theorem Shows.settles_handle {m : CheckedDevice (Traced ω)} {d : Device (Traced ω)} (h : m.Shows d)
    {event : Event} (hin : AllInRange (d.accesses (.handle event))) :
    Settles (m.session.stops ++ d.session.givenUp (d.fault? (.handle event))) (m.handle event)
      (d.handle event) := by
  cases event with
  | connect connection =>
      obtain ⟨hconnect, hstops⟩ := h.connect connection
      exact ⟨_, rfl, hconnect, hstops.trans (List.append_nil _).symm⟩
  | receive connection data =>
      rw [Device.accesses] at hin
      rw [CheckedDevice.handle, Device.handle, Device.fault?]
      by_cases hcurrent : d.isCurrent connection = true
      · rw [if_pos hcurrent] at hin
        rw [if_pos ((h.isCurrent_iff connection).mp hcurrent), if_pos hcurrent, if_pos hcurrent]
        exact h.settles (fun s board => s.receive data board) (h.session.runs_receive h.board data hin)
      · rw [if_neg (mt (h.isCurrent_iff connection).mpr hcurrent), if_neg hcurrent, if_neg hcurrent]
        exact h.settles_self
  | sent connection =>
      rw [Device.accesses] at hin
      rw [CheckedDevice.handle, Device.handle, Device.fault?]
      by_cases hcurrent : d.isCurrent connection = true
      · rw [if_pos hcurrent] at hin
        rw [if_pos ((h.isCurrent_iff connection).mp hcurrent), if_pos hcurrent, if_pos hcurrent]
        exact h.settles (fun s board => s.sent board) (h.session.runs_sent h.board hin)
      · rw [if_neg (mt (h.isCurrent_iff connection).mpr hcurrent), if_neg hcurrent, if_neg hcurrent]
        exact h.settles_self
  | disconnect connection =>
      rw [CheckedDevice.handle, Device.handle]
      by_cases hcurrent : d.isCurrent connection = true
      · obtain ⟨c, board, hends, hc, hboard, hstops⟩ := h.session.disconnect h.board
        rw [if_pos ((h.isCurrent_iff connection).mp hcurrent), if_pos hcurrent, hends]
        exact ⟨_, rfl, ⟨h.config_eq, hc, hboard, h.running_eq, rfl⟩, hstops.trans (List.append_nil _).symm⟩
      · rw [if_neg (mt (h.isCurrent_iff connection).mpr hcurrent), if_neg hcurrent]
        exact h.settles_self
  | edge =>
      have hran := h.settles (fun s board => s.edge board) (h.session.runs_edge h.board hin)
      show Settles (m.session.stops ++ []) _ _
      rw [List.append_nil]
      exact hran
  | timer =>
      refine ⟨_, ?_, h.with_board (h.board.with_world (d.board.beacon.tick d.board.world)),
        (List.append_nil _).symm⟩
      rw [CheckedDevice.handle, h.board.world_eq, h.board.beacon.tick]
      rfl

theorem Shows.runPending {m : CheckedDevice (Traced ω)} {d : Device (Traced ω)} (h : m.Shows d)
    (hin : AllInRange (d.accesses .runPending)) :
    ∃ m', m.runPending = some (d.runPending.1, m') ∧ m'.Shows d.runPending.2 ∧
      m'.session.stops = m.session.stops ++ d.session.givenUp (d.fault? .runPending) := by
  rw [Device.accesses] at hin
  rw [CheckedDevice.runPending, Device.runPending, Device.fault?]
  by_cases hpending : d.pending = true
  · rw [if_pos hpending] at hin
    rw [if_pos (h.pending_eq.trans hpending), if_pos hpending, if_pos hpending]
    have hcleared : Shows { m with pending := false } { d with pending := false } :=
      ⟨h.config_eq, h.session, h.board, h.running_eq, rfl⟩
    obtain ⟨m', hrun, hm', hstops⟩ :=
      hcleared.settles (fun s board => s.run board) (h.session.runs h.board hin)
    rw [hrun]
    exact ⟨m', rfl, hm', hstops⟩
  · rw [if_neg (h.pending_eq ▸ hpending), if_neg hpending, if_neg hpending]
    exact ⟨m, rfl, h, (List.append_nil _).symm⟩

/-- An operation goes through, if the device has what it takes for granted, and comes to the same. What is noted
is the fault for which the conversation ends in it. -/
theorem Shows.perform {m : CheckedDevice (Traced ω)} {d : Device (Traced ω)} (h : m.Shows d)
    {op : Operation ω} (hin : AllInRange (d.accesses op)) :
    ∃ m', m.perform op = some ((d.perform op).1, m') ∧ m'.Shows (d.perform op).2 ∧
      m'.session.stops = m.session.stops ++ d.session.givenUp (d.fault? op) := by
  have hnone : m.session.stops = m.session.stops ++ d.session.givenUp none := (List.append_nil _).symm
  cases op with
  | setListener =>
      exact ⟨_, rfl, h.with_board ⟨h.board.world_eq, h.board.station_eq, h.board.name_eq, h.board.beacon, rfl,
        h.board.servicePort_eq, h.board.sendPin_eq, h.board.receivePin_eq⟩, hnone⟩
  | setName name =>
      obtain ⟨m', hset, hm', hsession⟩ := h.setName name
      exact ⟨m', by rw [CheckedDevice.perform, hset]; rfl, hm', by rw [hsession]; exact hnone⟩
  | generateName chip =>
      obtain ⟨m', hgenerate, hm', hsession⟩ := h.generateName chip
      exact ⟨m', by rw [CheckedDevice.perform, hgenerate]; rfl, hm', by rw [hsession]; exact hnone⟩
  | start =>
      obtain ⟨m', hstart, hm', hsession⟩ := h.start
      exact ⟨m', by rw [CheckedDevice.perform, hstart]; rfl, hm', by rw [hsession]; exact hnone⟩
  | stop =>
      obtain ⟨m', hstop, hm', hstops⟩ := h.stop
      exact ⟨m', by rw [CheckedDevice.perform, hstop]; rfl, hm', hstops.trans hnone⟩
  | runPending =>
      obtain ⟨m', hrun, hm'⟩ := h.runPending hin
      exact ⟨m', by rw [CheckedDevice.perform, hrun]; rfl, hm'⟩
  | handle event =>
      obtain ⟨m', hhandle, hm'⟩ := h.settles_handle hin
      exact ⟨m', by rw [CheckedDevice.perform, hhandle]; rfl, hm'⟩
  | surroundings f =>
      refine ⟨_, ?_, h.with_board (h.board.with_world ⟨f d.board.world.world, d.board.world.history⟩), hnone⟩
      rw [CheckedDevice.perform, h.board.world_eq]
      rfl

end CheckedDevice

end Infrared
