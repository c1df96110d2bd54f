import Infrared.Session

/-!
The device: a board and the session that uses it. Its surroundings report what happens with `handle`, and
call `runPending` when they are idle, which runs a session that asked to be run again.
-/

namespace Infrared

inductive Event where
  | connect (connection : Connection)
  | receive (connection : Connection) (data : List UInt8)
  | sent (connection : Connection)
  | disconnect (connection : Connection)
  /-- The level of the receive pin changed. -/
  | edge
  /-- The beacon's timer ran out. -/
  | timer
  deriving DecidableEq, Repr

structure Device (ω : Type) where
  config : Config
  session : Session
  board : Board ω
  running : Bool
  /-- Whether the session asked to be run again. -/
  pending : Bool

namespace Device

variable {ω : Type}

/-- A device that is not running, if one can be run with the configuration. -/
def new (config : Config) (world : ω) : Except Fault (Device ω) :=
  match config.validate with
  | .ok _ => .ok ⟨config, Session.new config, Board.new config world, false, false⟩
  | .error fault => .error fault

/-- Has somebody listen for new configurations. -/
def setListener (d : Device ω) : Device ω :=
  { d with board := { d.board with listener := true } }

def setName (d : Device ω) (name : List UInt8) : Except Fault Unit × Device ω :=
  match d.board.setName name with
  | (result, board) => (result, { d with board := board })

def generateName (d : Device ω) (chip : UInt32) : Except Fault Unit × Device ω :=
  match d.board.generateName chip with
  | (result, board) => (result, { d with board := board })

/-- Whether an event on a connection concerns the conversation. -/
def isCurrent (d : Device ω) (connection : Connection) : Bool :=
  d.session.connection? = some connection

/-- Whether the session waits to be run, after it was run: a blocked one leaves this as it was. -/
def pendingAfter (pending : Bool) : Session.Progress → Bool
  | .blocked => pending
  | .yield => true
  | .done => false

/-- Runs the session. -/
def resume (d : Device ω) (run : Session → Board ω → Session.Progress × Session × Board ω) :
    Device ω :=
  match d with
  | ⟨config, session, board, running, pending⟩ =>
    match run session board with
    | (progress, session, board) =>
      ⟨config, session, board, running, pendingAfter pending progress⟩

variable [Platform ω]

def tell (d : Device ω) (call : Call) : Device ω :=
  { d with board := d.board.tell call }

def start (d : Device ω) : Except Fault Unit × Device ω :=
  if d.running then (.error .busy, d)
  else
    let board := d.board.packBeacon.2
    match Platform.listen d.config.port board.world with
    | (true, world) =>
      match board.beacon.start world with
      | (beacon, world) =>
        (.ok (), { d with board := { board with beacon := beacon, world := world }, running := true })
    | (false, world) => (.error .io, { d with board := { board with world := world } })

/-- Ends the conversation, the beacon and the service. -/
def stop (d : Device ω) : Device ω :=
  if d.running then
    match (if d.session.isAttached then d.session.release d.board else (d.session, d.board)) with
    | (session, board) =>
      match board.beacon.stop board.world with
      | (beacon, world) =>
        { d with
          session := session
          board := { board with beacon := beacon, world := Platform.tell .shutdown world }
          running := false
          pending := false }
  else d

/-- Serves a connection, or closes it if the device is not running or serves another. -/
def connect (d : Device ω) (connection : Connection) : Device ω :=
  if d.running then
    match d.session.attach connection with
    | (.ok _, session) => { d with session := session }
    | (.error _, session) => { d with session := session }.tell (.close connection)
  else d.tell (.close connection)

/-- Has the device take notice of an event. -/
def handle (d : Device ω) (event : Event) : Device ω :=
  match event with
  | .connect connection => d.connect connection
  | .receive connection data =>
    if d.isCurrent connection then d.resume fun s board => s.receive data board else d
  | .sent connection =>
    if d.isCurrent connection then d.resume fun s board => s.sent board else d
  | .disconnect connection =>
    if d.isCurrent connection then
      match d.session.disconnect d.board with
      | (session, board) => { d with session := session, board := board, pending := false }
    else d
  | .edge => d.resume fun s board => s.edge board
  | .timer => { d with board := { d.board with world := d.board.beacon.tick d.board.world } }

/-- Runs a session that asked for it, and says whether there was one. -/
def runPending (d : Device ω) : Bool × Device ω :=
  if d.pending then
    (true, { d with pending := false }.resume fun s board => s.run board)
  else (false, d)

end Device

end Infrared
