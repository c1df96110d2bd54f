import Infrared.Board
import Infrared.Reply
import Infrared.Request.Reading

/-!
A session serves one conversation after another. A conversation is one request, read as it arrives; what the
request asks for; and the reply, sent piece by piece, each piece once the one before it was confirmed. Then
the connection is closed. Whatever goes wrong on the way ends the conversation without a further word.

Each entry point runs the conversation as far as it comes and says what it waits for.
-/

namespace Infrared

/-- What a session waits for. -/
inductive Session.Progress where
  /-- An event: bytes, a confirmation or a signal. -/
  | blocked
  /-- Nothing: it has to be run again. -/
  | yield
  /-- A new connection. -/
  | done
  deriving DecidableEq, Repr

def Session.Progress.label : Session.Progress → String
  | blocked => "Blocked"
  | yield => "Yield"
  | done => "Done"

/-- How far a conversation has come. -/
inductive Session.Phase where
  | request (reading : Request.Reading)
  | process (request : Request)
  /-- Of the reply the fields before `next` were written; the last piece may await its confirmation. -/
  | response (reply : Reply) (next : Nat) (awaiting : Bool)
  deriving DecidableEq, Repr

structure Session.Conversation where
  connection : Connection
  phase : Session.Phase
  deriving DecidableEq, Repr

structure Session where
  limits : Request.Limits
  inbound : FieldStream
  outbound : FieldStream
  /-- Pulses of a signal, or strings of a configuration. -/
  scratch : Buffer
  conversation : Option Session.Conversation

namespace Session

def new (config : Config) : Session where
  limits := ⟨config.pulseWidth, config.nameLengthMax⟩
  inbound := .reader config.receiveBufferLength config.swapped
  outbound := .writer config.sendBufferLength config.swapped
  scratch := Buffer.new config.scratchLength
  conversation := none

/-- The connection that is being served. -/
def connection? (s : Session) : Option Connection :=
  s.conversation.map (·.connection)

def isAttached (s : Session) : Bool :=
  s.conversation.isSome

def Phase.label : Phase → String
  | request _ => "Request"
  | process _ => "Process"
  | response _ _ _ => "Response"

/-- The name of the phase, or of its absence. -/
def label (s : Session) : String :=
  match s.conversation with
  | none => "Ready"
  | some c => c.phase.label

/-- Begins a conversation, unless there is one. -/
def attach (s : Session) (connection : Connection) : Except Fault Unit × Session :=
  if s.isAttached then (.error .busy, s)
  else (.ok (), { s with conversation := some ⟨connection, .request .kind⟩ })

/-- The session without a conversation, its streams and its scratch store empty. -/
def clear (s : Session) : Session :=
  match s with
  | ⟨limits, inbound, outbound, scratch, _⟩ =>
    ⟨limits, inbound.reset, outbound.reset, scratch.reset, none⟩

variable {ω : Type} [Platform ω]

/-- Ends the conversation: closes its connection and puts the station to rest. -/
def release (s : Session) (board : Board ω) : Session × Board ω :=
  let board :=
    match s.conversation with
    | some c => board.tell (.close c.connection)
    | none => board
  (s.clear, board.resetStation)

/-- Puts a configuration into effect whose strings are in the scratch store: the device takes the name, and the
listener is told. A capture may have been recorded over the strings; the name is then whatever its span holds
now, and it is taken whether or not the spans of the others still hold anything. -/
def apply (s : Session) (reply : Reply) (board : Board ω) : Board ω :=
  match reply with
  | .configured name ssid password =>
    match name.read? s.scratch with
    | some name =>
      let board := (board.rename name).2
      match ssid.read? s.scratch, password.read? s.scratch with
      | some ssid, some password => board.announce ssid password
      | _, _ => board
    | none => board
  | _ => board

/-- Reads the request as far as it has arrived. -/
def stepRequest (s : Session) (connection : Connection) (reading : Request.Reading)
    (board : Board ω) : Except Fault Progress × Session × Board ω :=
  match s with
  | ⟨limits, inbound, outbound, scratch, conversation⟩ =>
    match reading.resume limits ⟨inbound, scratch⟩ with
    | (.ok (.inl reading), ⟨inbound, scratch⟩) =>
      (.ok .blocked, ⟨limits, inbound, outbound, scratch, some ⟨connection, .request reading⟩⟩, board)
    | (.ok (.inr request), ⟨inbound, scratch⟩) =>
      (.ok .yield, ⟨limits, inbound, outbound, scratch, some ⟨connection, .process request⟩⟩, board)
    | (.error fault, ⟨inbound, scratch⟩) =>
      (.error fault, ⟨limits, inbound, outbound, scratch, conversation⟩, board)

/-- Sends the next piece of a reply, or ends the conversation if there is none. A reply of which not a byte
can be written fails. -/
def stepResponse (s : Session) (connection : Connection) (reply : Reply) (next : Nat)
    (board : Board ω) : Except Fault Progress × Session × Board ω :=
  match s with
  | ⟨limits, inbound, outbound, scratch, conversation⟩ =>
    match reply.encode limits.pulseWidth scratch next outbound with
    | (.ok complete, next, outbound) =>
      if outbound.data.isEmpty then
        let s : Session := ⟨limits, inbound, outbound, scratch, conversation⟩
        if complete then
          match s.release (s.apply reply board) with
          | (s, board) => (.ok .done, s, board)
        else (.error .bufferTooSmall, s, board)
      else
        match Platform.send connection outbound.data board.world with
        | (true, world) =>
          (.ok .blocked, ⟨limits, inbound, outbound.drain, scratch,
            some ⟨connection, .response reply next true⟩⟩, { board with world := world })
        | (false, world) =>
          (.error .io, ⟨limits, inbound, outbound, scratch, conversation⟩,
            { board with world := world })
    | (.error fault, _, outbound) =>
      (.error fault, ⟨limits, inbound, outbound, scratch, conversation⟩, board)

/-- Does what the request asks for, and goes on to the reply once it is done. -/
def stepProcess (s : Session) (connection : Connection) (request : Request) (board : Board ω) :
    Except Fault Progress × Session × Board ω :=
  match request with
  | .send frequency =>
    let board := board.transmit frequency s.scratch.filled
    s.stepResponse connection .sent 0 board
  | .receive (some report) => s.stepResponse connection (.captured report.count) 0 board
  | .receive none =>
    if board.station.armed then (.ok .blocked, s, board)
    else
      match s with
      | ⟨limits, inbound, outbound, scratch, conversation⟩ =>
        (.ok .blocked, ⟨limits, inbound, outbound, scratch.reset, conversation⟩, board.armCapture)
  | .config name ssid password =>
    s.stepResponse connection (.configured name ssid password) 0 board

/-- Runs the conversation as far as it comes. -/
def step (s : Session) (board : Board ω) : Except Fault Progress × Session × Board ω :=
  match s.conversation with
  | none => (.ok .blocked, s, board)
  | some ⟨connection, .request reading⟩ => s.stepRequest connection reading board
  | some ⟨connection, .process request⟩ => s.stepProcess connection request board
  | some ⟨_, .response _ _ true⟩ => (.ok .blocked, s, board)
  | some ⟨connection, .response reply next false⟩ => s.stepResponse connection reply next board

/-- Runs the conversation as far as it comes, and ends it if it fails. -/
def run (s : Session) (board : Board ω) : Progress × Session × Board ω :=
  match s.step board with
  | (.ok progress, s, board) => (progress, s, board)
  | (.error _, s, board) => (.done, s.release board)

/-- Bytes arrived on the connection. They are of interest only until the request is complete. -/
def receive (s : Session) (data : List UInt8) (board : Board ω) : Progress × Session × Board ω :=
  match s with
  | ⟨limits, inbound, outbound, scratch, some ⟨connection, .request reading⟩⟩ =>
    match inbound.feed data with
    | (.ok _, inbound) =>
      run ⟨limits, inbound, outbound, scratch, some ⟨connection, .request reading⟩⟩ board
    | (.error _, inbound) =>
      (.done, release ⟨limits, inbound, outbound, scratch, some ⟨connection, .request reading⟩⟩ board)
  | s => (.blocked, s, board)

/-- The last piece of the reply was sent. -/
def sent (s : Session) (board : Board ω) : Progress × Session × Board ω :=
  match s.conversation with
  | some ⟨connection, .response reply next true⟩ =>
    { s with conversation := some ⟨connection, .response reply next false⟩ }.run board
  | _ => (.blocked, s, board)

/-- The connection is gone, so there is nothing to close. -/
def disconnect (s : Session) (board : Board ω) : Session × Board ω :=
  { s with conversation := none }.release board

/-- The level of the receive pin changed. A signal that is recorded belongs to the request that waits for
one, or to nobody. -/
def edge (s : Session) (board : Board ω) : Progress × Session × Board ω :=
  match s with
  | ⟨limits, inbound, outbound, scratch, conversation⟩ =>
    match board.capture scratch with
    | (none, board, scratch) => (.blocked, ⟨limits, inbound, outbound, scratch, conversation⟩, board)
    | (some report, board, scratch) =>
      match conversation with
      | some ⟨connection, .process (.receive _)⟩ =>
        (.yield, ⟨limits, inbound, outbound, scratch,
          some ⟨connection, .process (.receive (some report))⟩⟩, board)
      | _ => (.blocked, ⟨limits, inbound, outbound, scratch, conversation⟩, board)

end Session

end Infrared
