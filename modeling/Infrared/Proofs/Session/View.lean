import Infrared.Proofs.Answer
import Infrared.Proofs.Request.Resumption
import Infrared.Session

/-!
A session as seen from outside. A view forgets the streams and how far each field of a request or of a reply
was moved: it has the bytes that arrived, the bytes that are kept, and the number of pieces that were sent.
Its operations are those of a session, on these lists.
-/

namespace Infrared

def Span.of (s : Span) (bytes : List UInt8) : List UInt8 :=
  (bytes.drop s.start).take s.length

/-- Where strings are that are kept one after the other. -/
theorem Span.of_append (name ssid password : List UInt8) :
    Span.of ⟨0, name.length⟩ (name ++ (ssid ++ password)) = name ∧
      Span.of ⟨name.length, ssid.length⟩ (name ++ (ssid ++ password)) = ssid ∧
      Span.of ⟨name.length + ssid.length, password.length⟩ (name ++ (ssid ++ password)) =
        password := by
  refine ⟨?_, ?_, ?_⟩
  · rw [Span.of, List.drop_zero, List.take_left' rfl]
  · rw [Span.of, List.drop_left' rfl, List.take_left' rfl]
  · rw [Span.of, ← List.append_assoc, List.drop_left' List.length_append,
      List.take_of_length_le (Nat.le_refl _)]

namespace Session

inductive View where
  | ready
  /-- A request of which the given bytes arrived. -/
  | request (connection : Connection) (received : List UInt8)
  /-- A request whose pulses or strings are the bytes that are kept. -/
  | process (connection : Connection) (request : Request) (kept : List UInt8)
  /-- A reply of which some pieces were sent, the last one without a confirmation yet. -/
  | response (connection : Connection) (reply : Reply) (kept : List UInt8) (sent : Nat)
  deriving DecidableEq

namespace View

def connection? : View → Option Connection
  | ready => none
  | request connection _ | process connection _ _ | response connection _ _ _ => some connection

def label : View → String
  | ready => "Ready"
  | request _ _ => "Request"
  | process _ _ _ => "Process"
  | response _ _ _ _ => "Response"

/-- The piece of a reply after the given number of pieces; it is empty once all of the reply was sent. -/
def piece (config : Config) (reply : Reply) (kept : List UInt8) (sent : Nat) : List UInt8 :=
  (((reply.answer config.pulseWidth kept).wire config).drop (sent * config.sendBufferLength)).take
    config.sendBufferLength

variable {ω : Type} [Platform ω]

def dismiss (connection : Connection) (board : Board ω) : Board ω :=
  (board.tell (.close connection)).resetStation

def release (v : View) (board : Board ω) : View × Board ω :=
  match v.connection? with
  | some connection => (.ready, dismiss connection board)
  | none => (.ready, board.resetStation)

def apply (reply : Reply) (kept : List UInt8) (board : Board ω) : Board ω :=
  match reply with
  | .configured name ssid password =>
    (board.rename (name.of kept)).2.announce (ssid.of kept) (password.of kept)
  | _ => board

/-- Sends the next piece of a reply, or ends the conversation if there is none. -/
def respond (config : Config) (connection : Connection) (reply : Reply) (kept : List UInt8)
    (sent : Nat) (board : Board ω) : Progress × View × Board ω :=
  if piece config reply kept sent = [] then
    (.done, .ready, dismiss connection (apply reply kept board))
  else
    match Platform.send connection (piece config reply kept sent) board.world with
    | (true, world) =>
      (.blocked, .response connection reply kept (sent + 1), { board with world := world })
    | (false, world) => (.done, .ready, dismiss connection { board with world := world })

def run (config : Config) (v : View) (board : Board ω) : Progress × View × Board ω :=
  match v with
  | process connection (.send frequency) kept =>
    respond config connection .sent kept 0 (board.transmit frequency kept)
  | process connection (.receive (some report)) kept =>
    respond config connection (.captured report.count) kept 0 board
  | process connection (.receive none) kept =>
    (.blocked, process connection (.receive none) kept,
      if board.station.armed then board else board.armCapture)
  | process connection (.config name ssid password) kept =>
    respond config connection (.configured name ssid password) kept 0 board
  | v => (.blocked, v, board)

def receive (config : Config) (data : List UInt8) (v : View) (board : Board ω) :
    Progress × View × Board ω :=
  match v with
  | request connection received =>
    if config.receiveBufferLength < data.length then (.done, .ready, dismiss connection board)
    else
      match Request.verdict config (received ++ data) with
      | .waiting => (.blocked, request connection (received ++ data), board)
      | .accepted r kept => (.yield, process connection r kept, board)
      | .refused => (.done, .ready, dismiss connection board)
  | v => (.blocked, v, board)

def sent (config : Config) (v : View) (board : Board ω) : Progress × View × Board ω :=
  match v with
  | response connection reply kept sent => respond config connection reply kept sent board
  | v => (.blocked, v, board)

def edge (config : Config) (v : View) (board : Board ω) : Progress × View × Board ω :=
  match board.capture (Buffer.new config.scratchLength) with
  | (none, board, _) => (.blocked, v, board)
  | (some report, board, store) =>
    match v with
    | process connection (.receive _) _ =>
      (.yield, process connection (.receive (some report)) store.filled, board)
    | v => (.blocked, v, board)

end View

/-- Whether a reply has in the store what it needs. -/
def View.Supplied (config : Config) (kept : List UInt8) : Reply → Prop
  | .sent => True
  | .captured count =>
    count * config.pulseWidth.bytes = kept.length ∧ kept.length ≤ config.scratchLength
  | .configured name ssid password =>
    name.start + name.length ≤ kept.length ∧ ssid.start + ssid.length ≤ kept.length ∧
      password.start + password.length ≤ kept.length

/-- Whether the parts of a view go together. -/
def View.Sound (config : Config) : View → Prop
  | ready => True
  | request _ received => Request.verdict config received = .waiting
  | process _ (.send _) _ => True
  | process _ (.receive none) kept => kept = []
  | process _ (.receive (some report)) kept => View.Supplied config kept (.captured report.count)
  | process _ (.config name ssid password) kept =>
    View.Supplied config kept (.configured name ssid password)
  | response _ reply kept sent =>
    View.Supplied config kept reply ∧ 0 < sent ∧
      (sent - 1) * config.sendBufferLength <
        ((reply.answer config.pulseWidth kept).wire config).length

/-- A session as a device with the configuration has it. -/
structure Fits (config : Config) (s : Session) : Prop where
  limits_eq : s.limits = Request.limits config
  intake_fits : Request.Intake.Fits config ⟨s.inbound, s.scratch⟩
  side_eq : s.outbound.side = .writer
  swapped_eq : s.outbound.swapped = config.swapped
  capacity_eq : s.outbound.capacity = config.sendBufferLength

/-- Whether the parts of a session are as its view says. -/
def Agrees (config : Config) (s : Session) : View → Prop
  | .ready =>
    s.conversation = none ∧ s.inbound.position = 0 ∧ s.inbound.data = [] ∧ s.outbound.position = 0 ∧
      s.scratch.filled = []
  | .request connection received =>
    ∃ reading, s.conversation = some ⟨connection, .request reading⟩ ∧
      reading.Shows config received ⟨s.inbound, s.scratch⟩ ∧ s.outbound.position = 0
  | .process connection request kept =>
    s.conversation = some ⟨connection, .process request⟩ ∧ s.scratch.filled = kept ∧
      s.outbound.position = 0
  | .response connection reply kept sent =>
    ∃ next, s.conversation = some ⟨connection, .response reply next true⟩ ∧
      s.scratch.filled = kept ∧
      Unsent config.swapped ((reply.answer config.pulseWidth kept).fields config.pulseWidth) next
        s.outbound.position
        (((reply.answer config.pulseWidth kept).wire config).drop (sent * config.sendBufferLength))

structure Shows (config : Config) (s : Session) (v : View) : Prop where
  fits : s.Fits config
  sound : v.Sound config
  drained : s.outbound.data = []
  agrees : s.Agrees config v

end Session

end Infrared
