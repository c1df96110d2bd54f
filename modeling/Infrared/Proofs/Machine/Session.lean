import Infrared.Proofs.Machine.Board
import Infrared.Proofs.Machine.Encoding

/-!
The session as a machine. A session has its phase, its connection and what it knows of its request in one value; the
machine has a flag for each, which is set and cleared by itself, and a fault for each of them that is not as it
should be. Its `none` stands for an index that is out of range and for a counter that overflows.

It is no other session: whatever it does goes through and comes to what the session comes to, as long as the
session has what it takes for granted (`CheckedSession.Shows.runs` and what follows it).
-/

namespace Infrared

open Access (AllInRange allInRange_append allInRange_cons)

/-- Where a conversation stands. -/
inductive Stage where
  | ready
  | request
  | process
  | response
  | finish
  deriving DecidableEq, Repr

/-- What of the head of a request comes next. -/
inductive HeadStep where
  | kind
  | length
  | body
  deriving DecidableEq, Repr

structure Head where
  step : HeadStep := .kind
  length : Nat := 0
  read : Nat := 0
  deriving DecidableEq, Repr

/-- A session as the machine has it: each of its flags is set and cleared by itself. -/
structure CheckedSession where
  stage : Stage
  connection : Option Connection
  inbound : CheckedStream
  outbound : CheckedStream
  scratch : Cells
  pulseWidth : PulseWidth
  nameLengthMax : Nat
  head : Head
  exchange : Option Exchange
  response : ResponseStep
  awaiting : Bool
  aborted : Bool
  /-- At which stages conversations were given up so far, and why. -/
  stops : List (Stage × Fault)
  deriving DecidableEq, Repr

namespace CheckedSession

def new (config : Config) : CheckedSession where
  stage := .ready
  connection := none
  inbound := .new .reader config.receiveBufferLength config.swapped
  outbound := .new .writer config.sendBufferLength config.swapped
  scratch := ⟨List.replicate config.scratchLength 0, 0, 0⟩
  pulseWidth := config.pulseWidth
  nameLengthMax := config.nameLengthMax
  head := {}
  exchange := none
  response := .kind
  awaiting := false
  aborted := false
  stops := []

def attach (s : CheckedSession) (connection : Connection) : Except Fault Unit × CheckedSession :=
  if s.connection ≠ none ∨ s.stage ≠ .ready then (.error .busy, s)
  else (.ok (), { s with connection := some connection, stage := .request })

def intake (s : CheckedSession) : CheckedIntake :=
  ⟨s.inbound, s.scratch⟩

def take (s : CheckedSession) (i : CheckedIntake) : CheckedSession :=
  { s with inbound := i.inbound, scratch := i.scratch }

/-- The body has to end with the declared length, and not before it. -/
def requestBody (s : CheckedSession) : Option (Except Fault Bool × CheckedSession) :=
  match s.exchange with
  | none => some (.error .invalidOperation, s)
  | some e => do
    let before ← s.inbound.cells.pending
    let (result, e, i) ← e.decode s.pulseWidth s.nameLengthMax s.intake
    let s := { s.take i with exchange := some e }
    match result with
    | .error fault => some (.error fault, s)
    | .ok complete => do
      let after ← s.inbound.cells.pending
      let taken ← Checked.sub before after
      let s := { s with head := { s.head with read := s.head.read + taken } }
      if s.head.length < s.head.read ∨ complete ≠ decide (s.head.read = s.head.length) then
        some (.error .lengthMismatch, s)
      else some (.ok complete, s)

def requestLength (s : CheckedSession) : Option (Except Fault Bool × CheckedSession) := do
  let (result, i) ← s.intake.word 2
  match result with
  | .ok (some length) => requestBody { s.take i with head := { s.head with step := .body, length := length } }
  | .ok none => some (.ok false, s.take i)
  | .error fault => some (.error fault, s.take i)

def requestKind (s : CheckedSession) : Option (Except Fault Bool × CheckedSession) := do
  let (result, i) ← s.intake.word 1
  match result with
  | .ok (some code) =>
    match Packet.Kind.ofCode (UInt8.ofNat code) with
    | .ok kind =>
      match Exchange.ofKind? kind with
      | some e =>
        requestLength { s.take i with exchange := some e, head := { s.head with step := .length } }
      | none => some (.error (.unknownType (UInt8.ofNat code)), s.take i)
    | .error fault => some (.error fault, s.take i)
  | .ok none => some (.ok false, s.take i)
  | .error fault => some (.error fault, s.take i)

/-- Reads the request as far as it has arrived, and says whether it is complete. -/
def request (s : CheckedSession) : Option (Except Fault Bool × CheckedSession) :=
  match s.head.step with
  | .kind => s.requestKind
  | .length => s.requestLength
  | .body => s.requestBody

def encodeResponse (s : CheckedSession) : Option (Except Fault Bool × CheckedSession) :=
  match s.exchange with
  | none => some (.error .invalidOperation, s)
  | some e => do
    let (result, (e, response), outbound) ← e.encode s.response s.pulseWidth s.scratch s.outbound
    some (result, { s with exchange := some e, response := response, outbound := outbound })

variable {ω : Type} [Platform ω]

/-- Does what the request asks for, and says whether it is done. -/
def process (s : CheckedSession) (board : CheckedBoard ω) :
    Option (Except Fault Bool × CheckedSession × CheckedBoard ω) :=
  match s.exchange with
  | none => some (.error .invalidOperation, s, board)
  | some (.send e) => do
    let pulses ← s.scratch.filled
    let board ← board.transmit e.frequency pulses
    some (.ok true, s, board)
  | some (.receive e) =>
    if e.report ≠ none then some (.ok true, s, board)
    else if board.station.armed then some (.ok false, s, board)
    else some (.ok false, { s with scratch := s.scratch.reset }, board.armCapture)
  | some (.config _) => some (.ok true, s, board)

/-- Sends the next piece of the reply, and says whether there is none. -/
def respond (s : CheckedSession) (board : CheckedBoard ω) :
    Option (Except Fault Bool × CheckedSession × CheckedBoard ω) :=
  if s.awaiting then some (.ok false, s, board)
  else do
    let (result, s) ← s.encodeResponse
    match result with
    | .error fault => some (.error fault, s, board)
    | .ok complete => do
      let data ← s.outbound.cells.filled
      if data.isEmpty then
        if complete then some (.ok true, s, board) else some (.error .bufferTooSmall, s, board)
      else
        match s.connection with
        | none => some (.error .disconnected, s, board)
        | some connection =>
          match Platform.send connection data board.world with
          | (true, world) =>
            some (.ok false, { s with outbound := s.outbound.drain, awaiting := true },
              { board with world := world })
          | (false, world) => some (.error .io, s, { board with world := world })

/-- Puts a configuration into effect, unless the conversation was given up. -/
def apply (s : CheckedSession) (board : CheckedBoard ω) : Option (CheckedBoard ω) :=
  if s.aborted then some board
  else
    match s.exchange with
    | some (.config e) => do
      let strings ← s.scratch.filled
      let name ← Checked.slice strings e.name.start (e.name.start + e.name.length)
      let board ← board.rename name
      if board.listener then do
        let name ← board.name.filled
        let ssid ← Checked.slice strings e.ssid.start (e.ssid.start + e.ssid.length)
        let password ← Checked.slice strings e.password.start (e.password.start + e.password.length)
        some (board.tell (.configured name ssid password))
      else some board
    | _ => some board

/-- Closes the connection and puts all back to where it was before the conversation. -/
def reset (s : CheckedSession) (board : CheckedBoard ω) : CheckedSession × CheckedBoard ω :=
  let board :=
    match s.connection with
    | some connection => board.tell (.close connection)
    | none => board
  ({ s with
    stage := .ready
    connection := none
    inbound := s.inbound.reset
    outbound := s.outbound.reset
    scratch := s.scratch.reset
    head := {}
    exchange := none
    response := .kind
    awaiting := false
    aborted := false }, board.resetStation)

def finish (s : CheckedSession) (board : CheckedBoard ω) : Option (CheckedSession × CheckedBoard ω) := do
  let board ← s.apply board
  some (s.reset board)

def stepFinish (s : CheckedSession) (board : CheckedBoard ω) :
    Option (Except Fault Session.Progress × CheckedSession × CheckedBoard ω) := do
  let (s, board) ← s.finish board
  some (.ok .done, s, board)

def stepResponse (s : CheckedSession) (board : CheckedBoard ω) :
    Option (Except Fault Session.Progress × CheckedSession × CheckedBoard ω) := do
  let (result, s, board) ← s.respond board
  match result with
  | .ok true => stepFinish { s with stage := .finish } board
  | .ok false => some (.ok .blocked, s, board)
  | .error fault => some (.error fault, s, board)

def stepProcess (s : CheckedSession) (board : CheckedBoard ω) :
    Option (Except Fault Session.Progress × CheckedSession × CheckedBoard ω) := do
  let (result, s, board) ← s.process board
  match result with
  | .ok true => stepResponse { s with stage := .response } board
  | .ok false => some (.ok .blocked, s, board)
  | .error fault => some (.error fault, s, board)

def stepRequest (s : CheckedSession) (board : CheckedBoard ω) :
    Option (Except Fault Session.Progress × CheckedSession × CheckedBoard ω) := do
  let (result, s) ← s.request
  match result with
  | .ok true => some (.ok .yield, { s with stage := .process }, board)
  | .ok false => some (.ok .blocked, s, board)
  | .error fault => some (.error fault, s, board)

def step (s : CheckedSession) (board : CheckedBoard ω) :
    Option (Except Fault Session.Progress × CheckedSession × CheckedBoard ω) :=
  match s.stage with
  | .ready =>
    if s.connection = none then some (.ok .blocked, s, board)
    else stepRequest { s with stage := .request } board
  | .request => s.stepRequest board
  | .process => s.stepProcess board
  | .response => s.stepResponse board
  | .finish => s.stepFinish board

/-- Gives the conversation up. -/
def stop (s : CheckedSession) (board : CheckedBoard ω) : Option (CheckedSession × CheckedBoard ω) :=
  finish { s with aborted := true, stage := .finish } board

/-- Gives the conversation up for a fault. -/
def fail (s : CheckedSession) (fault : Fault) (board : CheckedBoard ω) :
    Option (Session.Progress × CheckedSession × CheckedBoard ω) := do
  let (s, board) ← stop { s with stops := s.stops ++ [(s.stage, fault)] } board
  some (.done, s, board)

def run (s : CheckedSession) (board : CheckedBoard ω) :
    Option (Session.Progress × CheckedSession × CheckedBoard ω) := do
  let (result, s, board) ← s.step board
  match result with
  | .ok progress => some (progress, s, board)
  | .error fault => s.fail fault board

def receive (s : CheckedSession) (data : List UInt8) (board : CheckedBoard ω) :
    Option (Session.Progress × CheckedSession × CheckedBoard ω) :=
  if s.stage ≠ .request then some (.blocked, s, board)
  else do
    let (result, inbound) ← s.inbound.feed data
    let s := { s with inbound := inbound }
    match result with
    | .ok _ => s.run board
    | .error fault => s.fail fault board

def sent (s : CheckedSession) (board : CheckedBoard ω) :
    Option (Session.Progress × CheckedSession × CheckedBoard ω) :=
  if s.awaiting then run { s with awaiting := false } board else some (.blocked, s, board)

def disconnect (s : CheckedSession) (board : CheckedBoard ω) : Option (CheckedSession × CheckedBoard ω) :=
  stop { s with connection := none } board

def edge (s : CheckedSession) (board : CheckedBoard ω) :
    Option (Session.Progress × CheckedSession × CheckedBoard ω) := do
  let (report, board, scratch) ← board.capture s.scratch
  let s := { s with scratch := scratch }
  match report with
  | none => some (.blocked, s, board)
  | some report =>
    match s.stage, s.exchange with
    | .process, some (.receive e) =>
      some (.yield, { s with exchange := some (.receive { e with report := some report }) }, board)
    | _, _ => some (.blocked, s, board)

end CheckedSession

end Infrared
