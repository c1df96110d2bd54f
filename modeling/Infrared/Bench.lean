import Infrared.Bench.Line
import Infrared.Platform

/-!
A simulated platform: one pin whose level follows a schedule, a clock that moves on at every reading, and a
network that accepts everything unless it was told not to. It keeps a log of the calls made to it, except
for readings of the pin and of the clock.
-/

namespace Infrared

/-- A call in the log, and whether it was accepted. -/
structure Bench.Entry where
  call : Call
  accepted : Bool
  deriving DecidableEq, Repr

structure Bench where
  /-- The time in microseconds; the clock shows its low 32 bits. -/
  now : Nat := 0
  /-- How far a reading of the clock moves the time. -/
  tick : Nat := 1
  line : Bench.Line := ⟨false, []⟩
  interrupts : Bool := false
  /-- Whether an edge interrupt was ever attached. -/
  attached : Bool := false
  lastRead : Option UInt8 := none
  refusesListen : Bool := false
  refusesSend : Bool := false
  refusesBroadcast : Bool := false
  /-- The connection of the last accepted send, until it is confirmed or closed. -/
  unconfirmed : Option Connection := none
  /-- What was sent and not yet taken, latest first. -/
  outbox : List (Connection × List UInt8) := []
  /-- Calls since the log was last taken, latest first. -/
  log : List Bench.Entry := []

namespace Bench

def note (b : Bench) (call : Call) (accepted : Bool) : Bench :=
  { b with log := ⟨call, accepted⟩ :: b.log }

/-- The level of the pin now. -/
def level (b : Bench) : Bool :=
  b.line.level b.now

def perform : (call : Call) → Bench → call.Answer × Bench
  | .listen port, b => (!b.refusesListen, b.note (.listen port) !b.refusesListen)
  | .shutdown, b => ((), b.note .shutdown true)
  | .send connection data, b =>
    if b.refusesSend then (false, b.note (.send connection data) false)
    else
      (true, { b.note (.send connection data) true with
        unconfirmed := some connection, outbox := (connection, data) :: b.outbox })
  | .close connection, b =>
    ((), { b.note (.close connection) true with
      unconfirmed := if b.unconfirmed = some connection then none else b.unconfirmed })
  | .broadcast port data, b =>
    (!b.refusesBroadcast, b.note (.broadcast port data) !b.refusesBroadcast)
  | .arm delay, b => ((), b.note (.arm delay) true)
  | .disarm, b => ((), b.note .disarm true)
  | .output pin level, b => ((), b.note (.output pin level) true)
  | .input pin, b => ((), b.note (.input pin) true)
  | .level pin, b =>
    let line := b.line.settle b.now
    (line.idle, { b with line := line, lastRead := some pin })
  | .write pin level, b => ((), b.note (.write pin level) true)
  | .clearEdge pin, b => ((), b.note (.clearEdge pin) true)
  | .attachEdge pin, b => ((), { b.note (.attachEdge pin) true with attached := true })
  | .enableInterrupts, b => ((), { b.note .enableInterrupts true with interrupts := true })
  | .disableInterrupts, b => ((), { b.note .disableInterrupts true with interrupts := false })
  | .clock, b => (UInt32.ofNat b.now, { b with now := b.now + b.tick })
  | .delay duration, b =>
    ((), { b.note (.delay duration) true with now := b.now + duration.toNat })
  | .configured name ssid password, b => ((), b.note (.configured name ssid password) true)

/-- The samples until the line is at rest, and one more for each time that a clock of 32 bits can show. A clock
that moves on evenly has come round by then, so a limit that was not reached by then is never reached. -/
def patience (b : Bench) : Nat :=
  (b.line.restsFrom - b.now) / b.tick + 2 + UInt32.size

instance : Platform Bench := ⟨perform, patience⟩

/-- Has a signal arrive on the pin after a while. -/
def schedule (b : Bench) (pulses : List UInt32) (after : Nat) : Bench :=
  { b with line := b.line.schedule b.now (b.now + after) pulses }

def advance (b : Bench) (duration : Nat) : Bench :=
  { b with now := b.now + duration }

/-- Takes the log, earliest entry first. -/
def takeLog (b : Bench) : List Entry × Bench :=
  (b.log.reverse, { b with log := [] })

/-- Takes what was sent on a connection; what went elsewhere is lost. -/
def takeSent (b : Bench) (connection : Connection) : List UInt8 × Bench :=
  ((b.outbox.reverse.filter (·.1 = connection)).flatMap (·.2), { b with outbox := [] })

end Bench

end Infrared
