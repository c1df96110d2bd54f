/-!
What the device asks of the hardware and the network around it. A platform is any state that answers calls;
nothing else is known of it, so what holds for every platform holds whatever the pins, the clock and the
network do.
-/

namespace Infrared

/-- The number by which the network knows a connection. -/
abbrev Connection := UInt32

/-- A call of the device to its surroundings. Times are in microseconds, except for the beacon's timer. -/
inductive Call where
  | listen (port : UInt16)
  | shutdown
  | send (connection : Connection) (data : List UInt8)
  | close (connection : Connection)
  | broadcast (port : UInt16) (data : List UInt8)
  /-- Starts the beacon's one-shot timer, in milliseconds. -/
  | arm (delay : UInt32)
  | disarm
  | output (pin : UInt8) (level : Bool)
  | input (pin : UInt8)
  | level (pin : UInt8)
  | write (pin : UInt8) (level : Bool)
  | clearEdge (pin : UInt8)
  | attachEdge (pin : UInt8)
  | enableInterrupts
  | disableInterrupts
  | clock
  | delay (duration : UInt32)
  /-- Tells the listener of a configuration that was applied. -/
  | configured (name ssid password : List UInt8)
  deriving DecidableEq, Repr

/-- What a call is answered with: whether the network accepted it, a pin's level, or the time. -/
def Call.Answer : Call → Type
  | listen _ | send _ _ | broadcast _ _ => Bool
  | level _ => Bool
  | clock => UInt32
  | _ => Unit

/-- A state of the surroundings that answers calls. -/
class Platform (ω : Type) where
  perform : (call : Call) → ω → call.Answer × ω
  /-- How many samples of a pin a capture may take from here on before it is given up. A capture that ends by
  itself ends within them. -/
  patience : ω → Nat

namespace Platform

variable {ω : Type} [Platform ω]

/-- Makes a call whose answer is of no interest. -/
def tell (call : Call) (world : ω) : ω :=
  (perform call world).2

/-- Makes calls one after the other. -/
def tellAll (calls : List Call) (world : ω) : ω :=
  calls.foldl (fun world call => tell call world) world

def listen (port : UInt16) (world : ω) : Bool × ω :=
  perform (.listen port) world

def send (connection : Connection) (data : List UInt8) (world : ω) : Bool × ω :=
  perform (.send connection data) world

/-- The level of a pin, and the time right after it was read. -/
def sample (pin : UInt8) (world : ω) : (Bool × UInt32) × ω :=
  match (perform (.level pin) world : Bool × ω) with
  | (level, world) =>
    match (perform .clock world : UInt32 × ω) with
    | (now, world) => ((level, now), world)

end Platform

end Infrared
