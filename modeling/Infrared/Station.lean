import Infrared.Buffer
import Infrared.PulseWidth
import Infrared.Station.Waveform

/-!
The signal station sends pulses on an output pin and records them from an input pin. It owns no pulses:
a store is lent to it for each operation.

A capture is armed first; the first edge on the pin then runs it to its end. A recorded duration is the
time between two samples at which the level was seen to change, on a clock that wraps at 32 bits.
-/

namespace Infrared

/-- Why a capture ended. The pulses recorded until then are the signal. -/
inductive Station.End where
  | signalTimeout
  | pulseTimeout
  | bufferOverflow
  /-- The platform's patience was used up, on a signal that would not have ended by itself. -/
  | abandoned
  deriving DecidableEq, Repr

def Station.End.label : Station.End → String
  | signalTimeout => "SignalTimeout"
  | pulseTimeout => "PulseTimeout"
  | bufferOverflow => "BufferOverflow"
  | abandoned => "Abandoned"

structure Station.Report where
  count : Nat
  ending : Station.End
  deriving DecidableEq, Repr

structure Station where
  pin : UInt8
  carrierFrequency : UInt32
  pulseWidth : PulseWidth
  signalTimeout : UInt32
  pulseTimeout : UInt32
  /-- Pulses sent or recorded by the last operation. -/
  cursor : Nat
  armed : Bool
  deriving DecidableEq, Repr

namespace Station

def new (pulseWidth : PulseWidth) (signalTimeout pulseTimeout : UInt32) : Station :=
  ⟨0, 0, pulseWidth, signalTimeout, pulseTimeout, 0, false⟩

/-- How many pulses a store of `length` bytes has room for. -/
def capacity (s : Station) (length : Nat) : Nat :=
  s.pulseWidth.capacity length

/-- The durations in a store, less a trailing part of one. -/
def durations (s : Station) (pulses : List UInt8) : List UInt32 :=
  s.pulseWidth.decodeMany (s.capacity pulses.length) pulses

variable {ω : Type} [Platform ω]

/-- Sends the pulses of a store on a pin and returns how many they are. -/
def transmit (s : Station) (pin : UInt8) (frequency : UInt32) (pulses : List UInt8) (world : ω) :
    Nat × Station × ω :=
  let count := s.capacity pulses.length
  (count, { s with pin := pin, carrierFrequency := frequency, cursor := count },
    Platform.tellAll (Waveform.calls pin (Waveform.halfPeriod frequency) (s.durations pulses)) world)

/-- Waits for the first edge on a pin. -/
def armCapture (s : Station) (pin : UInt8) (world : ω) : Station × ω :=
  ({ s with pin := pin, carrierFrequency := 0, cursor := 0, armed := true },
    Platform.tellAll [.input pin, .disableInterrupts, .clearEdge pin, .attachEdge pin,
      .enableInterrupts] world)

/-- Gives up a capture that is armed. -/
def reset (s : Station) (world : ω) : Station × ω :=
  ({ s with cursor := 0, armed := false }, Platform.tell .disableInterrupts world)

/-- A capture under way. -/
structure Recording where
  /-- The time of the first sample. -/
  start : UInt32
  /-- The time of the last change of level. -/
  last : UInt32
  level : Bool
  count : Nat
  pulses : Buffer

/-- Why a sample ends a capture, if it does. -/
def ending? (s : Station) (r : Recording) (level : Bool) (now : UInt32) : Option End :=
  if s.signalTimeout ≤ now - r.start then some .signalTimeout
  else if s.pulseTimeout ≤ now - r.last then some .pulseTimeout
  else if level = r.level then none
  else if s.capacity r.pulses.capacity ≤ r.count then some .bufferOverflow
  else none

/-- Takes a sample into the record: a change of level completes a pulse. -/
def Recording.note (r : Recording) (width : PulseWidth) (level : Bool) (now : UInt32) : Recording :=
  match r with
  | ⟨start, last, before, count, pulses⟩ =>
    if level = before then ⟨start, last, before, count, pulses⟩
    else
      ⟨start, now, level, count + 1,
        (pulses.writeSpare (width.encode (now - last))).skip width.bytes⟩

/-- Samples the pin until a sample ends the capture, or the budget of samples is used up. -/
def record (s : Station) : Nat → Recording → ω → End × Recording × ω
  | 0, r, world => (.abandoned, r, world)
  | budget + 1, r, world =>
    match Platform.sample s.pin world with
    | ((level, now), world) =>
      match s.ending? r level now with
      | some ending => (ending, r, world)
      | none => s.record budget (r.note s.pulseWidth level now) world

/-- Records the signal that is now arriving over the given store, if a capture is armed. Interrupts are off
afterwards. -/
def capture (s : Station) (pulses : Buffer) (world : ω) : Option Report × Station × Buffer × ω :=
  let world := Platform.tell .disableInterrupts world
  if s.armed then
    match Platform.sample s.pin world with
    | ((level, now), world) =>
      match s.record (Platform.patience world) ⟨now, now, level, s.cursor, pulses.reset⟩ world with
      | (ending, r, world) =>
        (some ⟨r.count, ending⟩, { s with armed := false, cursor := r.count }, r.pulses, world)
  else (none, s, pulses, world)

end Station

end Infrared
