import Infrared.Packet

namespace Infrared

structure Config where
  port : UInt16 := 1234
  /-- Whether words are sent most significant byte first. -/
  swapped : Bool := true
  pulseWidth : PulseWidth := default
  /-- Pulses that the scratch store has room for. -/
  pulsesMax : UInt16 := 128
  sendBufferLength : Nat := 1024
  receiveBufferLength : Nat := 1460
  sendPin : UInt8 := 0
  receivePin : UInt8 := 2
  /-- The longest signal, in microseconds. -/
  signalTimeout : UInt32 := 100000
  /-- The longest pulse, in microseconds. -/
  pulseTimeout : UInt32 := 10000
  nameLengthMax : Nat := 32
  beaconPort : UInt16 := 8888
  /-- Milliseconds between two beacons. -/
  beaconInterval : UInt32 := 1000
  deriving DecidableEq, Repr, Inhabited

namespace Config

def scratchLength (c : Config) : Nat :=
  c.pulsesMax.toNat * c.pulseWidth.bytes

/-- Bytes of the longest beacon payload. -/
def beaconLength (c : Config) : Nat :=
  Packet.beaconHeadLength + c.nameLengthMax

/-- Whether a device can be run: each stream holds a packet's head, a full scratch store fits a packet, a
name's length fits a byte, and no time is zero. -/
def isUsable (c : Config) : Bool :=
  Packet.headLength ≤ c.sendBufferLength && Packet.headLength ≤ c.receiveBufferLength &&
    c.pulsesMax != 0 && (Packet.pulsesBodyLength c.pulsesMax.toNat c.pulseWidth).isOk &&
    c.nameLengthMax ≤ Packet.stringLimit && c.signalTimeout != 0 && c.pulseTimeout != 0 &&
    c.beaconInterval != 0

def validate (c : Config) : Except Fault Unit :=
  if c.isUsable then .ok () else .error .invalidConfig

end Config

end Infrared
