import Infrared.Field.Stream
import Infrared.Packet
import Infrared.Platform

namespace Infrared

structure Beacon where
  port : UInt16
  /-- Milliseconds between two broadcasts. -/
  interval : UInt32
  payload : FieldStream
  running : Bool

namespace Beacon

def new (port : UInt16) (interval : UInt32) (nameLengthMax : Nat) (swapped : Bool) : Beacon :=
  ⟨port, interval, .writer (Packet.beaconHeadLength + nameLengthMax) swapped, false⟩

/-- The fields of a payload. -/
def fields (servicePort : UInt16) (name : List UInt8) : List Field :=
  [.u16 servicePort.toNat, .u8 name.length, .raw name]

/-- Whether a name has a payload of at most `capacity` bytes. -/
def fits (name : List UInt8) (capacity : Nat) : Bool :=
  name.length ≤ Packet.stringLimit && Packet.beaconHeadLength + name.length ≤ capacity

/-- Makes the payload for a port and a name. Without one the beacon is left with none. -/
def pack (b : Beacon) (servicePort : UInt16) (name : List UInt8) : Except Fault Unit × Beacon :=
  match b with
  | ⟨port, interval, payload, running⟩ =>
    let blank := payload.reset
    if fits name blank.capacity then
      match blank.putAll (fields servicePort name) with
      | .ok full => (.ok (), ⟨port, interval, full, running⟩)
      | .error fault => (.error fault, ⟨port, interval, blank, running⟩)
    else (.error .payloadTooLarge, ⟨port, interval, blank, running⟩)

variable {ω : Type} [Platform ω]

def start (b : Beacon) (world : ω) : Beacon × ω :=
  ({ b with running := true }, Platform.tell (.arm b.interval) world)

def stop (b : Beacon) (world : ω) : Beacon × ω :=
  ({ b with running := false }, Platform.tell .disarm world)

/-- What a running beacon does when its timer runs out. -/
def tickCalls (b : Beacon) : List Call :=
  if b.running then
    (if b.payload.data.isEmpty then [] else [.broadcast b.port b.payload.data]) ++ [.arm b.interval]
  else []

def tick (b : Beacon) (world : ω) : ω :=
  Platform.tellAll b.tickCalls world

end Beacon

end Infrared
