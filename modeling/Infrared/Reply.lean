import Infrared.Field.Stream
import Infrared.Packet
import Infrared.Request

namespace Infrared

inductive Reply where
  | sent
  /-- The recorded pulses, which are in the scratch store. -/
  | captured (count : Nat)
  /-- The configuration takes effect when all of the reply was sent. -/
  | configured (name ssid password : Span)
  deriving DecidableEq, Repr

namespace Reply

def kind : Reply → Packet.Kind
  | sent => .sendResponse
  | captured _ => .receiveResponse
  | configured _ _ _ => .configResponse

def bodyLength (width : PulseWidth) : Reply → Except Fault Nat
  | captured count => Packet.pulsesBodyLength count width
  | _ => .ok 0

/-- The number of fields of a reply, those of its head included. -/
def fieldCount : Reply → Nat
  | captured count => 4 + count
  | _ => 2

/-- The field at an index. The carrier frequency is never measured, so it is zero. -/
def field (width : PulseWidth) (scratch : Buffer) (r : Reply) (index : Nat) : Except Fault Field :=
  match index, r with
  | 0, r => .ok (.u8 r.kind.code.toNat)
  | 1, r =>
    match r.bodyLength width with
    | .ok length => .ok (.u16 length)
    | .error fault => .error fault
  | 2, _ => .ok (.u32 0)
  | 3, captured count => .ok (.u16 count)
  | index, _ =>
    match scratch.slice? ((index - 4) * width.bytes) width.bytes with
    | some pulse => .ok ⟨.fixed, pulse⟩
    | none => .error .noData

/-- Writes the fields from an index on, as many as there is room for. Returns whether none is left, and the
index to go on from. -/
def encode (width : PulseWidth) (scratch : Buffer) (r : Reply) (next : Nat) (out : FieldStream) :
    Except Fault Bool × Nat × FieldStream :=
  if next < r.fieldCount then
    match r.field width scratch next with
    | .ok f =>
      match out.write f with
      | (.ok true, out) => r.encode width scratch (next + 1) out
      | (.ok false, out) => (.ok false, next, out)
      | (.error fault, out) => (.error fault, next, out)
    | .error fault => (.error fault, next, out)
  else (.ok true, next, out)
termination_by r.fieldCount - next

end Reply

end Infrared
