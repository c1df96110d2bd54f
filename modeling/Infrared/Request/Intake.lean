import Infrared.Field.Stream
import Infrared.Request

namespace Infrared.Request

structure Intake where
  inbound : FieldStream
  scratch : Buffer

namespace Intake

/-- Reads a number of `width` bytes. -/
def word (i : Intake) (width : Nat) : Except Fault (Option Nat) × Intake :=
  match i with
  | ⟨inbound, scratch⟩ =>
    match inbound.readWord width with
    | (result, inbound) => (result, ⟨inbound, scratch⟩)

/-- Reads a field of `length` bytes into the scratch store and says where it is. -/
def store (i : Intake) (kind : Field.Kind) (length : Nat) : Except Fault (Option Span) × Intake :=
  match i with
  | ⟨inbound, scratch⟩ =>
    if scratch.left < length then (.error .bufferTooSmall, ⟨inbound, scratch⟩)
    else
      match inbound.read ⟨kind, scratch.spareFront length⟩ with
      | (.ok (true, f), inbound) =>
        (.ok (some ⟨scratch.size, length⟩), ⟨inbound, scratch.append f.bytes⟩)
      | (.ok (false, f), inbound) => (.ok none, ⟨inbound, scratch.writeSpare f.bytes⟩)
      | (.error fault, inbound) => (.error fault, ⟨inbound, scratch⟩)

end Intake

end Infrared.Request
