import Infrared.Fault
import Infrared.Word

namespace Infrared

inductive Field.Kind where
  | fixed
  | raw
  deriving DecidableEq, Repr

/-- The longest field of a kind, in bytes. -/
def Field.Kind.limit : Field.Kind → Nat
  | fixed => 8
  | raw => 65535

/-- What is wrong with a field that is too long for its kind. -/
def Field.Kind.excess : Field.Kind → Fault
  | fixed => .invalidWidth
  | raw => .payloadTooLarge

structure Field where
  kind : Field.Kind
  bytes : List UInt8
  deriving DecidableEq, Repr

namespace Field

/-- A number in a fixed field of `width` bytes. -/
def word (width value : Nat) : Field :=
  ⟨.fixed, Word.bytes width value⟩

def u8 (value : Nat) : Field :=
  word 1 value

def u16 (value : Nat) : Field :=
  word 2 value

def u32 (value : Nat) : Field :=
  word 4 value

def raw (bytes : List UInt8) : Field :=
  ⟨.raw, bytes⟩

/-- Puts the bytes of a field in the order in which the stream carries them, or back. -/
def orient (swapped : Bool) (kind : Field.Kind) (bytes : List UInt8) : List UInt8 :=
  match kind with
  | .fixed => if swapped then bytes.reverse else bytes
  | .raw => bytes

/-- The bytes of a field as they are sent. -/
def wire (swapped : Bool) (f : Field) : List UInt8 :=
  orient swapped f.kind f.bytes

@[simp] theorem length_orient (swapped : Bool) (kind : Field.Kind) (bytes : List UInt8) :
    (orient swapped kind bytes).length = bytes.length := by
  cases kind <;> cases swapped <;> simp [orient]

@[simp] theorem orient_orient (swapped : Bool) (kind : Field.Kind) (bytes : List UInt8) :
    orient swapped kind (orient swapped kind bytes) = bytes := by
  cases kind <;> cases swapped <;> simp [orient]

end Field

end Infrared
