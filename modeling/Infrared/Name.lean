import Infrared.Buffer

namespace Infrared.Name

/-- What every generated name begins with. -/
def lead : String := "IR-"

/-- The two halves of a chip's number, combined bit by bit. -/
def suffix (chip : UInt32) : Nat :=
  ((chip >>> 16) ^^^ (chip &&& 0xffff)).toNat

/-- A number of 16 bits as four lower-case hexadecimal digits. -/
def hexDigits (n : Nat) : List Char :=
  [n / 4096 % 16, n / 256 % 16, n / 16 % 16, n % 16].map Nat.digitChar

def ofChip (chip : UInt32) : List UInt8 :=
  (lead.toList ++ hexDigits (suffix chip)).map fun c => UInt8.ofNat c.toNat

/-- Puts the name of a chip in a slot, which is empty afterwards if the name does not fit. -/
def generate (chip : UInt32) (slot : Buffer) : Except Fault Unit × Buffer :=
  match slot.reset.extend (ofChip chip) with
  | (.ok _, slot) => (.ok (), slot)
  | (.error _, slot) => (.error .bufferTooSmall, slot)

end Infrared.Name
