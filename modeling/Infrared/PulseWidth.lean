import Infrared.Fault
import Infrared.Word

namespace Infrared

/-- Bits used for one pulse duration. -/
inductive PulseWidth where
  | bits8
  | bits16
  | bits32
  deriving DecidableEq, Repr

instance : Inhabited PulseWidth := ⟨.bits16⟩

namespace PulseWidth

def bytes : PulseWidth → Nat
  | bits8 => 1
  | bits16 => 2
  | bits32 => 4

def label : PulseWidth → String
  | bits8 => "U8"
  | bits16 => "U16"
  | bits32 => "U32"

/-- The longest duration that fits the width. -/
def longest : PulseWidth → UInt32
  | bits8 => 255
  | bits16 => 65535
  | bits32 => 4294967295

/-- The width of the given number of bytes. -/
def ofBytes (count : UInt8) : Except Fault PulseWidth :=
  if count = 1 then .ok bits8
  else if count = 2 then .ok bits16
  else if count = 4 then .ok bits32
  else .error .invalidWidth

/-- The duration as it is stored: at most `longest`. -/
def saturate (w : PulseWidth) (duration : UInt32) : UInt32 :=
  if duration ≤ w.longest then duration else w.longest

/-- A duration as it is stored, least significant byte first. -/
def encode (w : PulseWidth) (duration : UInt32) : List UInt8 :=
  Word.bytes w.bytes (w.saturate duration).toNat

/-- Stores a duration over the front of `dest`. -/
def encodeOver (w : PulseWidth) (duration : UInt32) (dest : List UInt8) : List UInt8 :=
  w.encode duration ++ dest.drop w.bytes

/-- The duration at the front of `source`. -/
def decode (w : PulseWidth) (source : List UInt8) : UInt32 :=
  UInt32.ofNat (Word.value (source.take w.bytes))

/-- The first `count` durations of `source`. -/
def decodeMany (w : PulseWidth) : Nat → List UInt8 → List UInt32
  | 0, _ => []
  | count + 1, source => w.decode source :: w.decodeMany count (source.drop w.bytes)

/-- How many whole durations a store of `length` bytes has room for; a count is a 16-bit number. -/
def capacity (w : PulseWidth) (length : Nat) : Nat :=
  min (length / w.bytes) 65535

theorem bytes_pos (w : PulseWidth) : 0 < w.bytes := by cases w <;> decide

@[simp] theorem length_encode (w : PulseWidth) (duration : UInt32) :
    (w.encode duration).length = w.bytes := by
  simp [encode]

theorem saturate_le (w : PulseWidth) (duration : UInt32) : w.saturate duration ≤ w.longest := by
  unfold saturate
  split
  · assumption
  · exact UInt32.le_refl _

theorem longest_lt (w : PulseWidth) : w.longest.toNat < Word.bound w.bytes := by cases w <;> decide

theorem decode_encode_append (w : PulseWidth) (duration : UInt32) (rest : List UInt8) :
    w.decode (w.encode duration ++ rest) = w.saturate duration := by
  have hle : (w.saturate duration).toNat ≤ w.longest.toNat :=
    UInt32.le_iff_toNat_le.mp (w.saturate_le duration)
  have hlt := Nat.lt_of_le_of_lt hle w.longest_lt
  have htake : (w.encode duration ++ rest).take w.bytes = w.encode duration := by
    rw [List.take_append_of_le_length (by simp), List.take_of_length_le (by simp)]
  rw [decode, htake, encode, Word.value_bytes_of_lt hlt, UInt32.ofNat_toNat]

end PulseWidth

end Infrared
