import Infrared.Field
import Infrared.PulseWidth

namespace Infrared

namespace Layout

/-- A number in `width` bytes. The byte at index `i` has the eight bits from bit `8 * i` on; if the most significant
byte comes first, the indices go from the other end. -/
def number (swapped : Bool) (width value : Nat) : List UInt8 :=
  (List.range width).map fun i => UInt8.ofNat (value >>> (8 * (if swapped then width - 1 - i else i)))

/-- A duration in the bytes of a pulse width, the largest number in place of one that is larger. -/
def pulse (swapped : Bool) (width : PulseWidth) (duration : UInt32) : List UInt8 :=
  number swapped width.bytes (min duration.toNat (1 <<< (8 * width.bytes) - 1))

/-- A string after its length. -/
def text (bytes : List UInt8) : List UInt8 :=
  UInt8.ofNat bytes.length :: bytes

@[simp] theorem length_number (swapped : Bool) (width value : Nat) :
    (number swapped width value).length = width := by
  rw [number, List.length_map, List.length_range]

theorem number_one (swapped : Bool) (value : Nat) : number swapped 1 value = [UInt8.ofNat value] := by
  cases swapped
  · simp [number]
  · simp [number]

theorem number_eq_reverse (width value : Nat) :
    number true width value = (number false width value).reverse := by
  apply List.ext_getElem
  · rw [List.length_reverse, length_number, length_number]
  · intro i hi _
    rw [length_number] at hi
    simp [number]

theorem bytes_eq_number (width value : Nat) : Word.bytes width value = number false width value := by
  induction width generalizing value with
  | zero => rfl
  | succ width ih =>
      have hrest : ∀ i, value >>> (8 * (i + 1)) = (value / 256) >>> (8 * i) := by
        intro i
        rw [Nat.mul_succ, Nat.add_comm, Nat.shiftRight_add, Nat.shiftRight_eq_div_pow value 8]
      rw [Word.bytes, ih]
      simp [number, List.range_succ_eq_map, Function.comp_def, hrest]

theorem wire_word (swapped : Bool) (width value : Nat) :
    (Field.word width value).wire swapped = number swapped width value := by
  cases swapped with
  | false => exact bytes_eq_number width value
  | true =>
      rw [number_eq_reverse, ← bytes_eq_number]
      rfl

theorem toNat_saturate (width : PulseWidth) (duration : UInt32) :
    (width.saturate duration).toNat = min duration.toNat (1 <<< (8 * width.bytes) - 1) := by
  have hlt := duration.toNat_lt
  have hlongest : width.longest.toNat = 1 <<< (8 * width.bytes) - 1 := by cases width <;> decide
  rw [PulseWidth.saturate, ← hlongest]
  split
  · rename_i hle
    rw [Nat.min_eq_left (UInt32.le_iff_toNat_le.mp hle)]
  · rename_i hgt
    rw [Nat.min_eq_right]
    rw [UInt32.le_iff_toNat_le] at hgt
    omega

theorem encode_eq_pulse (width : PulseWidth) (duration : UInt32) :
    width.encode duration = pulse false width duration := by
  rw [PulseWidth.encode, toNat_saturate, bytes_eq_number, pulse]

theorem wire_encode (swapped : Bool) (width : PulseWidth) (duration : UInt32) :
    (Field.mk .fixed (width.encode duration)).wire swapped = pulse swapped width duration := by
  rw [pulse, ← toNat_saturate]
  exact wire_word swapped width.bytes (width.saturate duration).toNat

theorem wire_text (swapped : Bool) (bytes : List UInt8) :
    [Field.u8 bytes.length, .raw bytes].flatMap (Field.wire swapped) = text bytes := by
  rw [List.flatMap_cons, List.flatMap_singleton, Field.u8, wire_word, number_one]
  rfl

end Layout

end Infrared
