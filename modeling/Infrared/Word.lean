
namespace Infrared.Word

/-- The `n` low bytes of a number, least significant first. -/
def bytes : Nat → Nat → List UInt8
  | 0, _ => []
  | n + 1, v => UInt8.ofNat v :: bytes n (v / 256)

/-- The number whose digits to base 256 are the given bytes, least significant first. -/
def value : List UInt8 → Nat
  | [] => 0
  | b :: bs => b.toNat + 256 * value bs

/-- The least number that takes more than `n` bytes. -/
def bound : Nat → Nat
  | 0 => 1
  | n + 1 => 256 * bound n

theorem bound_one : bound 1 = 256 := rfl

theorem bound_two : bound 2 = 65536 := rfl

theorem bound_four : bound 4 = 4294967296 := rfl

@[simp] theorem length_bytes (n v : Nat) : (bytes n v).length = n := by
  induction n generalizing v with
  | zero => rfl
  | succ n ih => simp [bytes, ih]

theorem value_lt (bs : List UInt8) : value bs < bound bs.length := by
  induction bs with
  | nil => simp [value, bound]
  | cons b bs ih =>
      have hb := b.toNat_lt
      simp only [value, List.length_cons, bound]
      omega

theorem value_bytes (n v : Nat) : value (bytes n v) = v % bound n := by
  induction n generalizing v with
  | zero => simp [bytes, value, bound, Nat.mod_one]
  | succ n ih =>
      rw [bound, Nat.mod_mul]
      simp only [bytes, value, ih, UInt8.toNat_ofNat']

theorem value_bytes_of_lt {n v : Nat} (h : v < bound n) : value (bytes n v) = v := by
  rw [value_bytes, Nat.mod_eq_of_lt h]

theorem bytes_value (bs : List UInt8) : bytes bs.length (value bs) = bs := by
  induction bs with
  | nil => rfl
  | cons b bs ih =>
      have hb := b.toNat_lt
      have hdiv : (b.toNat + 256 * value bs) / 256 = value bs := by omega
      have hlow : UInt8.ofNat (b.toNat + 256 * value bs) = b := by
        apply UInt8.toNat_inj.mp
        rw [UInt8.toNat_ofNat']
        omega
      simp only [value, List.length_cons, bytes, hdiv, hlow, ih]

end Infrared.Word
