import Mathlib.Data.Int.GCD
import Mathlib.Data.Int.ModEq

namespace Infrared

theorem toNat_ofNat_sub_ofNat_mod {a b : Nat} (h : a ≤ b) :
    (UInt32.ofNat b - UInt32.ofNat a).toNat = (b - a) % UInt32.size := by
  rw [UInt32.toNat_sub, UInt32.toNat_ofNat', UInt32.toNat_ofNat']
  simp only [UInt32.size]
  omega

theorem toNat_ofNat_sub_ofNat {a b : Nat} (h : a ≤ b) (hlt : b - a < UInt32.size) :
    (UInt32.ofNat b - UInt32.ofNat a).toNat = b - a := by
  rw [toNat_ofNat_sub_ofNat_mod h, Nat.mod_eq_of_lt hlt]

theorem ofNat_sub_ofNat {a b : Nat} (h : a ≤ b) (hlt : b - a < UInt32.size) :
    UInt32.ofNat b - UInt32.ofNat a = UInt32.ofNat (b - a) := by
  apply UInt32.toNat_inj.mp
  rw [toNat_ofNat_sub_ofNat h hlt, UInt32.toNat_ofNat', Nat.mod_eq_of_lt hlt]

theorem mul_mod_add_gcd_le (n tick : Nat) {size : Nat} (h : 0 < size) :
    n * tick % size + tick.gcd size ≤ size := by
  have hlt := Nat.mod_lt (n * tick) h
  have hround : tick.gcd size ∣ size := Nat.gcd_dvd_right tick size
  have hdvd : tick.gcd size ∣ n * tick % size :=
    (Nat.dvd_mod_iff hround).mpr (Nat.dvd_mul_left_of_dvd (Nat.gcd_dvd_left tick size) n)
  have hle := Nat.le_of_dvd (by omega) (Nat.dvd_sub hround hdvd)
  omega

theorem exists_add_modEq (first wanted : Nat) {size : Nat} (h : 0 < size) :
    ∃ m < size, first + m ≡ wanted [MOD size] := by
  refine ⟨(wanted + (size - first % size)) % size, Nat.mod_lt _ h, ?_⟩
  have hlt := Nat.mod_lt first h
  have hround : first + (wanted + (size - first % size)) = wanted + size * (first / size + 1) := by
    have hdiv := Nat.div_add_mod first size
    rw [Nat.mul_succ]
    omega
  rw [Nat.ModEq, Nat.add_mod_mod, hround, Nat.add_mul_mod_self_left]

theorem exists_mul_mod_add_gcd (first tick : Nat) {size : Nat} (h : 0 < size) :
    ∃ m < size, (first + m) * tick % size + tick.gcd size = size := by
  obtain ⟨unit, hunit, hmul⟩ : ∃ unit ≤ size, unit * tick % size = tick.gcd size % size := by
    rcases Nat.lt_or_ge (tick.gcd size) size with hlt | hge
    · obtain ⟨unit, hunit, hmul⟩ := Nat.exists_mul_mod_eq_gcd hlt
      exact ⟨unit, Nat.le_of_lt hunit, by rw [Nat.mul_comm, hmul, Nat.mod_eq_of_lt hlt]⟩
    · have hgcd : tick.gcd size = size := Nat.le_antisymm (Nat.gcd_le_right tick h) hge
      exact ⟨0, Nat.zero_le _, by rw [hgcd, Nat.mod_self, Nat.zero_mul, Nat.zero_mod]⟩
  -- The multiple that is asked for is the negative of this one.
  obtain ⟨m, hm, hmod⟩ := exists_add_modEq first (size - unit) h
  have hsum : (first + m) * tick + tick.gcd size ≡ 0 [MOD size] :=
    calc (first + m) * tick + tick.gcd size
        ≡ (size - unit) * tick + unit * tick [MOD size] := (hmod.mul_right tick).add hmul.symm
      _ = size * tick := by rw [← Nat.add_mul, Nat.sub_add_cancel hunit]
      _ ≡ 0 [MOD size] := (Nat.modEq_zero_iff_dvd).mpr (Nat.dvd_mul_right size tick)
  refine ⟨m, hm, ?_⟩
  have hle := mul_mod_add_gcd_le (first + m) tick h
  have hpos := Nat.gcd_pos_of_pos_right tick h
  have hdvd : size ∣ (first + m) * tick % size + tick.gcd size := by
    rw [← Nat.modEq_zero_iff_dvd]
    exact ((Nat.mod_modEq _ _).add_right _).trans hsum
  exact Nat.le_antisymm hle (Nat.le_of_dvd (by omega) hdvd)

end Infrared
