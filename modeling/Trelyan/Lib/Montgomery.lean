import Mathlib.Data.ZMod.Basic
import Mathlib.Tactic.Ring

/-!
# Montgomery reduction

`redc` divides by `R` modulo `q` without dividing by `q`: it adds the multiple of `q` that
clears the residue modulo `R`, and divides exactly.  `w` is `-1/q` modulo `R`.
-/

namespace Trelyan.Montgomery

/-- `(z + ((z * w) mod R) * q) / R`. -/
def redc (R q w z : Nat) : Nat := (z + z * w % R * q) / R

variable {R q w : Nat}

/-- The division is exact. -/
theorem redc_mul (hq : R ∣ q * w + 1) (z : Nat) :
    redc R q w z * R = z + z * w % R * q := by
  apply Nat.div_mul_cancel
  have hz : (z + z * w * q) % R = 0 := by
    rw [show z + z * w * q = z * (q * w + 1) by ring]
    exact Nat.mod_eq_zero_of_dvd (Dvd.dvd.mul_left hq z)
  apply Nat.dvd_of_mod_eq_zero
  rw [← hz, Nat.add_mod, Nat.mod_mul_mod, ← Nat.add_mod]

/-- Reducing multiplies by the inverse of `R`. -/
theorem redc_cast (hq : R ∣ q * w + 1) (z : Nat) :
    (redc R q w z : ZMod q) * R = z := by
  have h := congrArg (Nat.cast (R := ZMod q)) (redc_mul hq z)
  push_cast at h
  rw [h, ZMod.natCast_self, mul_zero, add_zero]

/-- One conditional subtraction brings the result below `q`. -/
theorem redc_lt (hR : 0 < R) {z : Nat} (hz : z < R * q) : redc R q w z < 2 * q := by
  apply Nat.div_lt_of_lt_mul
  have hmod : z * w % R * q ≤ R * q := Nat.mul_le_mul_right q (Nat.mod_lt _ hR).le
  rw [show R * (2 * q) = R * q + R * q by ring]
  omega

end Trelyan.Montgomery
