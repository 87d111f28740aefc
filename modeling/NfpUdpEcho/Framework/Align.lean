import Mathlib.Data.Nat.Bitwise
import Mathlib.Data.UInt

/-!
# Alignment with masks

A mask without its low `k` bits rounds a word down to a multiple of `2 ^ k` (`toNat_floor`), and
up when `2 ^ k - 1` is added before (`toNat_ceil`). The sum wraps for the last words; what is
rounded up to something else than zero has not wrapped (`le_ceil`).
-/

namespace Align

variable {k : ℕ} {mask : UInt64}

/-- **Rounding down.** -/
theorem toNat_floor (hmask : mask.toNat = (2 ^ (64 - k) - 1) <<< k) (z : UInt64) :
    (z &&& mask).toNat = z.toNat / 2 ^ k * 2 ^ k := by
  rw [UInt64.toNat_and, hmask, ← Nat.shiftRight_eq_div_pow, ← Nat.shiftLeft_eq]
  refine Nat.eq_of_testBit_eq fun i => ?_
  rw [Nat.testBit_and, Nat.testBit_shiftLeft, Nat.testBit_shiftLeft, Nat.testBit_shiftRight,
    Nat.testBit_two_pow_sub_one]
  by_cases hlow : k ≤ i
  · rw [show k + (i - k) = i by omega]
    by_cases hhigh : i < 64
    · simp [hlow, show i - k < 64 - k by omega]
    · have hzero : z.toNat.testBit i = false :=
        Nat.testBit_lt_two_pow (lt_of_lt_of_le z.toNat_lt (Nat.pow_le_pow_right (by decide)
          (not_lt.mp hhigh)))
      simp [hzero]
  · simp [hlow]

/-- **Rounding up.** -/
theorem toNat_ceil (hmask : mask.toNat = (2 ^ (64 - k) - 1) <<< k) {low : UInt64}
    (hlow : low.toNat = 2 ^ k - 1) (z : UInt64) :
    (z + low &&& mask).toNat = (z.toNat + (2 ^ k - 1)) % 2 ^ 64 / 2 ^ k * 2 ^ k := by
  rw [toNat_floor hmask, UInt64.toNat_add, hlow]

/-- What is rounded up without wrapping is no less. -/
theorem le_ceil (hmask : mask.toNat = (2 ^ (64 - k) - 1) <<< k) {low : UInt64}
    (hlow : low.toNat = 2 ^ k - 1) {z : UInt64} (hne : z + low &&& mask ≠ 0) :
    z.toNat ≤ (z + low &&& mask).toNat := by
  have hpos : 0 < 2 ^ k := Nat.two_pow_pos k
  have hz := z.toNat_lt
  rw [toNat_ceil hmask hlow]
  by_cases hwrap : z.toNat + (2 ^ k - 1) < 2 ^ 64
  · rw [Nat.mod_eq_of_lt hwrap]
    have hdiv := Nat.lt_div_mul_add (a := z.toNat + (2 ^ k - 1)) hpos
    omega
  · -- a sum that wraps is below the mask
    refine absurd (UInt64.toNat_inj.mp ?_) hne
    have hsmall : (z.toNat + (2 ^ k - 1)) % 2 ^ 64 < 2 ^ k := by
      rw [Nat.mod_eq_sub_mod (not_lt.mp hwrap)]
      exact lt_of_le_of_lt (Nat.mod_le _ _) (by omega)
    rw [toNat_ceil hmask hlow, Nat.div_eq_of_lt hsmall, zero_mul]
    rfl

end Align
