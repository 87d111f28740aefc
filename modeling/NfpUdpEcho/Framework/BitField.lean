import Mathlib.Data.BitVec
import Mathlib.Data.UInt

/-!
# Fields of a word

A `BitRange n` is a range of bits of a word of `n` bits. `get` reads it and `set` writes it; what is
written is read back (`get_set`), and fields that do not meet it keep their values
(`get_set_of_disjoint`). Programs write fields with masks and shifts: `set_of_mask` and
`or_shiftLeft_eq_set` say what they write.

Everything is settled bit by bit: `getLsbD_get`, `getLsbD_mask`, `getLsbD_shift` and `getLsbD_set`
say what a bit of each of the four is, and a statement about words is `BitVec.eq_of_getLsbD_eq`
followed by these and one case split on whether the bit is of the field. That is why a field carries
the proof that it fits the word: every bit of it is below `n`, where the four lemmas apply.
-/

namespace BitField

/-- A range of bits of a word. -/
structure BitRange (n : ℕ) where
  lsb : ℕ
  width : ℕ
  fits : lsb + width ≤ n

variable {n : ℕ}

namespace BitRange

/-- The bit `k` of a word is one of the field. -/
def Has (f : BitRange n) (k : ℕ) : Prop := f.lsb ≤ k ∧ k < f.lsb + f.width

instance (f : BitRange n) (k : ℕ) : Decidable (f.Has k) := inferInstanceAs (Decidable (_ ∧ _))

/-- The field of a word. -/
def get (f : BitRange n) (x : BitVec n) : BitVec f.width := x.extractLsb' f.lsb f.width

/-- A word whose bits are those of the field. -/
def mask (f : BitRange n) : BitVec n := (BitVec.allOnes f.width).setWidth n <<< f.lsb

/-- The word with another value in the field. -/
def set (f : BitRange n) (x : BitVec n) (v : BitVec f.width) : BitVec n :=
  (x &&& ~~~f.mask) ||| (v.setWidth n <<< f.lsb)

variable {f g : BitRange n} {x y : BitVec n} {v : BitVec f.width} {k : ℕ}

/-- The bits of a field are bits of the word. -/
theorem getLsbD_get : (f.get x).getLsbD k = (decide (k < f.width) && x.getLsbD (f.lsb + k)) :=
  BitVec.getLsbD_extractLsb' ..

/-- The bits of a mask are those of its field. -/
theorem getLsbD_mask (hk : k < n) : f.mask.getLsbD k = decide (f.Has k) := by
  rw [mask, BitVec.getLsbD_shiftLeft, BitVec.getLsbD_setWidth, BitVec.getLsbD_allOnes]
  by_cases hlt : k < f.lsb
  · have hhas : ¬f.Has k := fun h => absurd h.1 (Nat.not_le.mpr hlt)
    simp [hlt, hhas]
  · have hhas : f.Has k ↔ k - f.lsb < f.width := by
      unfold Has
      omega
    simp [hk, hlt, hhas, Nat.lt_of_le_of_lt (Nat.sub_le k f.lsb) hk]

/-- The bits of a value that has been shifted to a field. -/
theorem getLsbD_shift (hk : k < n) : (v.setWidth n <<< f.lsb).getLsbD k =
    (decide (f.Has k) && v.getLsbD (k - f.lsb)) := by
  rw [BitVec.getLsbD_shiftLeft, BitVec.getLsbD_setWidth]
  by_cases hlt : k < f.lsb
  · have hhas : ¬f.Has k := fun h => absurd h.1 (Nat.not_le.mpr hlt)
    simp [hlt, hhas]
  · by_cases hhas : f.Has k
    · simp [hk, hlt, hhas, Nat.lt_of_le_of_lt (Nat.sub_le k f.lsb) hk]
    · -- the value does not reach beyond the field
      have hwidth : f.width ≤ k - f.lsb := by
        unfold Has at hhas
        omega
      rw [BitVec.getLsbD_of_ge v _ hwidth]
      simp

/-- The bits of a word after a write. -/
theorem getLsbD_set (hk : k < n) :
    (f.set x v).getLsbD k = if f.Has k then v.getLsbD (k - f.lsb) else x.getLsbD k := by
  rw [set, BitVec.getLsbD_or, BitVec.getLsbD_and, BitVec.getLsbD_not, getLsbD_mask hk,
    getLsbD_shift hk]
  by_cases hhas : f.Has k
  · rw [if_pos hhas, decide_eq_true hhas, decide_eq_true hk]
    simp
  · rw [if_neg hhas, decide_eq_false hhas, decide_eq_true hk]
    simp

/-- What is written is read back. -/
@[simp] theorem get_set : f.get (f.set x v) = v := by
  refine BitVec.eq_of_getLsbD_eq fun k hk => ?_
  have hlt : f.lsb + k < n := Nat.lt_of_lt_of_le (Nat.add_lt_add_left hk _) f.fits
  have hhas : f.Has (f.lsb + k) := ⟨Nat.le_add_right _ _, Nat.add_lt_add_left hk _⟩
  rw [getLsbD_get, getLsbD_set hlt, if_pos hhas, Nat.add_sub_cancel_left]
  simp [hk]

/-- Two fields without a common bit. -/
def Disjoint (f g : BitRange n) : Prop := f.lsb + f.width ≤ g.lsb ∨ g.lsb + g.width ≤ f.lsb

instance : Decidable (f.Disjoint g) := inferInstanceAs (Decidable (_ ∨ _))

/-- A field that does not meet the one written keeps its value. -/
theorem get_set_of_disjoint (h : f.Disjoint g) : g.get (f.set x v) = g.get x := by
  refine BitVec.eq_of_getLsbD_eq fun k hk => ?_
  have hlt : g.lsb + k < n := Nat.lt_of_lt_of_le (Nat.add_lt_add_left hk _) g.fits
  have hhas : ¬f.Has (g.lsb + k) := by
    unfold Disjoint at h
    unfold Has
    omega
  rw [getLsbD_get, getLsbD_get, getLsbD_set hlt, if_neg hhas]

/-- A write with a mask. -/
theorem set_of_mask {m : BitVec n} (hm : m = f.mask) :
    (x &&& ~~~m) ||| (y &&& m) = f.set x (f.get y) := by
  subst hm
  refine BitVec.eq_of_getLsbD_eq fun k hk => ?_
  rw [getLsbD_set hk, BitVec.getLsbD_or, BitVec.getLsbD_and, BitVec.getLsbD_and,
    BitVec.getLsbD_not, getLsbD_mask hk]
  by_cases hhas : f.Has k
  · have hsub : k - f.lsb < f.width := by
      unfold Has at hhas
      omega
    rw [if_pos hhas, decide_eq_true hhas, decide_eq_true hk, getLsbD_get,
      Nat.add_sub_cancel' hhas.1, decide_eq_true hsub]
    simp
  · rw [if_neg hhas, decide_eq_false hhas, decide_eq_true hk]
    simp

/-- The value of a word that has been shifted to a field. -/
theorem get_shiftLeft : f.get (y <<< f.lsb) = y.setWidth f.width := by
  refine BitVec.eq_of_getLsbD_eq fun k hk => ?_
  have hlt : f.lsb + k < n := Nat.lt_of_lt_of_le (Nat.add_lt_add_left hk _) f.fits
  rw [getLsbD_get, BitVec.getLsbD_setWidth, BitVec.getLsbD_shiftLeft, Nat.add_sub_cancel_left,
    decide_eq_true hlt, decide_eq_false (Nat.not_lt.mpr (Nat.le_add_right f.lsb k))]
  simp

/-- The value of a word that has been cut to a field. -/
theorem get_and_mask : f.get (x &&& f.mask) = f.get x := by
  refine BitVec.eq_of_getLsbD_eq fun k hk => ?_
  have hlt : f.lsb + k < n := Nat.lt_of_lt_of_le (Nat.add_lt_add_left hk _) f.fits
  have hhas : f.Has (f.lsb + k) := ⟨Nat.le_add_right _ _, Nat.add_lt_add_left hk _⟩
  rw [getLsbD_get, getLsbD_get, BitVec.getLsbD_and, getLsbD_mask hlt, decide_eq_true hhas,
    Bool.and_true]

/-- A word that has been cut to a field is 0 in the others. -/
theorem get_and_mask_of_disjoint (h : f.Disjoint g) : g.get (x &&& f.mask) = 0 := by
  refine BitVec.eq_of_getLsbD_eq fun k hk => ?_
  have hlt : g.lsb + k < n := Nat.lt_of_lt_of_le (Nat.add_lt_add_left hk _) g.fits
  have hhas : ¬f.Has (g.lsb + k) := by
    unfold Disjoint at h
    unfold Has
    omega
  rw [getLsbD_get, BitVec.getLsbD_and, getLsbD_mask hlt, decide_eq_false hhas]
  simp

/-- A word without the field is 0 there. -/
theorem get_and_not_mask : f.get (x &&& ~~~f.mask) = 0 := by
  refine BitVec.eq_of_getLsbD_eq fun k hk => ?_
  have hlt : f.lsb + k < n := Nat.lt_of_lt_of_le (Nat.add_lt_add_left hk _) f.fits
  have hhas : f.Has (f.lsb + k) := ⟨Nat.le_add_right _ _, Nat.add_lt_add_left hk _⟩
  rw [getLsbD_get, BitVec.getLsbD_and, BitVec.getLsbD_not, getLsbD_mask hlt, decide_eq_true hhas]
  simp

/-- A word without the field is the same in the others. -/
theorem get_and_not_mask_of_disjoint (h : f.Disjoint g) : g.get (x &&& ~~~f.mask) = g.get x := by
  refine BitVec.eq_of_getLsbD_eq fun k hk => ?_
  have hlt : g.lsb + k < n := Nat.lt_of_lt_of_le (Nat.add_lt_add_left hk _) g.fits
  have hhas : ¬f.Has (g.lsb + k) := by
    unfold Disjoint at h
    unfold Has
    omega
  rw [getLsbD_get, getLsbD_get, BitVec.getLsbD_and, BitVec.getLsbD_not, getLsbD_mask hlt,
    decide_eq_false hhas]
  simp [hlt]

/-- A field of two words that are put together. -/
theorem get_or : f.get (x ||| y) = f.get x ||| f.get y := by
  refine BitVec.eq_of_getLsbD_eq fun k hk => ?_
  rw [BitVec.getLsbD_or, getLsbD_get, getLsbD_get, getLsbD_get, BitVec.getLsbD_or,
    Bool.and_or_distrib_left]

/-- A read with a mask and a shift. -/
theorem and_mask_ushiftRight : (x &&& f.mask) >>> f.lsb = (f.get x).setWidth n := by
  refine BitVec.eq_of_getLsbD_eq fun k hk => ?_
  rw [BitVec.getLsbD_ushiftRight, BitVec.getLsbD_and, BitVec.getLsbD_setWidth, getLsbD_get,
    decide_eq_true hk, Bool.true_and]
  have hfits := f.fits
  by_cases hlt : f.lsb + k < n
  · have hhas : f.Has (f.lsb + k) ↔ k < f.width := by
      unfold Has
      omega
    rw [getLsbD_mask hlt, decide_eq_decide.mpr hhas, Bool.and_comm]
  · have hwidth : ¬k < f.width := by omega
    rw [BitVec.getLsbD_of_ge _ _ (Nat.le_of_not_lt hlt), decide_eq_false hwidth]
    rfl

/-- A value fits a field when no bit of it is shifted beyond the mask. -/
theorem shiftLeft_and_not_mask_eq_zero :
    (y <<< f.lsb) &&& ~~~f.mask = 0 ↔ y.toNat % 2 ^ (n - f.lsb) < 2 ^ f.width := by
  -- the bit `i` of the value is the bit `f.lsb + i` of the word
  have hbit {i : ℕ} (hi : f.lsb + i < n) :
      ((y <<< f.lsb) &&& ~~~f.mask).getLsbD (f.lsb + i) =
        ((y.toNat % 2 ^ (n - f.lsb)).testBit i && !decide (i < f.width)) := by
    have hhas : decide (f.Has (f.lsb + i)) = decide (i < f.width) := by
      unfold Has
      exact decide_eq_decide.mpr (by omega)
    rw [BitVec.getLsbD_and, BitVec.getLsbD_not, getLsbD_mask hi, BitVec.getLsbD_shiftLeft,
      Nat.add_sub_cancel_left, hhas, Nat.testBit_mod_two_pow,
      decide_eq_true hi, decide_eq_false (Nat.not_lt.mpr (Nat.le_add_right _ _)),
      decide_eq_true (show i < n - f.lsb by omega)]
    simp [BitVec.getLsbD]
  -- a bit of the value that is shifted beyond the mask is a bit of the word outside it
  constructor
  · intro hzero
    refine Nat.lt_pow_two_of_testBit _ fun i hi => ?_
    by_cases hlt : f.lsb + i < n
    · have hz := hbit hlt
      rw [hzero, decide_eq_false (Nat.not_lt.mpr hi)] at hz
      simpa using hz.symm
    · rw [Nat.testBit_mod_two_pow, decide_eq_false (by omega), Bool.false_and]
  · intro hlt
    refine BitVec.eq_of_getLsbD_eq fun k hk => ?_
    by_cases hle : f.lsb ≤ k
    · obtain ⟨i, rfl⟩ := Nat.exists_eq_add_of_le hle
      rw [hbit hk]
      by_cases hi : i < f.width
      · simp [hi]
      · have hpow : 2 ^ f.width ≤ 2 ^ i := Nat.pow_le_pow_right Nat.two_pos (Nat.le_of_not_lt hi)
        rw [Nat.testBit_lt_two_pow (hlt.trans_le hpow)]
        simp
    · rw [BitVec.getLsbD_and, BitVec.getLsbD_shiftLeft, decide_eq_true (Nat.lt_of_not_le hle)]
      simp

end BitRange

/-! ### Words of 64 bits

The shifts of a machine word take their amount modulo the width, so that an amount below 64 is what
the shifts of a vector take. -/

/-- An amount below 64 is not cut. -/
theorem toNat_shift_amount {k : ℕ} (hk : k < 64) : (k.toUInt64.toBitVec % 64).toNat = k := by
  have hk' : k.toUInt64.toBitVec.toNat = k :=
    UInt64.toNat_ofNat_of_lt' (Nat.lt_trans hk (by decide))
  rw [BitVec.toNat_umod, hk']
  exact Nat.mod_eq_of_lt hk

/-- A shift to the left by such an amount. -/
theorem toBitVec_shiftLeft_of_lt (x : UInt64) {k : ℕ} (hk : k < 64) :
    (x <<< k.toUInt64).toBitVec = x.toBitVec <<< k := by
  rw [UInt64.toBitVec_shiftLeft, BitVec.shiftLeft_eq', toNat_shift_amount hk]

/-- A shift to the right by such an amount. -/
theorem toBitVec_shiftRight_of_lt (x : UInt64) {k : ℕ} (hk : k < 64) :
    (x >>> k.toUInt64).toBitVec = x.toBitVec >>> k := by
  rw [UInt64.toBitVec_shiftRight, BitVec.ushiftRight_eq', toNat_shift_amount hk]

/-- The low `w` bits, as programs write them. -/
theorem one_shiftLeft_sub_one {n w : ℕ} (hw : w < n) :
    (1 : BitVec n) <<< w - 1 = (BitVec.allOnes w).setWidth n := by
  have hlt : 2 ^ w < 2 ^ n := Nat.pow_lt_pow_right (by decide) hw
  have hpos : 0 < 2 ^ w := Nat.two_pow_pos w
  have hone : (1 : BitVec n).toNat = 1 := Nat.mod_eq_of_lt (Nat.one_lt_two_pow (by omega))
  apply BitVec.eq_of_toNat_eq
  rw [BitVec.toNat_sub, BitVec.toNat_shiftLeft, BitVec.toNat_setWidth, BitVec.toNat_allOnes,
    Nat.shiftLeft_eq, hone, Nat.one_mul, Nat.mod_eq_of_lt hlt]
  have hsum : 2 ^ n - 1 + 2 ^ w = 2 ^ n + (2 ^ w - 1) := by omega
  rw [hsum, Nat.add_mod_left]

/-- Bits that are set need not be cleared before. -/
theorem and_not_or (x m : UInt64) : (x &&& ~~~m) ||| m = x ||| m := by
  rw [← UInt64.toBitVec_inj]
  refine BitVec.eq_of_getLsbD_eq fun k hk => ?_
  simp only [UInt64.toBitVec_or, UInt64.toBitVec_and, UInt64.toBitVec_not, BitVec.getLsbD_or,
    BitVec.getLsbD_and, BitVec.getLsbD_not, decide_eq_true hk]
  cases x.toBitVec.getLsbD k <;> cases m.toBitVec.getLsbD k <;> rfl

end BitField
