import Mathlib.Tactic.Ring
import NfpUdpEcho.Framework.BitField

/-!
# Fields of a register

The macros of `user/nfpcore/nfp_nsp.h` name a field of a register by its mask alone. A mask is
that of a `BitRange` (`MaskOf`); then `FIELD_PREP` writes the field and `FIELD_GET` reads it
(`MaskOf.fieldGet_fieldPrep`), and `FIELD_FIT` is whether a value has a place in it.
-/

namespace NfpUdpEcho

open BitField

/-- `GENMASK_ULL`. -/
def genmaskUll (h l : UInt64) : UInt64 :=
  (~~~(0 : UInt64) - (1 <<< l) + 1) &&& (~~~(0 : UInt64) >>> (64 - 1 - h))

/-- `__bf_shf`: the place of the lowest bit. -/
def bfShf (x : UInt64) : UInt64 := (((List.range 64).find? x.toNat.testBit).getD 0).toUInt64

/-- `FIELD_GET`. -/
def fieldGet (mask reg : UInt64) : UInt64 := (reg &&& mask) >>> bfShf mask

/-- `FIELD_FIT`. -/
def fieldFit (mask val : UInt64) : Bool := (val <<< bfShf mask) &&& ~~~mask == 0

/-- `FIELD_PREP`. -/
def fieldPrep (mask val : UInt64) : UInt64 := (val <<< bfShf mask) &&& mask

/-- The mask of a field. -/
structure MaskOf (f : BitRange 64) (mask : UInt64) : Prop where
  bits : mask.toBitVec = f.mask
  pos : 0 < f.width

variable {f g : BitRange 64} {mask mask' val reg reg' : UInt64}

theorem maskOf_genmaskUll (hpos : 0 < f.width) :
    MaskOf f (genmaskUll (f.lsb + f.width - 1).toUInt64 f.lsb.toUInt64) := by
  refine ⟨?_, hpos⟩
  have hfits := f.fits
  have hlow : (~~~(0 : UInt64) - (1 <<< f.lsb.toUInt64) + 1).toBitVec =
      BitVec.allOnes 64 <<< f.lsb := by
    rw [UInt64.toBitVec_add, UInt64.toBitVec_sub, toBitVec_shiftLeft_of_lt _ (by omega),
      BitVec.shiftLeft_eq_mul_twoPow, BitVec.shiftLeft_eq_mul_twoPow,
      ← BitVec.neg_one_eq_allOnes]
    change -1#64 - 1#64 * BitVec.twoPow 64 f.lsb + 1#64 = -1#64 * BitVec.twoPow 64 f.lsb
    ring
  have hhigh : (~~~(0 : UInt64) >>> (64 - 1 - (f.lsb + f.width - 1).toUInt64)).toBitVec =
      BitVec.allOnes 64 >>> (64 - (f.lsb + f.width)) := by
    have hshift : 64 - 1 - (f.lsb + f.width - 1).toUInt64 = (64 - (f.lsb + f.width)).toUInt64 := by
      have htop : (f.lsb + f.width - 1).toUInt64.toNat = f.lsb + f.width - 1 :=
        UInt64.toNat_ofNat_of_lt' (Nat.lt_trans (show _ < 64 by omega) (by decide))
      have hdown : (64 - (f.lsb + f.width)).toUInt64.toNat = 64 - (f.lsb + f.width) :=
        UInt64.toNat_ofNat_of_lt' (Nat.lt_trans (show _ < 64 by omega) (by decide))
      have h63 : (64 - 1 : UInt64).toNat = 63 := rfl
      apply UInt64.toNat_inj.mp
      rw [UInt64.toNat_sub, htop, hdown, h63]
      omega
    rw [hshift, toBitVec_shiftRight_of_lt _ (by omega)]
    rfl
  refine BitVec.eq_of_getLsbD_eq fun k hk => ?_
  rw [genmaskUll, UInt64.toBitVec_and, hlow, hhigh, BitVec.getLsbD_and, BitVec.getLsbD_shiftLeft,
    BitVec.getLsbD_ushiftRight, BitVec.getLsbD_allOnes, BitVec.getLsbD_allOnes,
    BitRange.getLsbD_mask hk]
  unfold BitRange.Has
  grind

namespace MaskOf

section One

variable (h : MaskOf f mask)

include h

theorem lsb_lt : f.lsb < 64 := by
  have hfits := f.fits
  have hpos := h.pos
  omega

theorem bfShf_eq : bfShf mask = f.lsb.toUInt64 := by
  have hbit (k : ℕ) (hk : k < 64) : mask.toNat.testBit k = decide (f.Has k) := by
    have hmask := BitRange.getLsbD_mask (f := f) hk
    rw [← h.bits] at hmask
    exact hmask
  have hlsb := h.lsb_lt
  have hpos := h.pos
  have hfind : (List.range 64).find? mask.toNat.testBit = some f.lsb := by
    rw [List.find?_range_eq_some]
    refine ⟨?_, List.mem_range.mpr hlsb, fun j hj => ?_⟩
    · rw [hbit _ hlsb]
      exact decide_eq_true ⟨le_rfl, by omega⟩
    · rw [hbit _ (hj.trans hlsb), decide_eq_false fun hhas => absurd hhas.1 (Nat.not_le.mpr hj)]
      rfl
  rw [bfShf, hfind, Option.getD_some]

theorem toBitVec_fieldGet :
    (fieldGet mask reg).toBitVec = (f.get reg.toBitVec).setWidth 64 := by
  rw [fieldGet, h.bfShf_eq, toBitVec_shiftRight_of_lt _ h.lsb_lt, UInt64.toBitVec_and, h.bits,
    BitRange.and_mask_ushiftRight]

theorem toBitVec_fieldPrep :
    (fieldPrep mask val).toBitVec = val.toBitVec <<< f.lsb &&& f.mask := by
  rw [fieldPrep, h.bfShf_eq, UInt64.toBitVec_and, toBitVec_shiftLeft_of_lt _ h.lsb_lt, h.bits]

theorem fieldGet_lt : (fieldGet mask reg).toNat < 2 ^ f.width := by
  have hlt : (f.get reg.toBitVec).toNat < 2 ^ f.width := BitVec.isLt _
  rw [← UInt64.toNat_toBitVec, h.toBitVec_fieldGet, BitVec.toNat_setWidth]
  exact (Nat.mod_le _ _).trans_lt hlt

theorem fieldGet_or : fieldGet mask (reg ||| reg') = fieldGet mask reg ||| fieldGet mask reg' := by
  rw [← UInt64.toBitVec_inj, UInt64.toBitVec_or, h.toBitVec_fieldGet, h.toBitVec_fieldGet,
    h.toBitVec_fieldGet, UInt64.toBitVec_or, BitRange.get_or, BitVec.setWidth_or]

/-- A field is read alike in words that agree in it. -/
theorem fieldGet_congr (hget : f.get reg.toBitVec = f.get reg'.toBitVec) :
    fieldGet mask reg = fieldGet mask reg' := by
  rw [← UInt64.toBitVec_inj, h.toBitVec_fieldGet, h.toBitVec_fieldGet, hget]

/-- A field that has been written over. -/
theorem get_write : f.get (reg &&& ~~~mask ||| val &&& mask).toBitVec = f.get val.toBitVec := by
  rw [UInt64.toBitVec_or, UInt64.toBitVec_and, UInt64.toBitVec_and, UInt64.toBitVec_not, h.bits,
    BitRange.get_or, BitRange.get_and_not_mask, BitRange.get_and_mask]
  exact BitVec.zero_or

/-- The other fields are as they were. -/
theorem get_write_of_disjoint (hdisj : f.Disjoint g) :
    g.get (reg &&& ~~~mask ||| val &&& mask).toBitVec = g.get reg.toBitVec := by
  rw [UInt64.toBitVec_or, UInt64.toBitVec_and, UInt64.toBitVec_and, UInt64.toBitVec_not, h.bits,
    BitRange.get_or, BitRange.get_and_not_mask_of_disjoint hdisj,
    BitRange.get_and_mask_of_disjoint hdisj]
  exact BitVec.or_zero

/-- **A field is read as it has been written.** -/
theorem fieldGet_fieldPrep (hval : val.toNat < 2 ^ f.width) :
    fieldGet mask (fieldPrep mask val) = val := by
  rw [← UInt64.toBitVec_inj, h.toBitVec_fieldGet, h.toBitVec_fieldPrep, BitRange.get_and_mask,
    BitRange.get_shiftLeft]
  apply BitVec.eq_of_toNat_eq
  rw [BitVec.toNat_setWidth, BitVec.toNat_setWidth, UInt64.toNat_toBitVec, Nat.mod_eq_of_lt hval,
    Nat.mod_eq_of_lt val.toNat_lt]

theorem fieldFit_iff : fieldFit mask val = true ↔ val.toNat % 2 ^ (64 - f.lsb) < 2 ^ f.width := by
  rw [fieldFit, beq_iff_eq, ← UInt64.toBitVec_inj, UInt64.toBitVec_and, UInt64.toBitVec_not,
    h.bfShf_eq, toBitVec_shiftLeft_of_lt _ h.lsb_lt, h.bits]
  exact BitRange.shiftLeft_and_not_mask_eq_zero

end One

/-- It is not read in another field. -/
theorem fieldGet_fieldPrep_of_disjoint (h : MaskOf f mask) (h' : MaskOf g mask')
    (hdisj : f.Disjoint g) : fieldGet mask' (fieldPrep mask val) = 0 := by
  rw [← UInt64.toBitVec_inj, h'.toBitVec_fieldGet, h.toBitVec_fieldPrep,
    BitRange.get_and_mask_of_disjoint hdisj]
  exact BitVec.setWidth_zero _ _

end MaskOf

end NfpUdpEcho
