import NfpUdpEcho.Errno
import NfpUdpEcho.Framework.BitField
import NfpUdpEcho.Transport.Target

/-!
# The islands in an address

`nfp-common/nfp_cppat.h`. An address of a target names its island in some of its bits, either by
the whole id or by an index into the two islands that the target has. Which it is depends on the
target and on the mode that its IMB entry gives; `_nfp6000_cppat_addr_encode` writes an island
into an address and `_nfp6000_cppat_addr_decode` reads it.

An island, a mode and the like are `int`s of the source, here their 32-bit words. An error is the
return value.

Writing and reading meet in the bits of one field of the address. A whole id is six bits
(`iidField`), and an index is one bit with the `bits` of the id that go with it, below
(`indexField`). The encoder's masks and shifts are one `BitRange.set` of that field
(`toBitVec_encodeIid`, `encodeIndex_spec`, `encodeIndexed_spec`), the decoder's are one
`BitRange.get` (`toBitVec_decodeIid`, `decodeIndexed_of_set`), and what has been set is got back
(`decode_of_encode`).

The MU has a second field above it, the locality, and the decoder looks there first to know which of
the two forms the address has. So for the MU the proof also needs that what the encoder writes
leaves the locality alone, or sets it to the form that it writes (`isDirect_of_set`, `isDirect_or`).
In mode 3 the encoder sets the high bit of the locality only; with the low bit set before, the
decoder takes the address for the other form, and `LocalityOk` excludes that.

That a translation keeps the offset is the same fact read for the bits outside the field
(`SameBelow`, `encode_below`).
-/

namespace NfpUdpEcho

open BitField Errno

/-- `_NIC_NFP6000_MU_LOCALITY_DIRECT`. -/
def nicNfp6000MuLocalityDirect : UInt64 := 2

/-- `_nic_mask64`. -/
def nicMask64 (msb lsb : ℕ) (at0 : Bool) : UInt64 :=
  let w := msb - lsb + 1
  if w = 64 then ~~~0
  else if lsb + w > 64 then 0
  else
    let v := ((1 : UInt64) <<< w.toUInt64) - 1
    if at0 then v else v <<< lsb.toUInt64

/-! ### Reading an island -/

/-- The whole id at `iidLsb`. -/
def decodeIid (addr : UInt64) (iidLsb : ℕ) : UInt32 :=
  (addr >>> iidLsb.toUInt64).toUInt32 &&& 0x3F

/-- The index at `idxLsb` with the `bits` below it, which replace those of the island. -/
def decodeIndexed (addr : UInt64) (bits idxLsb : ℕ) (isld1 isld0 : UInt32) : UInt32 :=
  let low : UInt32 := (1 <<< bits.toUInt32) - 1
  let iidLsb := idxLsb - bits
  -- what the silicon does
  let isld0 := isld0 &&& ~~~low
  let isld1 := isld1 &&& ~~~low
  (if addr &&& nicMask64 idxLsb idxLsb false ≠ 0 then isld1 else isld0) |||
    ((addr >>> iidLsb.toUInt64) &&& low.toUInt64).toUInt32

/-- `_nfp6000_decode_basic`. -/
def nfp6000DecodeBasic (addr : UInt64) (cppTgt mode addr40 isld1 isld0 : UInt32) :
    Except ℤ UInt32 :=
  let idxLsb := if addr40 ≠ 0 then 39 else 31
  if cppTgt = cppTgtMu ∨ cppTgt = cppTgtCtxpb then .error (-1)
  else if mode = 0 then .ok (decodeIid addr (if addr40 ≠ 0 then 34 else 26))
  else if mode = 1 then .ok (decodeIndexed addr 0 idxLsb isld1 isld0)
  else if mode = 2 then .ok (decodeIndexed addr 1 idxLsb isld1 isld0)
  else if mode = 3 then .ok (decodeIndexed addr 2 idxLsb isld1 isld0)
  else .error (-1)

/-- `_nfp6000_cppat_mu_locality_lsb`. -/
def nfp6000CppatMuLocalityLsb (mode addr40 : UInt32) : Option ℕ :=
  if mode ≤ 3 then some (if addr40 ≠ 0 then 38 else 30) else none

/-- The locality of an address of the MU is `direct`. -/
def isDirect (addr : UInt64) (localityLsb : ℕ) : Bool :=
  (addr >>> localityLsb.toUInt64) &&& 3 == nicNfp6000MuLocalityDirect

/-- `_nfp6000_decode_mu`. -/
def nfp6000DecodeMu (addr : UInt64) (mode addr40 isld1 isld0 : UInt32) : Except ℤ UInt32 :=
  match nfp6000CppatMuLocalityLsb mode addr40 with
  | none => .error (-1)
  | some localityLsb =>
    let iidLsb := if addr40 ≠ 0 then 32 else 24
    let idxLsb := if addr40 ≠ 0 then 37 else 29
    if mode = 0 then .ok (decodeIid addr iidLsb)
    else if isDirect addr localityLsb then .ok (decodeIid addr iidLsb)
    else if mode = 1 then .ok (decodeIndexed addr 0 idxLsb isld1 isld0)
    else if mode = 2 then .ok (decodeIndexed addr 1 idxLsb isld1 isld0)
    else .ok (decodeIndexed addr 2 idxLsb isld1 isld0)

/-- The targets of `_nfp6000_encode_basic`. -/
def isBasicTgt (cppTgt : UInt32) : Bool :=
  cppTgt = cppTgtNbi ∨ cppTgt = cppTgtVqdr ∨ cppTgt = cppTgtIla ∨ cppTgt = cppTgtPcie ∨
    cppTgt = cppTgtArm ∨ cppTgt = cppTgtCrypto ∨ cppTgt = cppTgtCls

/-- `_nfp6000_cppat_addr_decode`. -/
def nfp6000CppatAddrDecode (addr : UInt64) (cppTgt mode addr40 isld1 isld0 : UInt32) :
    Except ℤ UInt32 :=
  if isBasicTgt cppTgt then nfp6000DecodeBasic addr cppTgt mode addr40 isld1 isld0
  else if cppTgt = cppTgtMu then nfp6000DecodeMu addr mode addr40 isld1 isld0
  else if cppTgt = cppTgtCtxpb then
    if mode ≠ 1 ∨ addr40 ≠ 0 then .error (-EINVAL) else .ok (decodeIid addr 24)
  else .error (-EINVAL)

/-! ### Writing an island -/

/-- The whole id at `iidLsb`. -/
def encodeIid (addr : UInt64) (destIsland : UInt32) (iidLsb : ℕ) : UInt64 :=
  let u64 := nicMask64 (iidLsb + 5) iidLsb false
  (addr &&& ~~~u64) ||| ((destIsland.toUInt64 <<< iidLsb.toUInt64) &&& u64)

/-- The index alone, in mode 1. -/
def encodeIndex (addr : UInt64) (destIsland : UInt32) (idxLsb : ℕ) (isld1 isld0 : UInt32) :
    ℤ × UInt64 :=
  -- Only need to clear the Index bit
  if destIsland = isld0 then (0, addr &&& ~~~nicMask64 idxLsb idxLsb false)
  -- Only need to set the Index bit
  else if destIsland = isld1 then (0, addr ||| ((1 : UInt64) <<< idxLsb.toUInt64))
  else (-1, addr)

/-- The loops over the index `i` and the `bits` below it: the first island that fits. -/
def encodeIndexed (addr : UInt64) (destIsland : UInt32) (bits idxLsb : ℕ)
    (isld1 isld0 : UInt32) : ℤ × UInt64 :=
  let low : UInt32 := (1 <<< bits.toUInt32) - 1
  let iidLsb := idxLsb - bits
  let isld0 := isld0 &&& ~~~low
  let isld1 := isld1 &&& ~~~low
  let tries := [isld0, isld1].zipIdx.flatMap fun (isld, i) =>
    (List.range (2 ^ bits)).map fun v => (isld, i, v)
  match tries.find? fun (isld, _, v) => destIsland = isld ||| v.toUInt32 with
  | some (_, i, v) =>
    (0, (addr &&& ~~~nicMask64 idxLsb iidLsb false) ||| (i.toUInt64 <<< idxLsb.toUInt64) |||
      (v.toUInt64 <<< iidLsb.toUInt64))
  | none => (-1, addr)

/-- `_nfp6000_encode_basic`. -/
def nfp6000EncodeBasic (addr : UInt64) (destIsland cppTgt mode addr40 isld1 isld0 : UInt32) :
    ℤ × UInt64 :=
  let idxLsb := if addr40 ≠ 0 then 39 else 31
  if cppTgt = cppTgtMu ∨ cppTgt = cppTgtCtxpb then (-1, addr)
  else if mode > 3 then (-1, addr)
  else if cppTgt = cppTgtVqdr ∧ addr40 = 0 then
    -- we'd rather not modify the address, but it has to go to the island
    match nfp6000DecodeBasic addr cppTgt mode addr40 isld1 isld0 with
    | .error i => (i, addr)
    | .ok v => if destIsland ≠ -1 ∧ destIsland ≠ v then (-1, addr) else (0, addr)
  else if mode = 0 then (0, encodeIid addr destIsland (if addr40 ≠ 0 then 34 else 26))
  else if mode = 1 then encodeIndex addr destIsland idxLsb isld1 isld0
  else if mode = 2 then encodeIndexed addr destIsland 1 idxLsb isld1 isld0
  else encodeIndexed addr destIsland 2 idxLsb isld1 isld0

/-- `_nfp6000_encode_mu`. -/
def nfp6000EncodeMu (addr : UInt64) (destIsland mode addr40 isld1 isld0 : UInt32) :
    ℤ × UInt64 :=
  match nfp6000CppatMuLocalityLsb mode addr40 with
  | none => (-1, addr)
  | some localityLsb =>
    let iidLsb := if addr40 ≠ 0 then 32 else 24
    let idxLsb := if addr40 ≠ 0 then 37 else 29
    if mode = 0 then (0, encodeIid addr destIsland iidLsb)
    else if mode = 3 ∧ destIsland.toInt32 > 0 ∧
        (destIsland.toInt32 < 24 ∨ destIsland.toInt32 > 26) then
      -- Only the EMU will use 40 bit addressing
      (0, encodeIid (addr ||| (nicNfp6000MuLocalityDirect <<< localityLsb.toUInt64)) destIsland
        iidLsb)
    else if isDirect addr localityLsb then (0, encodeIid addr destIsland iidLsb)
    else if mode = 1 then encodeIndex addr destIsland idxLsb isld1 isld0
    else if mode = 2 then encodeIndexed addr destIsland 1 idxLsb isld1 isld0
    else encodeIndexed addr destIsland 2 idxLsb isld1 isld0

/-- `_nfp6000_cppat_addr_encode`. -/
def nfp6000CppatAddrEncode : AddrEncode := fun addr destIsland cppTgt mode addr40 isld1 isld0 =>
  if isBasicTgt cppTgt then nfp6000EncodeBasic addr destIsland cppTgt mode addr40 isld1 isld0
  else if cppTgt = cppTgtMu then nfp6000EncodeMu addr destIsland mode addr40 isld1 isld0
  else if cppTgt = cppTgtCtxpb then
    if mode ≠ 1 ∨ addr40 ≠ 0 then (-1, addr) else (0, encodeIid addr destIsland 24)
  else (-1, addr)

/-! ### Masks

The masks of the source as those of a field. -/

/-- The mask of the source is the mask of the field. -/
theorem toBitVec_nicMask64 {f : BitRange 64} (hpos : 0 < f.width) (hlt : f.width < 64) :
    (nicMask64 (f.lsb + f.width - 1) f.lsb false).toBitVec = f.mask := by
  have hfits := f.fits
  have hw : f.lsb + f.width - 1 - f.lsb + 1 = f.width := by omega
  have hlsb : f.lsb < 64 := by omega
  rw [nicMask64, hw, if_neg hlt.ne, if_neg (Nat.not_lt.mpr f.fits)]
  simp only [Bool.false_eq_true, if_false]
  rw [toBitVec_shiftLeft_of_lt _ hlsb, BitRange.mask, UInt64.toBitVec_sub,
    toBitVec_shiftLeft_of_lt _ hlt]
  congr 1
  exact one_shiftLeft_sub_one hlt


/-! ### The fields

The functions above on the bits of an address. Everything below is stated of `toBitVec`, where a
field is set and read as a whole. -/

/-- The bits of a whole island id. -/
abbrev iidField (iidLsb : ℕ) (h : iidLsb + 6 ≤ 64) : BitRange 64 := ⟨iidLsb, 6, h⟩

/-- The bits of an index. -/
abbrev indexField (bits idxLsb : ℕ) (hbits : bits ≤ idxLsb) (hidx : idxLsb < 64) : BitRange 64 where
  lsb := idxLsb - bits
  width := bits + 1
  fits := by omega

section Fields

variable {addr addr' : UInt64} {destIsland isld1 isld0 : UInt32} {iidLsb idxLsb bits : ℕ}

/-- A whole id is set as a field. -/
theorem toBitVec_encodeIid (h : iidLsb + 6 ≤ 64) : (encodeIid addr destIsland iidLsb).toBitVec =
    (iidField iidLsb h).set addr.toBitVec (destIsland.toBitVec.setWidth 6) := by
  have hlt : iidLsb < 64 := by omega
  have hmask : (nicMask64 (iidLsb + 5) iidLsb false).toBitVec = (iidField iidLsb h).mask :=
    toBitVec_nicMask64 (f := iidField iidLsb h) (by decide : 0 < 6) (by decide : 6 < 64)
  -- the six bits of the island, shifted to the field, are what the field holds
  have hvalue : (iidField iidLsb h).get (destIsland.toUInt64.toBitVec <<< iidLsb) =
      destIsland.toBitVec.setWidth 6 := by
    rw [show destIsland.toUInt64.toBitVec <<< iidLsb =
      destIsland.toUInt64.toBitVec <<< (iidField iidLsb h).lsb from rfl, BitRange.get_shiftLeft]
    rw [UInt32.toBitVec_toUInt64]
    exact BitVec.setWidth_setWidth_of_le _ (by decide : 6 ≤ 64)
  rw [encodeIid]
  simp only [UInt64.toBitVec_or, UInt64.toBitVec_and, UInt64.toBitVec_not]
  rw [toBitVec_shiftLeft_of_lt _ hlt, BitRange.set_of_mask hmask, hvalue]

/-- It is read as one. -/
theorem toBitVec_decodeIid (h : iidLsb + 6 ≤ 64) : (decodeIid addr iidLsb).toBitVec =
    ((iidField iidLsb h).get addr.toBitVec).setWidth 32 := by
  have hlt : iidLsb < 64 := by omega
  -- bit by bit: the shift moves the field to the bottom, and the mask keeps six bits
  refine BitVec.eq_of_getLsbD_eq fun k hk => ?_
  have hmask : (0x3F : UInt32).toBitVec = (BitVec.allOnes 6).setWidth 32 := rfl
  rw [decodeIid, UInt32.toBitVec_and, UInt64.toBitVec_toUInt32, toBitVec_shiftRight_of_lt _ hlt,
    hmask, BitVec.getLsbD_and, BitVec.getLsbD_setWidth, BitVec.getLsbD_ushiftRight,
    BitVec.getLsbD_setWidth, BitVec.getLsbD_setWidth, BitVec.getLsbD_allOnes, BitRange.getLsbD_get,
    decide_eq_true hk, Bool.true_and, Bool.true_and, Bool.true_and, Bool.and_comm]

/-- The bits that an index leaves to the address. -/
def lowMask (bits : ℕ) : UInt32 := (1 <<< bits.toUInt32) - 1

theorem toBitVec_lowMask (hbits : bits ≤ 2) :
    (lowMask bits).toBitVec = (BitVec.allOnes bits).setWidth 32 := by
  obtain rfl | rfl | rfl : bits = 0 ∨ bits = 1 ∨ bits = 2 := by omega
  · rfl
  · rfl
  · rfl

/-- The test of a single bit. -/
theorem and_nicMask64_ne_zero {k : ℕ} (hk : k < 64) :
    addr &&& nicMask64 k k false ≠ 0 ↔ addr.toBitVec.getLsbD k = true := by
  let f : BitRange 64 := ⟨k, 1, hk⟩
  have hmask : (nicMask64 k k false).toBitVec = f.mask :=
    toBitVec_nicMask64 (f := f) (by decide : 0 < 1) (by decide : 1 < 64)
  have hbit (j : ℕ) (hj : j < 64) : (addr.toBitVec &&& f.mask).getLsbD j =
      (addr.toBitVec.getLsbD j && decide (j = k)) := by
    have hhas : f.Has j ↔ j = k := by
      change k ≤ j ∧ j < k + 1 ↔ j = k
      omega
    rw [BitVec.getLsbD_and, BitRange.getLsbD_mask hj, decide_eq_decide.mpr hhas]
  rw [ne_eq, ← UInt64.toBitVec_inj, UInt64.toBitVec_and, hmask, ← ne_eq]
  -- the mask has one bit, so the word is zero exactly when that bit is
  constructor
  · intro hne
    by_contra hzero
    refine hne (BitVec.eq_of_getLsbD_eq fun j hj => ?_)
    rw [hbit j hj]
    by_cases hjk : j = k
    · subst hjk
      rw [Bool.eq_false_iff.mpr hzero]
      simp
    · simp [hjk]
  · intro hone hzero
    have hk' := hbit k hk
    rw [hzero, hone] at hk'
    simp at hk'

/-- What an index and the bits below it are read as. -/
theorem decodeIndexed_of_set (hbits : bits ≤ 2) (hle : bits ≤ idxLsb) (hidx : idxLsb < 64)
    {x : BitVec 64} {b : Bool} {v : ℕ} (hv : v < 2 ^ bits)
    (h : addr.toBitVec = (indexField bits idxLsb hle hidx).set x
      (BitVec.cons b (BitVec.ofNat bits v))) :
    decodeIndexed addr bits idxLsb isld1 isld0 =
      ((if b then isld1 else isld0) &&& ~~~lowMask bits) ||| v.toUInt32 := by
  -- the field is read bit by bit: the value below, and the index above it
  have hbit {k : ℕ} (hk : k ≤ bits) : addr.toBitVec.getLsbD (idxLsb - bits + k) =
      if k = bits then b else v.testBit k := by
    have hhas : (indexField bits idxLsb hle hidx).Has (idxLsb - bits + k) :=
      ⟨Nat.le_add_right _ _, Nat.add_lt_add_left (Nat.lt_succ_of_le hk) _⟩
    rw [h, BitRange.getLsbD_set (by omega), if_pos hhas, Nat.add_sub_cancel_left,
      BitVec.getLsbD_cons, BitVec.getLsbD_ofNat]
    split
    next _ => rfl
    next hne => rw [decide_eq_true (Nat.lt_of_le_of_ne hk hne), Bool.true_and]
  have htop := hbit le_rfl
  rw [Nat.sub_add_cancel hle, if_pos rfl] at htop
  -- shifted down and masked, what is left of the address is the value
  have hlow : ((addr >>> (idxLsb - bits).toUInt64) &&& (lowMask bits).toUInt64).toUInt32 =
      v.toUInt32 := by
    rw [← UInt32.toBitVec_inj, UInt64.toBitVec_toUInt32, UInt64.toBitVec_and,
      toBitVec_shiftRight_of_lt _ (by omega), UInt32.toBitVec_toUInt64, toBitVec_lowMask hbits]
    refine BitVec.eq_of_getLsbD_eq fun k hk => ?_
    rw [BitVec.getLsbD_setWidth, BitVec.getLsbD_and, BitVec.getLsbD_ushiftRight,
      BitVec.getLsbD_setWidth, BitVec.getLsbD_setWidth, BitVec.getLsbD_allOnes]
    have hv' : v.toUInt32.toBitVec.getLsbD k = v.testBit k := by
      change (BitVec.ofNat 32 v).getLsbD k = v.testBit k
      rw [BitVec.getLsbD_ofNat, decide_eq_true hk, Bool.true_and]
    rw [hv']
    by_cases hlt : k < bits
    · rw [hbit hlt.le, if_neg hlt.ne, decide_eq_true hlt, decide_eq_true hk,
        decide_eq_true (Nat.lt_trans hk (by decide : 32 < 64))]
      simp
    · have hge : bits ≤ k := Nat.not_lt.mp hlt
      have hzero : v.testBit k = false :=
        Nat.testBit_lt_two_pow (Nat.lt_of_lt_of_le hv (Nat.pow_le_pow_right (by decide) hge))
      rw [hzero, decide_eq_false hlt]
      simp
  unfold decodeIndexed
  dsimp only
  rw [show (1 <<< bits.toUInt32 - 1 : UInt32) = lowMask bits from rfl, hlow]
  congr 1
  -- the index chooses between the two islands
  by_cases hb : b = true
  · rw [if_pos ((and_nicMask64_ne_zero hidx).mpr (htop.trans hb)), if_pos hb]
  · have hne : ¬addr &&& nicMask64 idxLsb idxLsb false ≠ 0 :=
      fun hne => hb (htop.symm.trans ((and_nicMask64_ne_zero hidx).mp hne))
    rw [if_neg hne, if_neg hb]

/-- The island that an index names. -/
def indexIsland (bits : ℕ) (isld1 isld0 : UInt32) (b : Bool) (v : ℕ) : UInt32 :=
  ((if b then isld1 else isld0) &&& ~~~lowMask bits) ||| v.toUInt32

/-- The address names the island by an index. -/
def NamesIndex (bits idxLsb : ℕ) (hle : bits ≤ idxLsb) (hidx : idxLsb < 64) (isld1 isld0 : UInt32)
    (addr : UInt64) (destIsland : UInt32) (addr' : UInt64) : Prop :=
  ∃ b v, v < 2 ^ bits ∧ destIsland = indexIsland bits isld1 isld0 b v ∧
    addr'.toBitVec = (indexField bits idxLsb hle hidx).set addr.toBitVec
      (BitVec.cons b (BitVec.ofNat bits v))

/-- The index and the bits below it, written one after the other. -/
theorem toBitVec_writeIndex (addr : UInt64) (hle : bits ≤ idxLsb) (hidx : idxLsb < 64)
    (hbits : bits ≤ 2) {b : Bool} {v : ℕ} (hv : v < 2 ^ bits) :
    ((addr &&& ~~~nicMask64 idxLsb (idxLsb - bits) false) |||
      (b.toNat.toUInt64 <<< idxLsb.toUInt64) |||
        (v.toUInt64 <<< (idxLsb - bits).toUInt64)).toBitVec =
      (indexField bits idxLsb hle hidx).set addr.toBitVec
        (BitVec.cons b (BitVec.ofNat bits v)) := by
  -- the mask spans the index and the bits below it
  have hmask : (nicMask64 idxLsb (idxLsb - bits) false).toBitVec =
      (indexField bits idxLsb hle hidx).mask := by
    have hmsb : idxLsb - bits + (bits + 1) - 1 = idxLsb := by omega
    have h := toBitVec_nicMask64 (f := indexField bits idxLsb hle hidx) (Nat.succ_pos bits)
      (Nat.lt_of_le_of_lt (Nat.succ_le_succ hbits) (by decide : 3 < 64))
    rwa [hmsb] at h
  have hb : b.toNat.toUInt64.toBitVec.getLsbD = fun k => decide (k = 0) && b := by
    funext k
    cases b with
    | false => simp
    | true =>
      cases k with
      | zero => rfl
      | succ k => simp
  have hv64 : v.toUInt64.toBitVec = BitVec.ofNat 64 v := rfl
  refine BitVec.eq_of_getLsbD_eq fun k hk => ?_
  rw [UInt64.toBitVec_or, UInt64.toBitVec_or, UInt64.toBitVec_and, UInt64.toBitVec_not, hmask,
    toBitVec_shiftLeft_of_lt _ hidx, toBitVec_shiftLeft_of_lt _ (by omega), BitVec.getLsbD_or,
    BitVec.getLsbD_or, BitVec.getLsbD_and, BitVec.getLsbD_not, BitRange.getLsbD_mask hk,
    BitVec.getLsbD_shiftLeft, BitVec.getLsbD_shiftLeft, hb, hv64, BitVec.getLsbD_ofNat,
    BitRange.getLsbD_set hk, BitVec.getLsbD_cons, BitVec.getLsbD_ofNat, decide_eq_true hk]
  have hhas : (indexField bits idxLsb hle hidx).Has k ↔ idxLsb - bits ≤ k ∧ k ≤ idxLsb := by
    change idxLsb - bits ≤ k ∧ k < idxLsb - bits + (bits + 1) ↔ _
    omega
  -- the value stays below the index
  have hhigh (h : idxLsb ≤ k) : v.testBit (k - (idxLsb - bits)) = false := by
    refine Nat.testBit_lt_two_pow (Nat.lt_of_lt_of_le hv (Nat.pow_le_pow_right (by decide) ?_))
    omega
  -- inside the field the two shifted values do not meet, outside it the address stays
  by_cases hin : (indexField bits idxLsb hle hidx).Has k
  · obtain ⟨hlow, htop⟩ := hhas.mp hin
    rw [if_pos hin, decide_eq_true hin, decide_eq_false (Nat.not_lt.mpr hlow)]
    obtain rfl | hlt := Nat.eq_or_lt_of_le htop
    · rw [hhigh le_rfl, if_pos (Nat.sub_sub_self hle)]
      simp
    · have hne : k - (idxLsb - bits) ≠ bits := by omega
      have hltb : k - (idxLsb - bits) < bits := by omega
      rw [if_neg hne, decide_eq_true hltb, decide_eq_true hlt,
        decide_eq_true (Nat.lt_of_le_of_lt (Nat.sub_le _ _) hk)]
      simp
  · rw [if_neg hin, decide_eq_false hin]
    by_cases hlow : k < idxLsb - bits
    · have hlt : k < idxLsb := by omega
      rw [decide_eq_true hlow, decide_eq_true hlt]
      simp
    · have hgt : idxLsb < k := by
        by_contra hle
        exact hin (hhas.mpr ⟨Nat.not_lt.mp hlow, Nat.not_lt.mp hle⟩)
      rw [hhigh hgt.le]
      simp [Nat.sub_ne_zero_of_lt hgt]

/-- **The loops over the indexes.** -/
theorem encodeIndexed_spec (hle : bits ≤ idxLsb) (hidx : idxLsb < 64) (hbits : bits ≤ 2)
    (h : encodeIndexed addr destIsland bits idxLsb isld1 isld0 = (0, addr')) :
    NamesIndex bits idxLsb hle hidx isld1 isld0 addr destIsland addr' := by
  unfold encodeIndexed at h
  dsimp only at h
  split at h
  next isld i v hfind =>
    -- the find goes through the low island first, with all values, and then the high one
    have hmem := List.mem_of_find?_eq_some hfind
    have hdest := List.find?_some hfind
    rw [decide_eq_true_eq] at hdest
    simp only [List.zipIdx_cons, List.zipIdx_nil, List.flatMap_cons, List.flatMap_nil,
      List.append_nil, List.mem_append, List.mem_map, List.mem_range, Prod.mk.injEq] at hmem
    have haddr := (Prod.mk.inj h).2
    obtain ⟨w, hw, rfl, rfl, rfl⟩ | ⟨w, hw, rfl, rfl, rfl⟩ := hmem
    · exact ⟨false, w, hw, hdest, haddr ▸ toBitVec_writeIndex _ (b := false) hle hidx hbits hw⟩
    · exact ⟨true, w, hw, hdest, haddr ▸ toBitVec_writeIndex _ (b := true) hle hidx hbits hw⟩
  next _ => exact absurd (Prod.mk.inj h).1 (by decide)

theorem nicMask64_self (k : ℕ) (hk : k < 64) :
    nicMask64 k k false = (1 : UInt64) <<< k.toUInt64 := by
  have hw : k - k + 1 = 1 := by omega
  rw [nicMask64, hw, if_neg (by decide), if_neg (Nat.not_lt.mpr hk)]
  rfl

/-- Mode 1 is the case of no bits below the index. -/
theorem encodeIndex_spec (hidx : idxLsb < 64)
    (h : encodeIndex addr destIsland idxLsb isld1 isld0 = (0, addr')) :
    NamesIndex 0 idxLsb (Nat.zero_le _) hidx isld1 isld0 addr destIsland addr' := by
  -- without bits below the index, nothing of an island is masked
  have hisland (isld : UInt32) : isld &&& ~~~lowMask 0 ||| (0 : ℕ).toUInt32 = isld := by
    simp [lowMask]
  have hwrite (b : Bool) := toBitVec_writeIndex addr (b := b) (v := 0)
    (Nat.zero_le idxLsb) hidx (Nat.zero_le 2) Nat.one_pos
  unfold encodeIndex at h
  split at h
  next hdest =>
    refine ⟨false, 0, Nat.one_pos, ?_, ?_⟩
    · exact hdest.trans (hisland isld0).symm
    · rw [← hwrite false, ← (Prod.mk.inj h).2]
      simp
  next _ =>
    split at h
    next hdest =>
      refine ⟨true, 0, Nat.one_pos, ?_, ?_⟩
      · exact hdest.trans (hisland isld1).symm
      · have hone : (true.toNat).toUInt64 = 1 := rfl
        rw [← hwrite true, ← (Prod.mk.inj h).2, Nat.sub_zero, nicMask64_self _ hidx, hone,
          and_not_or]
        simp
    next _ => exact absurd (Prod.mk.inj h).1 (by decide)

/-- An index that names an island is read as that island. -/
theorem decodeIndexed_of_names {hle : bits ≤ idxLsb} {hidx : idxLsb < 64} (hbits : bits ≤ 2)
    (h : NamesIndex bits idxLsb hle hidx isld1 isld0 addr destIsland addr') :
    decodeIndexed addr' bits idxLsb isld1 isld0 = destIsland := by
  obtain ⟨b, v, hv, rfl, hset⟩ := h
  exact decodeIndexed_of_set hbits hle hidx hv hset

/-- A whole id is read back, since an island below 64 has six bits. -/
theorem decodeIid_encodeIid (h : iidLsb + 6 ≤ 64) (hdest : destIsland.toNat < 64) :
    decodeIid (encodeIid addr destIsland iidLsb) iidLsb = destIsland := by
  rw [← UInt32.toBitVec_inj, toBitVec_decodeIid h, toBitVec_encodeIid h, BitRange.get_set]
  apply BitVec.eq_of_toNat_eq
  have h64 : destIsland.toNat % 2 ^ 6 = destIsland.toNat := Nat.mod_eq_of_lt hdest
  rw [BitVec.toNat_setWidth, BitVec.toNat_setWidth, UInt32.toNat_toBitVec, h64]
  exact Nat.mod_eq_of_lt destIsland.toNat_lt

/-! ### The locality of an address of the MU -/

/-- The two bits of the locality. -/
abbrev localityField (localityLsb : ℕ) (h : localityLsb + 2 ≤ 64) : BitRange 64 :=
  ⟨localityLsb, 2, h⟩

variable {localityLsb : ℕ}

/-- The test of the locality reads its field. -/
theorem isDirect_iff (h : localityLsb + 2 ≤ 64) : isDirect addr localityLsb = true ↔
    (localityField localityLsb h).get addr.toBitVec = 2#2 := by
  have hshift : (addr >>> localityLsb.toUInt64).toNat = addr.toNat >>> localityLsb := by
    rw [← UInt64.toNat_toBitVec, toBitVec_shiftRight_of_lt _ (by omega), BitVec.toNat_ushiftRight,
      UInt64.toNat_toBitVec]
  have hthree : (3 : UInt64).toNat = 2 ^ 2 - 1 := rfl
  rw [isDirect, beq_iff_eq, ← UInt64.toNat_inj, UInt64.toNat_and, hshift, hthree,
    Nat.and_two_pow_sub_one_eq_mod, ← BitVec.toNat_inj, BitRange.get, BitVec.extractLsb'_toNat,
    UInt64.toNat_toBitVec]
  rfl

/-- The locality is set to `direct` where its low bit is clear. -/
theorem isDirect_or (h : localityLsb + 2 ≤ 64)
    (hlow : addr.toBitVec.getLsbD localityLsb = false) :
    isDirect (addr ||| (nicNfp6000MuLocalityDirect <<< localityLsb.toUInt64)) localityLsb =
      true := by
  rw [isDirect_iff h]
  refine BitVec.eq_of_getLsbD_eq fun k hk => ?_
  have hlt : localityLsb < 64 := by omega
  rw [BitRange.getLsbD_get, UInt64.toBitVec_or, toBitVec_shiftLeft_of_lt _ hlt, BitVec.getLsbD_or,
    BitVec.getLsbD_shiftLeft]
  have htwo : nicNfp6000MuLocalityDirect.toBitVec = 2#64 := rfl
  rw [htwo]
  have hk' : k < 2 := hk
  obtain rfl | rfl : k = 0 ∨ k = 1 := by omega
  · rw [Nat.add_zero, hlow]
    simp
  · have hlt' : localityLsb + 1 < 64 := by omega
    simp [hlt']

/-- The bits of an island are not those of the locality. -/
theorem isDirect_of_set {f : BitRange 64} {v : BitVec f.width} (h : localityLsb + 2 ≤ 64)
    (hf : f.Disjoint (localityField localityLsb h))
    (hset : addr'.toBitVec = f.set addr.toBitVec v) :
    isDirect addr' localityLsb = isDirect addr localityLsb := by
  rw [Bool.eq_iff_iff, isDirect_iff h, isDirect_iff h, hset, BitRange.get_set_of_disjoint hf]

/-! ### Round trips

One case for each target and mode. The encoder and the decoder branch on the same values, so after
the split only the branch of that mode is left in both. -/

variable {cppTgt mode addr40 : UInt32}

theorem eq_snd_of_eq {r : ℤ × UInt64} (h : r = (0, addr')) : r.2 = addr' := congrArg Prod.snd h

theorem eq_three (hle : mode ≤ 3) (h0 : mode ≠ 0) (h1 : mode ≠ 1) (h2 : mode ≠ 2) : mode = 3 := by
  rw [ne_eq, ← UInt32.toNat_inj] at h0 h1 h2
  have hle' : mode.toNat ≤ 3 := UInt32.le_iff_toNat_le.mp hle
  have hc : (0 : UInt32).toNat = 0 ∧ (1 : UInt32).toNat = 1 ∧ (2 : UInt32).toNat = 2 := by decide
  refine UInt32.toNat_inj.mp (?_ : mode.toNat = 3)
  omega

/-- The one error of the decoder. -/
theorem decodeBasic_error {i : ℤ}
    (h : nfp6000DecodeBasic addr cppTgt mode addr40 isld1 isld0 = .error i) : i = -1 := by
  unfold nfp6000DecodeBasic at h
  dsimp only at h
  split at h
  next _ => exact (Except.error.inj h).symm
  next _ =>
    split at h
    next _ => cases h
    next _ =>
      split at h
      next _ => cases h
      next _ =>
        split at h
        next _ => cases h
        next _ =>
          split at h
          next _ => cases h
          next _ => exact (Except.error.inj h).symm

/-- The round trip of the targets other than the MU and the CTXPB. -/
theorem decodeBasic_encodeBasic (hdest : destIsland.toNat < 64)
    (h : nfp6000EncodeBasic addr destIsland cppTgt mode addr40 isld1 isld0 = (0, addr')) :
    nfp6000DecodeBasic addr' cppTgt mode addr40 isld1 isld0 = .ok destIsland := by
  have hidx : (if addr40 ≠ 0 then 39 else 31) < 64 := by split <;> decide
  have hle (bits : ℕ) (hbits : bits ≤ 2) : bits ≤ if addr40 ≠ 0 then 39 else 31 := by
    split <;> omega
  have hiid : (if addr40 ≠ 0 then 34 else 26) + 6 ≤ 64 := by split <;> decide
  unfold nfp6000EncodeBasic at h
  dsimp only at h
  split at h
  next _ => exact absurd (Prod.mk.inj h).1 (by decide)
  -- the MU and the CTXPB are not encoded here
  next htgt =>
    split at h
    next _ => exact absurd (Prod.mk.inj h).1 (by decide)
    next hmode =>
      split at h
      next hvqdr =>
        -- the address is as it was
        cases hdec : nfp6000DecodeBasic addr cppTgt mode addr40 isld1 isld0 with
        | error i =>
          rw [hdec] at h
          have hi : i = 0 := congrArg Prod.fst h
          exact absurd hi (by rw [decodeBasic_error hdec]; decide)
        | ok v =>
          rw [hdec] at h
          dsimp only at h
          split at h
          next _ => exact absurd (Prod.mk.inj h).1 (by decide)
          next hok =>
            obtain rfl := (Prod.mk.inj h).2
            -- an island below 64 is not the one that stands for any
            have hne : destIsland ≠ -1 := by
              rintro rfl
              exact absurd hdest (by decide)
            rw [hdec, not_not.mp fun hv => hok ⟨hne, hv⟩]
      next hvqdr =>
        unfold nfp6000DecodeBasic
        dsimp only
        rw [if_neg htgt]
        split at h
        -- mode 0 has whole ids, modes 1 to 3 an index with 0 to 2 bits
        next h0 =>
          rw [if_pos h0, ← eq_snd_of_eq h, decodeIid_encodeIid hiid hdest]
        next h0 =>
          rw [if_neg h0]
          split at h
          next h1 =>
            rw [if_pos h1, decodeIndexed_of_names (by decide) (encodeIndex_spec hidx h)]
          next h1 =>
            rw [if_neg h1]
            split at h
            next h2 =>
              rw [if_pos h2, decodeIndexed_of_names (by decide)
                (encodeIndexed_spec (hle 1 (by decide)) hidx (by decide) h)]
            next h2 =>
              have h3 : mode = 3 := eq_three (UInt32.not_lt.mp hmode) h0 h1 h2
              rw [if_neg h2, if_pos h3, decodeIndexed_of_names (by decide)
                (encodeIndexed_spec (hle 2 (by decide)) hidx (by decide) h)]

/-- The islands of the EMU. -/
theorem not_emu (h : 24 ≤ destIsland.toNat ∧ destIsland.toNat ≤ 26) :
    ¬(destIsland.toInt32 < 24 ∨ destIsland.toInt32 > 26) := by
  have hofNat : destIsland = UInt32.ofNat destIsland.toNat := UInt32.ofNat_toNat.symm
  obtain h' | h' | h' : destIsland.toNat = 24 ∨ destIsland.toNat = 25 ∨ destIsland.toNat = 26 := by
    omega
  all_goals
    rw [hofNat, h']
    decide

/-- What has to be known of an address of the MU in mode 3, where only the high bit of the
locality is set: its low bit is clear, or the island is one that is not written so. -/
def LocalityOk (addr : UInt64) (mode addr40 destIsland : UInt32) : Prop :=
  mode = 3 → addr.toBitVec.getLsbD (if addr40 ≠ 0 then 38 else 30) = false ∨ destIsland = 0 ∨
    24 ≤ destIsland.toNat ∧ destIsland.toNat ≤ 26

/-- The round trip of the MU. -/
theorem decodeMu_encodeMu (hdest : destIsland.toNat < 64)
    (hlocal : LocalityOk addr mode addr40 destIsland)
    (h : nfp6000EncodeMu addr destIsland mode addr40 isld1 isld0 = (0, addr')) :
    nfp6000DecodeMu addr' mode addr40 isld1 isld0 = .ok destIsland := by
  have hidx : (if addr40 ≠ 0 then 37 else 29) < 64 := by split <;> decide
  have hle (bits : ℕ) (hbits : bits ≤ 2) : bits ≤ if addr40 ≠ 0 then 37 else 29 := by
    split <;> omega
  have hiid : (if addr40 ≠ 0 then 32 else 24) + 6 ≤ 64 := by split <;> decide
  have hloc : (if addr40 ≠ 0 then 38 else 30) + 2 ≤ 64 := by split <;> decide
  -- neither form reaches into the locality
  have hiidLoc : (iidField _ hiid).Disjoint (localityField _ hloc) := by
    by_cases h40 : addr40 ≠ 0 <;> simp [h40, BitRange.Disjoint]
  have hidxLoc (bits : ℕ) (hbits : bits ≤ 2) :
      (indexField bits _ (hle bits hbits) hidx).Disjoint (localityField _ hloc) := by
    by_cases h40 : addr40 ≠ 0 <;> simp [h40, BitRange.Disjoint] <;> omega
  unfold nfp6000EncodeMu nfp6000CppatMuLocalityLsb at h
  unfold nfp6000DecodeMu nfp6000CppatMuLocalityLsb
  by_cases hmode : mode ≤ 3
  · rw [if_pos hmode] at h ⊢
    dsimp only at h ⊢
    by_cases h0 : mode = 0
    · rw [if_pos h0] at h ⊢
      rw [← eq_snd_of_eq h, decodeIid_encodeIid hiid hdest]
    · rw [if_neg h0] at h ⊢
      by_cases hset : mode = 3 ∧ destIsland.toInt32 > 0 ∧
          (destIsland.toInt32 < 24 ∨ destIsland.toInt32 > 26)
      · have hlow : addr.toBitVec.getLsbD (if addr40 ≠ 0 then 38 else 30) = false := by
          obtain ⟨h3, hpos, hemu⟩ := hset
          obtain hbit | rfl | hmem := hlocal h3
          · exact hbit
          · exact absurd hpos (by decide)
          · exact absurd hemu (not_emu hmem)
        rw [if_pos hset] at h
        rw [← eq_snd_of_eq h, isDirect_of_set hloc hiidLoc (toBitVec_encodeIid hiid),
          isDirect_or hloc hlow, if_pos rfl, decodeIid_encodeIid hiid hdest]
      · rw [if_neg hset] at h
        -- an address that is direct already has its whole id written
        by_cases hdirect : isDirect addr (if addr40 ≠ 0 then 38 else 30) = true
        · rw [if_pos hdirect] at h
          rw [← eq_snd_of_eq h, isDirect_of_set hloc hiidLoc (toBitVec_encodeIid hiid),
            if_pos hdirect, decodeIid_encodeIid hiid hdest]
        · rw [if_neg hdirect] at h
          -- the island is named by an index
          have hindex {bits : ℕ} (hbits : bits ≤ 2)
              (hnames : NamesIndex bits _ (hle bits hbits) hidx isld1 isld0 addr destIsland
                addr') : isDirect addr' (if addr40 ≠ 0 then 38 else 30) = false ∧
                decodeIndexed addr' bits (if addr40 ≠ 0 then 37 else 29) isld1 isld0 =
                  destIsland := by
            have hread := decodeIndexed_of_names hbits hnames
            obtain ⟨b, v, hv, -, hset⟩ := hnames
            refine ⟨?_, hread⟩
            rw [isDirect_of_set hloc (hidxLoc bits hbits) hset]
            exact Bool.eq_false_iff.mpr hdirect
          by_cases h1 : mode = 1
          · rw [if_pos h1] at h ⊢
            obtain ⟨hno, hread⟩ := hindex (by decide) (encodeIndex_spec hidx h)
            rw [hno, hread, if_neg Bool.false_ne_true]
          · rw [if_neg h1] at h ⊢
            by_cases h2 : mode = 2
            · rw [if_pos h2] at h ⊢
              obtain ⟨hno, hread⟩ :=
                hindex (by decide) (encodeIndexed_spec (hle 1 (by decide)) hidx (by decide) h)
              rw [hno, hread, if_neg Bool.false_ne_true]
            · rw [if_neg h2] at h ⊢
              obtain ⟨hno, hread⟩ :=
                hindex (by decide) (encodeIndexed_spec (hle 2 (by decide)) hidx (by decide) h)
              rw [hno, hread, if_neg Bool.false_ne_true]
  · rw [if_neg hmode] at h
    exact absurd (Prod.mk.inj h).1 (by decide)

/-- **An island that has been written is read back.** -/
theorem decode_of_encode (hdest : destIsland.toNat < 64)
    (hlocal : cppTgt = cppTgtMu → LocalityOk addr mode addr40 destIsland)
    (h : nfp6000CppatAddrEncode addr destIsland cppTgt mode addr40 isld1 isld0 = (0, addr')) :
    nfp6000CppatAddrDecode addr' cppTgt mode addr40 isld1 isld0 = .ok destIsland := by
  unfold nfp6000CppatAddrEncode at h
  unfold nfp6000CppatAddrDecode
  by_cases hbasic : isBasicTgt cppTgt = true
  · rw [if_pos hbasic] at h ⊢
    exact decodeBasic_encodeBasic hdest h
  · rw [if_neg hbasic] at h ⊢
    by_cases hmu : cppTgt = cppTgtMu
    · rw [if_pos hmu] at h ⊢
      exact decodeMu_encodeMu hdest (hlocal hmu) h
    · rw [if_neg hmu] at h ⊢
      -- the CTXPB has whole ids in mode 1 and short addresses, and nothing else
      by_cases hctxpb : cppTgt = cppTgtCtxpb
      · rw [if_pos hctxpb] at h ⊢
        by_cases hmode : mode ≠ 1 ∨ addr40 ≠ 0
        · rw [if_pos hmode] at h
          exact absurd (Prod.mk.inj h).1 (by decide)
        · rw [if_neg hmode] at h ⊢
          rw [← eq_snd_of_eq h, decodeIid_encodeIid (by decide) hdest]
      · rw [if_neg hctxpb] at h
        exact absurd (Prod.mk.inj h).1 (by decide)

/-! ### The offset in an island

The same cases once more, for the bits that are not in the field. -/

/-- The lowest bit of a whole id at `iidLsb`, or of an index and what is below it. -/
def nameLsb (mode : UInt32) (iidLsb idxLsb : ℕ) : ℕ :=
  if mode = 0 then iidLsb else idxLsb - (mode.toNat - 1)

/-- The lowest bit that names the island of an address. An address of the MU names it by the whole
id also when its locality is `direct`, and may be made to in mode 3. -/
def islandLsb (cppTgt mode addr40 : UInt32) (addr : UInt64) : ℕ :=
  if isBasicTgt cppTgt then
    nameLsb mode (if addr40 ≠ 0 then 34 else 26) (if addr40 ≠ 0 then 39 else 31)
  else if cppTgt = cppTgtMu ∧ mode ≠ 3 ∧ ¬isDirect addr (if addr40 ≠ 0 then 38 else 30) then
    nameLsb mode (if addr40 ≠ 0 then 32 else 24) (if addr40 ≠ 0 then 37 else 29)
  else if addr40 ≠ 0 then 32 else 24

/-- The addresses have the same bits below `l`. -/
def SameBelow (l : ℕ) (addr addr' : UInt64) : Prop :=
  ∀ k < l, addr'.toBitVec.getLsbD k = addr.toBitVec.getLsbD k

variable {l : ℕ}

/-- Setting a field keeps what is below it. -/
theorem SameBelow.of_set {f : BitRange 64} {v : BitVec f.width} (hf : l ≤ f.lsb)
    (hset : addr'.toBitVec = f.set addr.toBitVec v) : SameBelow l addr addr' := by
  intro k hk
  have hlt : k < 64 := by
    have hfits := f.fits
    omega
  have hhas : ¬f.Has k := fun h => absurd h.1 (by omega)
  rw [hset, BitRange.getLsbD_set hlt, if_neg hhas]

theorem SameBelow.trans {addr'' : UInt64} (h : SameBelow l addr addr')
    (h' : SameBelow l addr' addr'') : SameBelow l addr addr'' :=
  fun k hk => (h' k hk).trans (h k hk)

/-- So the writers of either form keep what is below their field. -/
theorem SameBelow.of_iid (hiid : iidLsb + 6 ≤ 64) (hl : l ≤ iidLsb)
    (h : (0, encodeIid addr destIsland iidLsb) = ((0 : ℤ), addr')) : SameBelow l addr addr' := by
  obtain rfl : encodeIid addr destIsland iidLsb = addr' := eq_snd_of_eq h
  exact .of_set (f := iidField iidLsb hiid) hl (toBitVec_encodeIid hiid)

theorem SameBelow.of_names {hle : bits ≤ idxLsb} {hidx : idxLsb < 64} (hl : l + bits ≤ idxLsb)
    (h : NamesIndex bits idxLsb hle hidx isld1 isld0 addr destIsland addr') :
    SameBelow l addr addr' := by
  obtain ⟨b, v, -, -, hset⟩ := h
  exact .of_set (f := indexField bits idxLsb hle hidx) (Nat.le_sub_of_add_le hl) hset

theorem SameBelow.of_index (hidx : idxLsb < 64) (hl : l ≤ idxLsb)
    (h : encodeIndex addr destIsland idxLsb isld1 isld0 = (0, addr')) : SameBelow l addr addr' :=
  .of_names hl (encodeIndex_spec hidx h)

theorem SameBelow.of_indexed (hbits : bits ≤ 2) (hidx : idxLsb < 64) (hl : l + bits ≤ idxLsb)
    (h : encodeIndexed addr destIsland bits idxLsb isld1 isld0 = (0, addr')) :
    SameBelow l addr addr' :=
  .of_names hl (encodeIndexed_spec (Nat.le_of_add_left_le hl) hidx hbits h)

/-- The locality is a field of its own. -/
theorem SameBelow.direct {localityLsb : ℕ} (hl : l ≤ localityLsb) (hlt : localityLsb < 64) :
    SameBelow l addr (addr ||| (nicNfp6000MuLocalityDirect <<< localityLsb.toUInt64)) := by
  intro k hk
  rw [UInt64.toBitVec_or, toBitVec_shiftLeft_of_lt _ hlt, BitVec.getLsbD_or,
    BitVec.getLsbD_shiftLeft, decide_eq_true (Nat.lt_of_lt_of_le hk hl)]
  simp

/-- Case by case as in `decodeBasic_encodeBasic`. -/
theorem encodeBasic_below
    (h : nfp6000EncodeBasic addr destIsland cppTgt mode addr40 isld1 isld0 = (0, addr')) :
    SameBelow (nameLsb mode (if addr40 ≠ 0 then 34 else 26) (if addr40 ≠ 0 then 39 else 31)) addr
      addr' := by
  unfold nfp6000EncodeBasic at h
  dsimp only at h
  by_cases htgt : cppTgt = cppTgtMu ∨ cppTgt = cppTgtCtxpb
  · rw [if_pos htgt] at h
    exact absurd (Prod.mk.inj h).1 (by decide)
  · rw [if_neg htgt] at h
    by_cases hmode : mode > 3
    · rw [if_pos hmode] at h
      exact absurd (Prod.mk.inj h).1 (by decide)
    · rw [if_neg hmode] at h
      by_cases hvqdr : cppTgt = cppTgtVqdr ∧ addr40 = 0
      · -- the address names the island already
        rw [if_pos hvqdr] at h
        have hsame : addr' = addr := by
          split at h
          next _ => exact (eq_snd_of_eq h).symm
          next _ => split at h <;> exact (eq_snd_of_eq h).symm
        exact hsame ▸ fun _ _ => rfl
      · rw [if_neg hvqdr] at h
        by_cases h40 : addr40 = 0
        -- one case for each mode, with the fields of either width
        all_goals
          simp only [h40, ne_eq, not_true_eq_false, not_false_eq_true, if_true, if_false] at h ⊢
          split at h
          next h0 => exact .of_iid (by decide) (by subst h0; decide) h
          next h0 =>
            split at h
            next h1 => exact .of_index (by decide) (by subst h1; decide) h
            next h1 =>
              split at h
              next h2 => exact .of_indexed (by decide) (by decide) (by subst h2; decide) h
              next h2 =>
                obtain rfl := eq_three (UInt32.not_lt.mp hmode) h0 h1 h2
                exact .of_indexed (by decide) (by decide) (by decide) h

/-- The bits below the whole id are kept in any case. -/
theorem encodeMu_below_iid
    (h : nfp6000EncodeMu addr destIsland mode addr40 isld1 isld0 = (0, addr')) :
    SameBelow (if addr40 ≠ 0 then 32 else 24) addr addr' := by
  unfold nfp6000EncodeMu nfp6000CppatMuLocalityLsb at h
  by_cases hmode : mode ≤ 3
  · rw [if_pos hmode] at h
    by_cases h40 : addr40 = 0
    all_goals
      simp only [h40, ne_eq, not_true_eq_false, not_false_eq_true, if_true, if_false] at h ⊢
      split at h
      next _ => exact .of_iid (by decide) (by decide) h
      next _ =>
        split at h
        next _ =>
          -- the locality is above the id as well
          exact .trans (.direct (by decide) (by decide)) (.of_iid (by decide) (by decide) h)
        next _ =>
          split at h
          next _ => exact .of_iid (by decide) (by decide) h
          next _ =>
            split at h
            next _ => exact .of_index (by decide) (by decide) h
            next _ =>
              split at h
              next _ => exact .of_indexed (by decide) (by decide) (by decide) h
              next _ => exact .of_indexed (by decide) (by decide) (by decide) h
  · rw [if_neg hmode] at h
    exact absurd (Prod.mk.inj h).1 (by decide)

/-- Those below the index are kept where the island is named by one. -/
theorem encodeMu_below_index
    (h : nfp6000EncodeMu addr destIsland mode addr40 isld1 isld0 = (0, addr')) (h3 : mode ≠ 3)
    (hdirect : ¬isDirect addr (if addr40 ≠ 0 then 38 else 30)) :
    SameBelow (nameLsb mode (if addr40 ≠ 0 then 32 else 24) (if addr40 ≠ 0 then 37 else 29)) addr
      addr' := by
  unfold nfp6000EncodeMu nfp6000CppatMuLocalityLsb at h
  by_cases hmode : mode ≤ 3
  · rw [if_pos hmode] at h
    dsimp only at h
    by_cases h40 : addr40 = 0
    all_goals
      simp only [h40, ne_eq, not_true_eq_false, not_false_eq_true, if_true, if_false]
        at h hdirect ⊢
      split at h
      next h0 => exact .of_iid (by decide) (by subst h0; decide) h
      next h0 =>
        rw [if_neg fun hset => h3 hset.1] at h
        split at h
        next h1 => exact .of_index (by decide) (by subst h1; decide) h
        next h1 =>
          split at h
          next h2 => exact .of_indexed (by decide) (by decide) (by subst h2; decide) h
          next h2 => exact absurd (eq_three hmode h0 h1 h2) h3
  · rw [if_neg hmode] at h
    exact absurd (Prod.mk.inj h).1 (by decide)

/-- **An island is written above the offset.** -/
theorem encode_below
    (h : nfp6000CppatAddrEncode addr destIsland cppTgt mode addr40 isld1 isld0 = (0, addr')) :
    SameBelow (islandLsb cppTgt mode addr40 addr) addr addr' := by
  unfold nfp6000CppatAddrEncode at h
  unfold islandLsb
  by_cases hbasic : isBasicTgt cppTgt = true
  · rw [if_pos hbasic] at h ⊢
    exact encodeBasic_below h
  · rw [if_neg hbasic] at h ⊢
    by_cases hmu : cppTgt = cppTgtMu
    · rw [if_pos hmu] at h
      by_cases hname : cppTgt = cppTgtMu ∧ mode ≠ 3 ∧
          ¬isDirect addr (if addr40 ≠ 0 then 38 else 30)
      · rw [if_pos hname]
        exact encodeMu_below_index h hname.2.1 hname.2.2
      · rw [if_neg hname]
        exact encodeMu_below_iid h
    · rw [if_neg hmu] at h
      rw [if_neg fun hname => hmu hname.1]
      by_cases hctxpb : cppTgt = cppTgtCtxpb
      · rw [if_pos hctxpb] at h
        by_cases hmode : mode ≠ 1 ∨ addr40 ≠ 0
        · rw [if_pos hmode] at h
          exact absurd (Prod.mk.inj h).1 (by decide)
        · rw [if_neg hmode] at h
          rw [if_neg fun h40 => hmode (.inr h40)]
          exact .of_iid (by decide) le_rfl h
      · rw [if_neg hctxpb] at h
        exact absurd (Prod.mk.inj h).1 (by decide)

end Fields

/-! ### Translating an id with an island -/

section Target

variable {imbTable : UInt32 → UInt32} {cppId cppId' : UInt32} {address address' : UInt64}

/-- The address format of a target, as its IMB entry gives it. -/
def imbDecode (imbTable : UInt32 → UInt32) (target : UInt32) (address : UInt64) :
    Except ℤ UInt32 :=
  let imb := imbTable target
  nfp6000CppatAddrDecode address target ((imb >>> 13) &&& 7) ((imb >>> 12) &&& 1)
    ((imb >>> 6) &&& 0x3f) ((imb >>> 0) &&& 0x3f)

/-- A translation that succeeds. -/
theorem nfpTargetCpp_cases {encode : AddrEncode}
    (h : nfpTargetCpp encode imbTable cppId address = (0, cppId', address')) :
    cppIdTargetOf cppId < 16 ∧
      ((cppIdIslandOf cppId = 0 ∧ cppId' = cppId ∧ address' = address) ∨
        (cppIdIslandOf cppId ≠ 0 ∧
          encode address (cppIdIslandOf cppId) (cppIdTargetOf cppId)
            ((imbTable (cppIdTargetOf cppId) >>> 13) &&& 7)
            ((imbTable (cppIdTargetOf cppId) >>> 12) &&& 1)
            ((imbTable (cppIdTargetOf cppId) >>> 6) &&& 0x3f)
            ((imbTable (cppIdTargetOf cppId) >>> 0) &&& 0x3f) = (0, address') ∧
          cppId' = nfpCppId (cppIdTargetOf cppId) (cppIdActionOf cppId) (cppIdTokenOf cppId))) := by
  unfold nfpTargetCpp at h
  dsimp only at h
  by_cases htarget : cppIdTargetOf cppId ≥ 16
  · rw [if_pos htarget] at h
    exact absurd (Prod.mk.inj h).1 (by decide)
  · refine ⟨UInt32.not_le.mp htarget, ?_⟩
    rw [if_neg htarget] at h
    -- without an island nothing is translated
    by_cases hisland : cppIdIslandOf cppId = 0
    · rw [if_pos hisland] at h
      obtain ⟨-, hrest⟩ := Prod.mk.inj h
      exact .inl ⟨hisland, (Prod.mk.inj hrest).1.symm, (Prod.mk.inj hrest).2.symm⟩
    · rw [if_neg hisland] at h
      generalize hr : encode address (cppIdIslandOf cppId) (cppIdTargetOf cppId)
        ((imbTable (cppIdTargetOf cppId) >>> 13) &&& 7)
        ((imbTable (cppIdTargetOf cppId) >>> 12) &&& 1)
        ((imbTable (cppIdTargetOf cppId) >>> 6) &&& 0x3f)
        ((imbTable (cppIdTargetOf cppId) >>> 0) &&& 0x3f) = r at h
      obtain ⟨err, addr⟩ := r
      dsimp only at h
      split at h
      -- the encoder's value is returned with the id that has lost its island
      next herr =>
        obtain ⟨-, hrest⟩ := Prod.mk.inj h
        obtain ⟨rfl, rfl⟩ := Prod.mk.inj hrest
        exact .inr ⟨hisland, by rw [herr], rfl⟩
      next herr => exact absurd (Prod.mk.inj h).1 herr

/-- A CPP id as a number. -/
theorem toNat_nfpCppId (target action token : UInt32) :
    (nfpCppId target action token).toNat = target.toNat % 2 ^ 7 * 2 ^ 24 +
      token.toNat % 2 ^ 8 * 2 ^ 16 + action.toNat % 2 ^ 8 * 2 ^ 8 := by
  have h7 : (0x7f : UInt32).toNat = 2 ^ 7 - 1 := rfl
  have h8 : (0xff : UInt32).toNat = 2 ^ 8 - 1 := rfl
  have hn : (24 : UInt32).toNat % 32 = 24 ∧ (16 : UInt32).toNat % 32 = 16 ∧
      (8 : UInt32).toNat % 32 = 8 := by decide
  have ht : target.toNat % 2 ^ 7 < 2 ^ 7 := Nat.mod_lt _ (by decide)
  have hk : token.toNat % 2 ^ 8 < 2 ^ 8 := Nat.mod_lt _ (by decide)
  have ha : action.toNat % 2 ^ 8 < 2 ^ 8 := Nat.mod_lt _ (by decide)
  rw [nfpCppId, UInt32.toNat_or, UInt32.toNat_or, UInt32.toNat_shiftLeft, UInt32.toNat_shiftLeft,
    UInt32.toNat_shiftLeft, UInt32.toNat_and, UInt32.toNat_and, UInt32.toNat_and, h7, h8,
    Nat.and_two_pow_sub_one_eq_mod, Nat.and_two_pow_sub_one_eq_mod,
    Nat.and_two_pow_sub_one_eq_mod, hn.1, hn.2.1, hn.2.2]
  -- the three parts do not overlap, so their disjunction is a sum
  generalize target.toNat % 2 ^ 7 = t at *
  generalize token.toNat % 2 ^ 8 = k at *
  generalize action.toNat % 2 ^ 8 = a at *
  have hk' : k <<< 16 < 2 ^ 24 := by
    rw [Nat.shiftLeft_eq]
    omega
  have ha' : a <<< 8 < 2 ^ 16 := by
    rw [Nat.shiftLeft_eq]
    omega
  have ht' : t <<< 24 < 2 ^ 32 := by
    rw [Nat.shiftLeft_eq]
    omega
  rw [Nat.mod_eq_of_lt ht', Nat.mod_eq_of_lt (by omega), Nat.mod_eq_of_lt (by omega), Nat.or_assoc,
    ← Nat.shiftLeft_add_eq_or_of_lt ha', ← Nat.shiftLeft_add_eq_or_of_lt (by omega),
    Nat.shiftLeft_eq, Nat.shiftLeft_eq, Nat.shiftLeft_eq]
  omega

/-- An id made of target, action and token has no island. -/
theorem cppIdIslandOf_nfpCppId (target action token : UInt32) :
    cppIdIslandOf (nfpCppId target action token) = 0 := by
  have h8 : (0xff : UInt32).toNat = 2 ^ 8 - 1 := rfl
  rw [← UInt32.toNat_inj, cppIdIslandOf, UInt32.toNat_and, h8, Nat.and_two_pow_sub_one_eq_mod,
    toNat_nfpCppId]
  change _ = 0
  omega

theorem toNat_cppIdTargetOf (id : UInt32) :
    (cppIdTargetOf id).toNat = id.toNat / 2 ^ 24 % 2 ^ 5 := by
  have h5 : (0x1f : UInt32).toNat = 2 ^ 5 - 1 := rfl
  rw [cppIdTargetOf, UInt32.toNat_and, h5, Nat.and_two_pow_sub_one_eq_mod, UInt32.toNat_shiftRight,
    Nat.shiftRight_eq_div_pow]
  rfl

/-- A target of the IMB table fits into its field. -/
theorem cppIdTargetOf_nfpCppId {target : UInt32} (h : target < 16) (action token : UInt32) :
    cppIdTargetOf (nfpCppId target action token) = target := by
  have hlt : target.toNat < 16 := UInt32.lt_iff_toNat_lt.mp h
  rw [← UInt32.toNat_inj, toNat_cppIdTargetOf, toNat_nfpCppId]
  omega

/-- **The island of an id is read back from the address** that the id has been translated to. -/
theorem nfpTargetCpp_decode
    (h : nfpTargetCpp nfp6000CppatAddrEncode imbTable cppId address = (0, cppId', address'))
    (hisland : cppIdIslandOf cppId ≠ 0) (hlt : (cppIdIslandOf cppId).toNat < 64)
    (hlocal : cppIdTargetOf cppId = cppTgtMu → LocalityOk address
      ((imbTable (cppIdTargetOf cppId) >>> 13) &&& 7)
      ((imbTable (cppIdTargetOf cppId) >>> 12) &&& 1) (cppIdIslandOf cppId)) :
    imbDecode imbTable (cppIdTargetOf cppId') address' = .ok (cppIdIslandOf cppId) := by
  obtain ⟨htarget, ⟨hzero, -⟩ | ⟨-, hencode, rfl⟩⟩ := nfpTargetCpp_cases h
  · exact absurd hzero hisland
  · rw [cppIdTargetOf_nfpCppId htarget]
    exact decode_of_encode hlt hlocal hencode

/-- **A translated address is not translated again**, and has the offset of the one that it has
been translated from. -/
theorem nfpTargetCpp_idem
    (h : nfpTargetCpp nfp6000CppatAddrEncode imbTable cppId address = (0, cppId', address')) :
    nfpTargetCpp nfp6000CppatAddrEncode imbTable cppId' address' = (0, cppId', address') ∧
      SameBelow (islandLsb (cppIdTargetOf cppId)
        ((imbTable (cppIdTargetOf cppId) >>> 13) &&& 7)
        ((imbTable (cppIdTargetOf cppId) >>> 12) &&& 1) address) address address' := by
  obtain ⟨htarget, ⟨hzero, rfl, rfl⟩ | ⟨-, hencode, rfl⟩⟩ := nfpTargetCpp_cases h
  · exact ⟨h, fun _ _ => rfl⟩
  · refine ⟨?_, encode_below hencode⟩
    unfold nfpTargetCpp
    dsimp only
    rw [cppIdTargetOf_nfpCppId htarget, if_neg (UInt32.not_le.mpr htarget),
      if_pos (cppIdIslandOf_nfpCppId _ _ _)]

/-- An address of the external memory 0, whose target has whole ids at bit 32. -/
theorem nfpTargetCpp_emem : nfpTargetCpp nfp6000CppatAddrEncode (fun _ => 0x1000)
    (nfpCppId 7 32 0 ||| 24) 0x2000 = (0, nfpCppId 7 32 0, 0x1800002000) := by
  decide

/-- The island 24 is in bits 32 to 37. -/
theorem nfpTargetCpp_decode_emem :
    imbDecode (fun _ => 0x1000) (cppIdTargetOf (nfpCppId 7 32 0)) 0x1800002000 = .ok 24 :=
  nfpTargetCpp_decode nfpTargetCpp_emem (by decide) (by decide) fun _ h3 => absurd h3 (by decide)

/-- The other bits are those of the offset. -/
theorem nfpTargetCpp_idem_emem :
    nfpTargetCpp nfp6000CppatAddrEncode (fun _ => 0x1000) (nfpCppId 7 32 0) 0x1800002000 =
      (0, nfpCppId 7 32 0, 0x1800002000) ∧ SameBelow 32 0x2000 0x1800002000 :=
  nfpTargetCpp_idem nfpTargetCpp_emem

end Target

end NfpUdpEcho
