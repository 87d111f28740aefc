import Mathlib.Data.UInt
import NfpUdpEcho.Framework.Crc
import NfpUdpEcho.Framework.LittleEndian

/-!
# The keys of names

`user/nfpcore/nfp_crc.c`: the POSIX check of 32 bits, which gives a resource its key. The
length of the buffer is taken in behind the buffer, lowest byte first and without high zeros.

The register of the code is that of `Crc`, so that the key is the inverted remainder of the
buffer with its length (`toPoly_nfpCrc32Posix`), and two names that differ within four successive
bytes have different keys (`nfpCrc32Posix_ne`).
-/

namespace NfpUdpEcho

open Polynomial LittleEndian

/-- `CRCPOLY_BE`. -/
def crcpolyBe : UInt32 := 0x04c11db7

/-- The loop over the bits of `nfp_crc32_be_generic`. -/
def crc32Bits (polynomial : UInt32) : ℕ → UInt32 → UInt32
  | 0, crc => crc
  | i + 1, crc =>
    crc32Bits polynomial i ((crc <<< 1) ^^^ (if crc &&& 0x80000000 ≠ 0 then polynomial else 0))

/-- `nfp_crc32_be_generic`. -/
def nfpCrc32BeGeneric (crc : UInt32) (p : List UInt8) (polynomial : UInt32) : UInt32 :=
  p.foldl (fun crc b => crc32Bits polynomial 8 (crc ^^^ b.toUInt32 <<< (24 : UInt32))) crc

/-- `nfp_crc32_be`. -/
def nfpCrc32Be (crc : UInt32) (p : List UInt8) : UInt32 := nfpCrc32BeGeneric crc p crcpolyBe

/-- `nfp_crc32_posix_end`. -/
def nfpCrc32PosixEnd (crc : UInt32) (totalLen : ℕ) : UInt32 :=
  if totalLen ≠ 0 then
    nfpCrc32PosixEnd (nfpCrc32Be crc [(totalLen % 256).toUInt8]) (totalLen / 256)
  else ~~~crc
termination_by totalLen
decreasing_by omega

/-- `nfp_crc32_posix`. -/
def nfpCrc32Posix (buff : List UInt8) : UInt32 :=
  nfpCrc32PosixEnd (nfpCrc32Be 0 buff) buff.length

/-! ### The register -/

theorem msb_toBitVec (crc : UInt32) : crc &&& 0x80000000 ≠ 0 ↔ crc.toBitVec.msb = true := by
  have htop : (0x80000000 : UInt32).toBitVec = BitVec.twoPow 32 31 := rfl
  rw [ne_eq, ← UInt32.toBitVec_inj, UInt32.toBitVec_and, htop, BitVec.and_twoPow,
    BitVec.msb_eq_getLsbD_last]
  cases crc.toBitVec.getLsbD (32 - 1) <;> decide

theorem toBitVec_crc32Bits (polynomial : UInt32) (n : ℕ) (crc : UInt32) :
    (crc32Bits polynomial n crc).toBitVec = (Crc.shift polynomial.toBitVec)^[n] crc.toBitVec := by
  induction n generalizing crc with
  | zero => rfl
  | succ n ih =>
    rw [crc32Bits, ih, Function.iterate_succ, Function.comp, Crc.shift, UInt32.toBitVec_xor]
    have hmsb := msb_toBitVec crc
    cases hb : crc.toBitVec.msb with
    | true => rw [if_pos (hmsb.mpr hb), if_pos rfl]; rfl
    | false =>
      rw [if_neg fun h => Bool.false_ne_true (hb.symm.trans (hmsb.mp h)), if_neg Bool.false_ne_true]
      rfl

/-- The bytes of a buffer. -/
def bitBytes (p : List UInt8) : List (BitVec 8) := p.map UInt8.toBitVec

theorem toBitVec_nfpCrc32Be (crc : UInt32) (p : List UInt8) :
    (nfpCrc32Be crc p).toBitVec = Crc.run crcpolyBe.toBitVec crc.toBitVec (bitBytes p) := by
  induction p generalizing crc with
  | nil => rfl
  | cons b p ih =>
    have hbyte : (crc32Bits crcpolyBe 8 (crc ^^^ b.toUInt32 <<< (24 : UInt32))).toBitVec =
        Crc.update crcpolyBe.toBitVec crc.toBitVec b.toBitVec := by
      rw [toBitVec_crc32Bits]
      rfl
    exact (ih _).trans (congrArg (fun x => Crc.run _ x (bitBytes p)) hbyte)

/-- The length of a buffer as `nfp_crc32_posix_end` takes it in. -/
def lengthBytes (totalLen : ℕ) : List UInt8 :=
  if totalLen ≠ 0 then (totalLen % 256).toUInt8 :: lengthBytes (totalLen / 256) else []
termination_by totalLen
decreasing_by omega

theorem nfpCrc32PosixEnd_eq (crc : UInt32) (totalLen : ℕ) :
    nfpCrc32PosixEnd crc totalLen = ~~~nfpCrc32Be crc (lengthBytes totalLen) := by
  induction totalLen using Nat.strongRecOn generalizing crc with
  | ind n ih =>
    rw [nfpCrc32PosixEnd, lengthBytes]
    split
    next hn => rw [ih (n / 256) (by omega)]; rfl
    next _ => rfl

theorem nfpCrc32Posix_eq (buff : List UInt8) :
    nfpCrc32Posix buff = ~~~nfpCrc32Be 0 (buff ++ lengthBytes buff.length) := by
  rw [nfpCrc32Posix, nfpCrc32PosixEnd_eq, nfpCrc32Be, nfpCrc32Be, nfpCrc32Be, nfpCrc32BeGeneric,
    nfpCrc32BeGeneric, nfpCrc32BeGeneric, List.foldl_append]

/-! ### The polynomial -/

/-- The generator, as the header writes it. -/
theorem generator_crcpolyBe : Crc.generator crcpolyBe.toBitVec =
    X ^ 32 + X ^ 26 + X ^ 23 + X ^ 22 + X ^ 16 + X ^ 12 + X ^ 11 + X ^ 10 + X ^ 8 + X ^ 7 +
      X ^ 5 + X ^ 4 + X ^ 2 + X + 1 := by
  have hbits : crcpolyBe.toBitVec = 0x04c11db7#32 := rfl
  rw [Crc.generator, Crc.toPoly, hbits]
  simp only [Finset.sum_range_succ, Finset.sum_range_zero, BitVec.getLsbD_ofNat, Nat.testBit]
  simp
  ring

/-- **The key is the inverted remainder** of the buffer with its length. -/
theorem toPoly_nfpCrc32Posix (buff : List UInt8) :
    Crc.toPoly (~~~nfpCrc32Posix buff).toBitVec =
      (X ^ 32 * Crc.message (bitBytes (buff ++ lengthBytes buff.length))) %ₘ
        (X ^ 32 + X ^ 26 + X ^ 23 + X ^ 22 + X ^ 16 + X ^ 12 + X ^ 11 + X ^ 10 + X ^ 8 + X ^ 7 +
          X ^ 5 + X ^ 4 + X ^ 2 + X + 1) := by
  rw [nfpCrc32Posix_eq, UInt32.not_not, toBitVec_nfpCrc32Be, ← generator_crcpolyBe]
  exact Crc.toPoly_run _ (by decide) _

/-- At most four successive bytes are known from the key and the others. -/
theorem eq_of_nfpCrc32Posix (a b : List UInt8) {u v : List UInt8} (hlen : u.length = v.length)
    (hshort : u.length ≤ 4) (h : nfpCrc32Posix (a ++ u ++ b) = nfpCrc32Posix (a ++ v ++ b)) :
    u = v := by
  by_contra hne
  have hlength : (a ++ u ++ b).length = (a ++ v ++ b).length := by
    simp only [List.length_append, hlen]
  rw [nfpCrc32Posix_eq, nfpCrc32Posix_eq, hlength, UInt32.not_inj, ← UInt32.toBitVec_inj,
    toBitVec_nfpCrc32Be, toBitVec_nfpCrc32Be] at h
  simp only [bitBytes, List.map_append, List.append_assoc] at h
  have hinj : Function.Injective UInt8.toBitVec := fun _ _ => UInt8.toBitVec_inj.mp
  have hodd : crcpolyBe.toBitVec.getLsbD 0 = true := rfl
  refine Crc.run_ne_of_window (w := 32) (by decide) hodd _ (a.map UInt8.toBitVec) _
    (u := u.map UInt8.toBitVec) (v := v.map UInt8.toBitVec) ?_ ?_ ?_ (by simpa using h)
  · rw [List.length_map, List.length_map, hlen]
  · rw [List.length_map]
    omega
  · exact fun h => hne (List.map_injective_iff.mpr hinj h)

/-- Four successive bytes give the buffer any key. -/
theorem exists_nfpCrc32Posix (a b : List UInt8) (key : UInt32) :
    ∃ w, nfpCrc32Posix (a ++ u32Bytes w ++ b) = key := by
  have hfinite : Finite UInt32 := .of_injective UInt32.toFin fun _ _ => UInt32.toFin_inj.mp
  have hinj : Function.Injective fun w => nfpCrc32Posix (a ++ u32Bytes w ++ b) := by
    intro w w' h
    have hlen : (u32Bytes w).length = (u32Bytes w').length := by
      rw [length_u32Bytes, length_u32Bytes]
    have hbytes := eq_of_nfpCrc32Posix a b hlen (length_u32Bytes w).le h
    rw [← u32OfBytes_u32Bytes w, hbytes, u32OfBytes_u32Bytes]
  exact Finite.injective_iff_surjective.mp hinj key

/-- **Names that differ within four successive bytes have different keys.** -/
theorem nfpCrc32Posix_ne (a b : List UInt8) {u v : List UInt8} (hlen : u.length = v.length)
    (hshort : u.length ≤ 4) (hne : u ≠ v) :
    nfpCrc32Posix (a ++ u ++ b) ≠ nfpCrc32Posix (a ++ v ++ b) :=
  fun h => hne (eq_of_nfpCrc32Posix a b hlen hshort h)

/-- The resources `nfp.info` and `nfp.nffw`. -/
theorem nfpCrc32Posix_ne_info :
    nfpCrc32Posix ([110, 102, 112, 46] ++ [105, 110, 102, 111] ++ []) ≠
      nfpCrc32Posix ([110, 102, 112, 46] ++ [110, 102, 102, 119] ++ []) :=
  nfpCrc32Posix_ne [110, 102, 112, 46] [] rfl (by decide) (by decide)

end NfpUdpEcho
