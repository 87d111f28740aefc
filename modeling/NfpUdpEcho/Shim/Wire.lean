import NfpUdpEcho.Framework.ByteMem
import NfpUdpEcho.Framework.LittleEndian
import NfpUdpEcho.Server.AreaTable

/-!
# What the shim and the device server exchange

Operations, `ioctl` codes and structs of the protocol between `shim/interpose.c` and
`user/nfpcore/nfp_cpp_dev.c`. Both sides run on one machine, so every number goes as it lies
in memory, and a struct with its padding.

A reply starts with a word, the status or the length of the transfer. The shim reads it as an
`int` and takes a negative one for the end of the reply.
-/

namespace NfpUdpEcho

open LittleEndian

/-! ### Operations -/

def opPread : UInt64 := 1
def opPwrite : UInt64 := 2
def opIoctl : UInt64 := 3

/-! ### Codes of `ioctl` -/

/-- `_IOC`. -/
def ioc (dir type nr size : UInt64) : UInt64 :=
  (dir <<< 30) ||| (type <<< 8) ||| nr ||| (size <<< 16)

/-- `_IOW`, for `NFP_IOCTL`, which is `'n'`. -/
def iow (nr size : UInt64) : UInt64 := ioc 1 0x6e nr size

/-- `_IOR`. -/
def ior (nr size : UInt64) : UInt64 := ioc 2 0x6e nr size

/-- `_IOWR`. -/
def iowr (nr size : UInt64) : UInt64 := ioc 3 0x6e nr size

/-- `sizeof(struct nfp_cpp_area_request)`. -/
def areaRequestSize : ℕ := 32

/-- `sizeof(struct nfp_cpp_explicit_request)`. -/
def explicitRequestSize : ℕ := 168

/-- `sizeof(struct nfp_cpp_identification)`. -/
def identificationSize : ℕ := 20

/-- `sizeof(struct nfp_cpp_event_request)`. -/
def eventRequestSize : ℕ := 16

def nfpFirmwareMax : ℕ := 256

def nfpIoctlCppAreaRequest : UInt64 := iowr 0x80 32
def nfpIoctlCppAreaRelease : UInt64 := iow 0x81 32
def nfpIoctlCppAreaReleaseObsolete : UInt64 := iow 0x81 8
def nfpIoctlCppExplRequest : UInt64 := iow 0x82 168
def nfpIoctlCppEventAcquire : UInt64 := iow 0x83 16
def nfpIoctlCppEventRelease : UInt64 := iow 0x84 16
def nfpIoctlFirmwareLoad : UInt64 := iow 0x8d 256
def nfpIoctlFirmwareLast : UInt64 := ior 0x8e 256
def nfpIoctlCppIdentification : UInt64 := iow 0x8f 4

/-! ### Structs -/

/-- The fields of a `struct nfp_cpp_area_request`. -/
def AreaRequest.ofBytes (bytes : List UInt8) : AreaRequest where
  offset := u64OfBytes (bytes.take 8)
  cppId := u32OfBytes ((bytes.drop 8).take 4)
  cppAddr := u64OfBytes ((bytes.drop 16).take 8)
  size := u64OfBytes ((bytes.drop 24).take 8)

/-- The struct with its `offset` assigned. -/
def setOffset (bytes : List UInt8) (offset : UInt64) : List UInt8 :=
  u64Bytes offset ++ bytes.drop 8

/-- `struct nfp_cpp_identification`. -/
structure NfpCppIdentification where
  size : UInt32
  model : UInt32
  interface : UInt32
  serialLo : UInt32
  serialHi : UInt32

def NfpCppIdentification.bytes (ident : NfpCppIdentification) : List UInt8 :=
  u32Bytes ident.size ++ u32Bytes ident.model ++ u32Bytes ident.interface ++
    u32Bytes ident.serialLo ++ u32Bytes ident.serialHi

/-! ### Status words -/

/-- `(int) temp`. -/
def asInt (temp : UInt64) : Int32 := temp.toInt64.toInt32

/-- `(uint64_t) err`. -/
def statusWord (err : ℤ) : UInt64 := (Int64.ofInt err).toUInt64

/-- The values of a C `int`. -/
def IsInt (err : ℤ) : Prop := -2 ^ 31 ≤ err ∧ err < 2 ^ 31

theorem isInt_EIO : IsInt (- Errno.EIO) ∧ - Errno.EIO < 0 :=
  ⟨⟨by decide, by decide⟩, by decide⟩

/-- An error keeps its sign on the way. -/
theorem asInt_statusWord {err : ℤ} (h : IsInt err) : (asInt (statusWord err)).toInt = err := by
  have hcast : asInt (statusWord err) = (Int64.ofInt err).toInt32 := rfl
  rw [hcast, Int64.toInt32_ofInt, Int32.toInt_ofInt_of_le h.1 h.2]

theorem asInt_statusWord_neg {err : ℤ} (h : IsInt err) (hneg : err < 0) :
    asInt (statusWord err) < 0 := by
  rw [Int32.lt_iff_toInt_lt, asInt_statusWord h]
  exact hneg

theorem toInt64_toInt {word : UInt64} (h : word.toNat < 2 ^ 63) :
    word.toInt64.toInt = word.toNat := by
  have hcast : word.toInt64.toInt = word.toBitVec.toInt := rfl
  rw [hcast, BitVec.toInt_eq_toNat_of_lt]
  · rfl
  · exact (show 2 * word.toNat < 2 ^ 64 by omega)

theorem toInt64_nonneg_iff (word : UInt64) : 0 ≤ word.toInt64.toInt ↔ word.toNat < 2 ^ 63 := by
  have hcast : word.toInt64.toInt = word.toBitVec.toInt := rfl
  have hlt : word.toBitVec.toNat < 2 ^ 64 := word.toBitVec.isLt
  have hnat : word.toBitVec.toNat = word.toNat := rfl
  rw [hcast, BitVec.toInt_eq_toNat_cond]
  split
  · omega
  · omega

/-- -1 is negative as an `int` too. -/
theorem asInt_neg_of_eq {word : UInt64} (h : word.toInt64.toInt = -1) : asInt word < 0 := by
  rw [Int32.lt_iff_toInt_lt, asInt, Int64.toInt_toInt32, h]
  decide

/-- A word that fits in 32 bits is negative as an `int` when its top bit is set. -/
theorem asInt_neg_iff {word : UInt64} (h : word.toNat < 2 ^ 32) :
    asInt word < 0 ↔ 2 ^ 31 ≤ word.toNat := by
  have hword := toInt64_toInt (h.trans (by decide))
  rw [Int32.lt_iff_toInt_lt, asInt, Int64.toInt_toInt32, hword, Int.bmod_def, Int32.toInt_zero]
  split
  · omega
  · omega

theorem length_setOffset {bytes : List UInt8} (h : bytes.length = areaRequestSize)
    (offset : UInt64) : (setOffset bytes offset).length = areaRequestSize := by
  rw [setOffset, List.length_append, length_u64Bytes, List.length_drop, h]
  rfl

@[simp] theorem NfpCppIdentification.length_bytes (ident : NfpCppIdentification) :
    ident.bytes.length = identificationSize := by
  simp [NfpCppIdentification.bytes, identificationSize]

end NfpUdpEcho
