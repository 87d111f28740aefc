import Mathlib.Data.Nat.ModEq
import Mathlib.Data.UInt

/-!
# Little-endian words

`toBytes n x` is the number `x` in `n` bytes, low byte first, and `ofBytes` reads it back
(`ofBytes_toBytes`). `u32Bytes` and `u64Bytes` are the words of a C program as they lie in its
memory, and what a peer of the same byte order reads from a stream.

The general facts are inductions on the bytes; the words of 32 and 64 bits are their instances at 4
and 8 bytes, where the bound `256 ^ n` is that of the type.
-/

namespace LittleEndian

/-- The low `n` bytes of `x`. -/
def toBytes : ℕ → ℕ → List UInt8
  | 0, _ => []
  | n + 1, x => x.toUInt8 :: toBytes n (x / 256)

/-- The number in some bytes. -/
def ofBytes (bytes : List UInt8) : ℕ := bytes.foldr (fun b x => b.toNat + 256 * x) 0

/-- As many bytes as were asked for. -/
@[simp] theorem length_toBytes (n x : ℕ) : (toBytes n x).length = n := by
  induction n generalizing x with
  | zero => rfl
  | succ n ih => rw [toBytes, List.length_cons, ih]

/-- Reading back what was written, cut to the bytes. -/
theorem ofBytes_toBytes (n x : ℕ) : ofBytes (toBytes n x) = x % 256 ^ n := by
  induction n generalizing x with
  | zero => exact (Nat.mod_one x).symm
  | succ n ih =>
    calc ofBytes (toBytes (n + 1) x)
        = x % 256 + 256 * ofBytes (toBytes n (x / 256)) := rfl
      _ = x % 256 + 256 * (x / 256 % 256 ^ n) := by rw [ih]
      _ = x % 256 ^ (n + 1) := by rw [pow_succ', Nat.mod_mul]

/-- A number of some bytes is below their power. -/
theorem ofBytes_lt (bytes : List UInt8) : ofBytes bytes < 256 ^ bytes.length := by
  induction bytes with
  | nil => exact Nat.one_pos
  | cons b bytes ih =>
    have hb : b.toNat < 256 := b.toNat_lt
    calc ofBytes (b :: bytes)
        = b.toNat + 256 * ofBytes bytes := rfl
      _ < 256 * (ofBytes bytes + 1) := by omega
      _ ≤ 256 * 256 ^ bytes.length := Nat.mul_le_mul_left 256 ih
      _ = 256 ^ (bytes.length + 1) := (pow_succ' 256 _).symm

/-- Writing what was read gives the same bytes. -/
theorem toBytes_ofBytes (bytes : List UInt8) : toBytes bytes.length (ofBytes bytes) = bytes := by
  induction bytes with
  | nil => rfl
  | cons b bytes ih =>
    have hb : b.toNat < 256 := b.toNat_lt
    have hsplit : ofBytes (b :: bytes) = b.toNat + 256 * ofBytes bytes := rfl
    -- the first byte is the number modulo 256, and the others are the rest
    have hlow : (ofBytes (b :: bytes)).toUInt8 = b := by
      rw [← UInt8.toNat_inj]
      show ofBytes (b :: bytes) % 256 = b.toNat
      omega
    have hhigh : ofBytes (b :: bytes) / 256 = ofBytes bytes := by omega
    rw [List.length_cons, toBytes, hlow, hhigh, ih]

/-- A word of 32 bits in memory. -/
def u32Bytes (x : UInt32) : List UInt8 := toBytes 4 x.toNat

/-- The word of 32 bits in some bytes. -/
def u32OfBytes (bytes : List UInt8) : UInt32 := UInt32.ofNat (ofBytes bytes)

/-- A word of 64 bits in memory. -/
def u64Bytes (x : UInt64) : List UInt8 := toBytes 8 x.toNat

/-- The word of 64 bits in some bytes. -/
def u64OfBytes (bytes : List UInt8) : UInt64 := UInt64.ofNat (ofBytes bytes)

@[simp] theorem length_u32Bytes (x : UInt32) : (u32Bytes x).length = 4 := length_toBytes 4 _

@[simp] theorem length_u64Bytes (x : UInt64) : (u64Bytes x).length = 8 := length_toBytes 8 _

@[simp] theorem u64OfBytes_u64Bytes (x : UInt64) : u64OfBytes (u64Bytes x) = x := by
  have hlt : x.toNat < 256 ^ 8 := x.toNat_lt
  rw [u64OfBytes, u64Bytes, ofBytes_toBytes, Nat.mod_eq_of_lt hlt, UInt64.ofNat_toNat]

@[simp] theorem u32OfBytes_u32Bytes (x : UInt32) : u32OfBytes (u32Bytes x) = x := by
  have hlt : x.toNat < 256 ^ 4 := x.toNat_lt
  rw [u32OfBytes, u32Bytes, ofBytes_toBytes, Nat.mod_eq_of_lt hlt, UInt32.ofNat_toNat]

/-- Nothing is lost when a number is cut to the width of its bytes. -/
theorem toBytes_ofBytes_mod {n : ℕ} {bytes : List UInt8} (h : bytes.length = n) :
    toBytes n (ofBytes bytes % 256 ^ n) = bytes := by
  subst h
  rw [Nat.mod_eq_of_lt (ofBytes_lt bytes), toBytes_ofBytes]

/-- Eight bytes are those of the word they hold. -/
theorem u64Bytes_u64OfBytes {bytes : List UInt8} (h : bytes.length = 8) :
    u64Bytes (u64OfBytes bytes) = bytes := by
  rw [u64Bytes, u64OfBytes, UInt64.toNat_ofNat']
  exact toBytes_ofBytes_mod h

/-- Four bytes are those of the word they hold. -/
theorem u32Bytes_u32OfBytes {bytes : List UInt8} (h : bytes.length = 4) :
    u32Bytes (u32OfBytes bytes) = bytes := by
  rw [u32Bytes, u32OfBytes, UInt32.toNat_ofNat']
  exact toBytes_ofBytes_mod h

/-- A word is the first eight bytes. -/
theorem take_u64Bytes (x : UInt64) (rest : List UInt8) : (u64Bytes x ++ rest).take 8 = u64Bytes x :=
  List.take_left' (length_u64Bytes x)

/-- What is behind it begins there. -/
theorem drop_u64Bytes (x : UInt64) (rest : List UInt8) : (u64Bytes x ++ rest).drop 8 = rest :=
  List.drop_left' (length_u64Bytes x)

/-- A word is not empty. -/
theorem u64Bytes_ne_nil (x : UInt64) : u64Bytes x ≠ [] := by
  intro h
  have hlen := length_u64Bytes x
  rw [h] at hlen
  cases hlen

end LittleEndian
