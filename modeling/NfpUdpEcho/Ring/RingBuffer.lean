import Mathlib.Data.UInt
import NfpUdpEcho.Framework.Circular

/-!
# Ring offsets on the host and in the firmware

The two packet rings are byte buffers with a head and a tail offset. The host keeps them
in a `ringbuffer_t` (`user/lib/ring_buffer.h`, `ring_buffer.c`); the firmware keeps the
offsets in the CLS word `cfg` and steps them with its own code (`firmware/rx.c`, `tx.c`,
`multi_rx.c`, `multi_tx.c`). Both are modelled on 32-bit words, so that an offset that
overflows is an offset that wraps.

`RingConfig` is a buffer size that is a whole number of packets. Over it `Denotes r o k`
says that the word `o` is the offset of the `k`-th entry counted from configuration, and
the lemmas of that section read the program's tests on words as tests on counts.
-/

namespace NfpUdpEcho

/-- `struct ringbuffer_t`. -/
structure RingbufferT where
  baseAddr : UInt64
  entrySize : UInt32
  capacity : UInt32
  head : UInt32
  tail : UInt32
deriving DecidableEq, Repr

/-- `ringbuffer_empty`. -/
def ringbufferEmpty (rb : RingbufferT) : Bool :=
  rb.head == rb.tail

/-- `ringbuffer_size`. -/
def ringbufferSize (rb : RingbufferT) : UInt32 :=
  if rb.head > rb.tail then (rb.capacity - rb.head) + rb.tail else rb.tail - rb.head

/-- `ringbuffer_full`. -/
def ringbufferFull (rb : RingbufferT) : Bool :=
  (rb.tail + rb.entrySize) % rb.capacity == rb.head

/-- `ringbuffer_front`. -/
def ringbufferFront (rb : RingbufferT) : UInt64 :=
  rb.baseAddr + rb.head.toUInt64

/-- `ringbuffer_back`. -/
def ringbufferBack (rb : RingbufferT) : UInt64 :=
  rb.baseAddr + rb.tail.toUInt64

/-- The offset after `off`: add the packet size, start again at zero on reaching the
capacity. The firmware computes its `updated_tail` and `updated_head` so, and
`ringbuffer_push` and `ringbuffer_pop` step `rb->tail` and `rb->head` so. -/
def updatedOffset (bufferCapacity packetSize off : UInt32) : UInt32 :=
  let updated := off + packetSize
  if updated ≥ bufferCapacity then 0 else updated

/-- `ringbuffer_push`; `none` is the failed assertion. -/
def ringbufferPush (rb : RingbufferT) : Option RingbufferT :=
  if ringbufferFull rb then none
  else some { rb with tail := updatedOffset rb.capacity rb.entrySize rb.tail }

/-- `ringbuffer_pop`; `none` is the failed assertion. -/
def ringbufferPop (rb : RingbufferT) : Option RingbufferT :=
  if ringbufferEmpty rb then none
  else some { rb with head := updatedOffset rb.capacity rb.entrySize rb.head }

/-- The wait of `rx_process` in `rx.c` and `multi_rx.c`: the ring is full when the
updated tail equals the head that was read. -/
def rxFull (bufferCapacity packetSize tail head : UInt32) : Bool :=
  updatedOffset bufferCapacity packetSize tail == head

/-- The wait of `tx_process` in `tx.c` and `multi_tx.c`: the ring is empty when the head
equals the tail that was read. -/
def txEmpty (head tail : UInt32) : Bool :=
  head == tail

theorem ringbufferPop_of_not_empty {rb : RingbufferT} (h : ringbufferEmpty rb = false) :
    ringbufferPop rb
      = some { rb with head := updatedOffset rb.capacity rb.entrySize rb.head } := by
  simp [ringbufferPop, h]

theorem ringbufferPush_of_not_full {rb : RingbufferT} (h : ringbufferFull rb = false) :
    ringbufferPush rb
      = some { rb with tail := updatedOffset rb.capacity rb.entrySize rb.tail } := by
  simp [ringbufferPush, h]

/-! ### Offsets over a whole number of packets -/

/-- A ring configuration whose capacity is a whole, positive number of packets. -/
structure RingConfig where
  capacity : UInt32
  packetSize : UInt32
  slots : ℕ
  slots_pos : 0 < slots
  packetSize_pos : 0 < packetSize.toNat
  capacity_eq : capacity.toNat = slots * packetSize.toNat

namespace RingConfig

/-- A buffer size that the packet size divides is a ring configuration. -/
def ofDvd (C p : UInt32) (hp : 0 < p.toNat) (hC : 0 < C.toNat) (h : p.toNat ∣ C.toNat) :
    RingConfig where
  capacity := C
  packetSize := p
  slots := C.toNat / p.toNat
  slots_pos := Nat.div_pos (Nat.le_of_dvd hC h) hp
  packetSize_pos := hp
  capacity_eq := (Nat.div_mul_cancel h).symm

/-- Two slots of one byte. -/
def twoBytes : RingConfig where
  capacity := 2
  packetSize := 1
  slots := 2
  slots_pos := by decide
  packetSize_pos := by decide
  capacity_eq := by decide

/-- Four slots of one byte. -/
def fourBytes : RingConfig where
  capacity := 4
  packetSize := 1
  slots := 4
  slots_pos := by decide
  packetSize_pos := by decide
  capacity_eq := by decide

variable (r : RingConfig)

/-- Offset of the `k`-th entry since configuration. -/
def off (k : ℕ) : ℕ := Circular.slot r.slots r.packetSize.toNat k

/-- The word `o` is the offset of the `k`-th entry. -/
def Denotes (o : UInt32) (k : ℕ) : Prop := o.toNat = r.off k

theorem denotes_zero : r.Denotes 0 0 := by simp [Denotes, off]

/-- Every entry lies inside the buffer. -/
theorem off_add_le (k : ℕ) : r.off k + r.packetSize.toNat ≤ r.capacity.toNat := by
  rw [r.capacity_eq]
  exact Circular.slot_add_le r.slots_pos k

variable {r} {o o' : UInt32} {a b k : ℕ}

/-- The sum `off + packet_size` does not overflow at the offset of an entry. -/
theorem Denotes.toNat_add (h : r.Denotes o k) :
    (o + r.packetSize).toNat = r.off k + r.packetSize.toNat := by
  have hle := r.off_add_le k
  have hC := r.capacity.toNat_lt
  rw [UInt32.toNat_add, h, Nat.mod_eq_of_lt (by omega)]

/-- Stepping the offset of the `k`-th entry gives the offset of the next. -/
theorem Denotes.updated (h : r.Denotes o k) :
    r.Denotes (updatedOffset r.capacity r.packetSize o) (k + 1) := by
  have hsucc := Circular.slot_succ r.slots_pos r.packetSize_pos k
  have hadd := h.toNat_add
  unfold Denotes updatedOffset off at *
  rw [hsucc, ← r.capacity_eq]
  simp only [ge_iff_le, UInt32.le_iff_toNat_le, hadd]
  split <;> simp [hadd]

/-- Words are equal when they denote the same entry. -/
theorem Denotes.eq (h : r.Denotes o k) (h' : r.Denotes o' k) : o = o' :=
  UInt32.toNat_inj.mp (h.trans h'.symm)

/-- The empty test on counts less than a lap apart. -/
theorem Denotes.eq_iff (ha : r.Denotes o a) (hb : r.Denotes o' b) (hab : a ≤ b)
    (hlap : b < a + r.slots) : o = o' ↔ a = b := by
  rw [← UInt32.toNat_inj, ha, hb]
  exact Circular.slot_eq_iff r.packetSize_pos hab hlap

/-- The full test on counts less than a lap apart. -/
theorem Denotes.updated_eq_iff (ha : r.Denotes o a) (hb : r.Denotes o' b) (hab : a ≤ b)
    (hlap : b < a + r.slots) :
    updatedOffset r.capacity r.packetSize o' = o ↔ b + 1 = a + r.slots := by
  rw [← UInt32.toNat_inj, ha, hb.updated]
  exact Circular.slot_succ_eq_iff r.packetSize_pos hab hlap

/-- On an entry's offset the host's modulo agrees with stepping. -/
theorem Denotes.add_mod (h : r.Denotes o k) :
    (o + r.packetSize) % r.capacity = updatedOffset r.capacity r.packetSize o := by
  have hmod := Circular.slot_succ_mod r.slots_pos r.packetSize_pos k
  rw [← UInt32.toNat_inj, h.updated, UInt32.toNat_mod, h.toNat_add, r.capacity_eq]
  exact hmod

/-- Bytes of two entries coincide only when the entries have one offset. -/
theorem off_bytes_disjoint {i j : ℕ} (hi : i < r.packetSize.toNat) (hj : j < r.packetSize.toNat)
    (h : r.off a + i = r.off b + j) : r.off a = r.off b ∧ i = j :=
  Circular.slot_bytes_disjoint hi hj h

/-- Entries less than a lap apart with one offset are one entry. -/
theorem off_eq_iff (hab : a ≤ b) (hlap : b < a + r.slots) : r.off a = r.off b ↔ a = b :=
  Circular.slot_eq_iff r.packetSize_pos hab hlap

end RingConfig

end NfpUdpEcho
