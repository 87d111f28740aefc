import NfpUdpEcho.Framework.System
import NfpUdpEcho.Ring.RingBuffer

/-!
# Which ring configurations the offset arithmetic is right for

`configure_device` passes `UDP_PACKET_SIZE` and `RING_BUFFER_SIZE` on as they are, and
neither it nor the firmware checks that the one divides the other. A `ringSystem` is one
of the two rings run from offsets zero, its producer and consumer stepping in any order,
each with the test its own code makes.

`RingArithOk` collects what the four copies of the offset arithmetic have to agree on.
When the packet size divides the buffer size the offsets are always those of whole slots
(`RingInv`), and it holds in every reachable state. Otherwise the alternation "produce,
consume" walks both offsets up to the last multiple of the packet size below the buffer
size (`reachable_diagonal`), where the test of the producer passes and the slot runs over
the end of the buffer (`not_ringArithOk_last`).
-/

namespace NfpUdpEcho

open LTS

/-- The two rings: RX is produced by the firmware and consumed by the host, TX is produced
by the host and consumed by the firmware. -/
inductive Ring where
  | rx
  | tx
deriving DecidableEq, Repr

/-- A packet is put into a ring, or taken out of it. -/
inductive RingOp where
  | produce
  | consume
deriving DecidableEq, Repr

/-- The offsets of one ring, as `configure_device` sets them and as the two sides see them
when neither works from an old sample. -/
structure RingOffsets where
  head : UInt32
  tail : UInt32
deriving DecidableEq, Repr

/-- The host's view of the ring. -/
def RingOffsets.ringbuffer (bufferSize packetSize : UInt32) (s : RingOffsets) : RingbufferT where
  baseAddr := 0
  entrySize := packetSize
  capacity := bufferSize
  head := s.head
  tail := s.tail

/-- The offset of the slot an operation works on. -/
def RingOp.slot : RingOp → RingOffsets → UInt32
  | .produce, s => s.tail
  | .consume, s => s.head

/-- One operation with the test and the stepping rule of the side that performs it; `none`
where the test sends that side back to polling. -/
def ringNext (bufferSize packetSize : UInt32) :
    Ring → RingOffsets → RingOp → Option RingOffsets
  | .rx, s, .produce =>
    if rxFull bufferSize packetSize s.tail s.head then none
    else some { s with tail := updatedOffset bufferSize packetSize s.tail }
  | .rx, s, .consume =>
    (ringbufferPop (s.ringbuffer bufferSize packetSize)).map fun rb => { s with head := rb.head }
  | .tx, s, .produce =>
    (ringbufferPush (s.ringbuffer bufferSize packetSize)).map fun rb => { s with tail := rb.tail }
  | .tx, s, .consume =>
    if txEmpty s.head s.tail then none
    else some { s with head := updatedOffset bufferSize packetSize s.head }

/-- One ring run from offsets zero. -/
def ringSystem (bufferSize packetSize : UInt32) (ring : Ring) : System RingOffsets RingOp :=
  .ofStep (· = ⟨0, 0⟩) (ringNext bufferSize packetSize ring)

/-- What the offset arithmetic has to get right in one state. -/
structure RingArithOk (bufferSize packetSize : UInt32) (ring : Ring) (s : RingOffsets) : Prop where
  /-- The slot of every operation whose test passes lies inside the buffer. -/
  slot_inside : ∀ op, ringNext bufferSize packetSize ring s op ≠ none →
    (op.slot s).toNat + packetSize.toNat ≤ bufferSize.toNat
  /-- `ringbuffer_full` is true exactly when stepping the tail reaches the head. -/
  full_iff : ringbufferFull (s.ringbuffer bufferSize packetSize) = true ↔
    updatedOffset bufferSize packetSize s.tail = s.head
  /-- A push that passes its assertion leaves a ring that does not look empty. -/
  push_not_empty : ∀ rb, ringbufferPush (s.ringbuffer bufferSize packetSize) = some rb →
    ringbufferEmpty rb = false
  /-- The full tests of host and firmware agree. -/
  full_agree : ringbufferFull (s.ringbuffer bufferSize packetSize)
    = rxFull bufferSize packetSize s.tail s.head

section Operations

variable {C p : UInt32} {ring : Ring} {s : RingOffsets}

/-- The test the producer makes on the slot after its own. -/
def producerBlocked (bufferSize packetSize : UInt32) (ring : Ring) (s : RingOffsets) : Bool :=
  match ring with
  | .rx => rxFull bufferSize packetSize s.tail s.head
  | .tx => ringbufferFull (s.ringbuffer bufferSize packetSize)

/-- Producing steps the tail, on either ring. -/
theorem ringNext_produce :
    ringNext C p ring s .produce = if producerBlocked C p ring s then none
      else some { s with tail := updatedOffset C p s.tail } := by
  cases ring with
  | rx => rfl
  | tx =>
    have hblocked : producerBlocked C p .tx s = ringbufferFull (s.ringbuffer C p) := rfl
    rw [hblocked, ringNext, ringbufferPush]
    split <;> rfl

/-- Consuming steps the head, on either ring. -/
theorem ringNext_consume :
    ringNext C p ring s .consume = if s.head = s.tail then none
      else some { s with head := updatedOffset C p s.head } := by
  cases ring with
  | rx =>
    simp only [ringNext, ringbufferPop, ringbufferEmpty, RingOffsets.ringbuffer, beq_iff_eq]
    split <;> rfl
  | tx => simp [ringNext, txEmpty]

end Operations

/-! ### Whole numbers of packets -/

section Whole

variable {r : RingConfig} {ring : Ring} {s s' : RingOffsets} {op : RingOp}

/-- The offsets are those of the `consumed`-th and the `produced`-th packet, less than a
lap apart. -/
structure RingInv (r : RingConfig) (s : RingOffsets) (consumed produced : ℕ) : Prop where
  head : r.Denotes s.head consumed
  tail : r.Denotes s.tail produced
  le : consumed ≤ produced
  lt_lap : produced < consumed + r.slots

theorem RingInv.initial (r : RingConfig) : RingInv r ⟨0, 0⟩ 0 0 where
  head := r.denotes_zero
  tail := r.denotes_zero
  le := le_rfl
  lt_lap := by have := r.slots_pos; omega

/-- The host's full test counts the packets in the ring. -/
theorem RingInv.full_iff {a b : ℕ} (h : RingInv r s a b) :
    ringbufferFull (s.ringbuffer r.capacity r.packetSize) = true ↔ b + 1 = a + r.slots := by
  simp only [ringbufferFull, RingOffsets.ringbuffer, beq_iff_eq]
  rw [h.tail.add_mod]
  exact h.head.updated_eq_iff h.tail h.le h.lt_lap

/-- The firmware's full test counts them alike. -/
theorem RingInv.rxFull_iff {a b : ℕ} (h : RingInv r s a b) :
    rxFull r.capacity r.packetSize s.tail s.head = true ↔ b + 1 = a + r.slots := by
  simp only [rxFull, beq_iff_eq]
  exact h.head.updated_eq_iff h.tail h.le h.lt_lap

theorem RingInv.producerBlocked_iff {a b : ℕ} (h : RingInv r s a b) :
    producerBlocked r.capacity r.packetSize ring s = true ↔ b + 1 = a + r.slots := by
  cases ring with
  | rx => exact h.rxFull_iff
  | tx => exact h.full_iff

/-- **Invariant preservation.** A produce step counts one more packet in, a consume step
one more out. -/
theorem RingInv.step {a b : ℕ} (h : RingInv r s a b)
    (hs : ringNext r.capacity r.packetSize ring s op = some s') : ∃ a' b', RingInv r s' a' b' := by
  cases op with
  | produce =>
    rw [ringNext_produce, Option.ite_none_left_eq_some] at hs
    obtain ⟨hfree, hs⟩ := hs
    obtain rfl := Option.some.inj hs
    rw [h.producerBlocked_iff] at hfree
    have hlt := h.lt_lap
    have hle := h.le
    exact ⟨a, b + 1, h.head, h.tail.updated, by omega, by omega⟩
  | consume =>
    rw [ringNext_consume, Option.ite_none_left_eq_some] at hs
    obtain ⟨hne, hs⟩ := hs
    obtain rfl := Option.some.inj hs
    rw [h.head.eq_iff h.tail h.le h.lt_lap] at hne
    have hlt := h.lt_lap
    have hle := h.le
    exact ⟨a + 1, b, h.head.updated, h.tail, by omega, by omega⟩

theorem RingInv.of_reachable (h : (ringSystem r.capacity r.packetSize ring).Reachable s) :
    ∃ a b, RingInv r s a b := by
  have hinit : ∀ s : RingOffsets, s = ⟨0, 0⟩ → ∃ a b, RingInv r s a b := by
    rintro s rfl
    exact ⟨0, 0, RingInv.initial r⟩
  have hstep : ∀ s op s', (∃ a b, RingInv r s a b) →
      ringNext r.capacity r.packetSize ring s op = some s' → ∃ a b, RingInv r s' a b := by
    rintro s op s' ⟨a, b, hI⟩ hs
    exact hI.step hs
  exact h.invariant hinit hstep

/-- Offsets of whole slots are arithmetically right. -/
theorem RingInv.arithOk {a b : ℕ} (h : RingInv r s a b) :
    RingArithOk r.capacity r.packetSize ring s where
  slot_inside := by
    rintro (_ | _) _
    · exact h.tail ▸ r.off_add_le b
    · exact h.head ▸ r.off_add_le a
  full_iff := by
    rw [h.full_iff, h.head.updated_eq_iff h.tail h.le h.lt_lap]
  push_not_empty := by
    intro rb hpush
    simp only [ringbufferPush, Option.ite_none_left_eq_some] at hpush
    obtain ⟨hfree, hpush⟩ := hpush
    obtain rfl := Option.some.inj hpush
    rw [h.full_iff] at hfree
    have hne := (h.head.updated_eq_iff h.tail h.le h.lt_lap).not.mpr hfree
    simpa [ringbufferEmpty, RingOffsets.ringbuffer] using fun heq => hne heq.symm
  full_agree := by
    rw [Bool.eq_iff_iff, h.full_iff, h.rxFull_iff]

end Whole

/-! ### A remainder at the end of the buffer -/

section Remainder

variable {C p : UInt32} {ring : Ring}

/-- Both offsets at the same place, as after equally many packets in and out. -/
def diagonal (o : UInt32) : RingOffsets := ⟨o, o⟩

/-- Where both offsets are the same and no modulus brings the next back to it, the
producer's test passes. -/
theorem producerBlocked_diagonal {o : UInt32} (h : updatedOffset C p o ≠ o)
    (h' : (o + p) % C ≠ o) : producerBlocked C p ring (diagonal o) = false := by
  cases ring <;>
    simp [producerBlocked, rxFull, ringbufferFull, RingOffsets.ringbuffer, diagonal, h, h']

/-- Below the last lap's end, stepping the offset of the `k`-th packet adds the packet
size, by either wrap rule. -/
theorem add_below {k : ℕ} {o : UInt32} (ho : o.toNat = k * p.toNat)
    (hk : (k + 1) * p.toNat < C.toNat) :
    (o + p).toNat = (k + 1) * p.toNat ∧ updatedOffset C p o = o + p ∧ (o + p) % C = o + p := by
  have hC := C.toNat_lt
  have hsum : (k + 1) * p.toNat = o.toNat + p.toNat := by rw [ho]; ring
  have hadd : (o + p).toNat = (k + 1) * p.toNat := by
    rw [UInt32.toNat_add, ← hsum, Nat.mod_eq_of_lt (by omega)]
  refine ⟨hadd, ?_, ?_⟩
  · have hlt : ¬ o + p ≥ C := by
      rw [ge_iff_le, UInt32.le_iff_toNat_le, hadd]
      omega
    simp [updatedOffset, hlt]
  · rw [← UInt32.toNat_inj, UInt32.toNat_mod, hadd, Nat.mod_eq_of_lt hk]

/-- **The walk up the buffer.** Alternating produce and consume moves both offsets to every
multiple of the packet size below the buffer size. -/
theorem reachable_diagonal (C p : UInt32) (ring : Ring) (hp : 0 < p.toNat) (k : ℕ)
    (hk : k * p.toNat < C.toNat) :
    ∃ o : UInt32, o.toNat = k * p.toNat ∧
      (ringSystem C p ring).Reachable (diagonal o) := by
  induction k with
  | zero => exact ⟨0, by simp, .init rfl⟩
  | succ k ih =>
    have hprev : k * p.toNat < C.toNat :=
      lt_of_le_of_lt (Nat.mul_le_mul_right _ (Nat.le_succ k)) hk
    obtain ⟨o, ho, hreach⟩ := ih hprev
    obtain ⟨hadd, hup, hmod⟩ := add_below ho hk
    have hne : o + p ≠ o := by
      rw [ne_eq, ← UInt32.toNat_inj, hadd, ho, Nat.add_mul, Nat.one_mul]
      omega
    refine ⟨o + p, hadd, ?_⟩
    have hfree : producerBlocked C p ring (diagonal o) = false :=
      producerBlocked_diagonal (by rwa [hup]) (by rwa [hmod])
    have hproduce : ringNext C p ring (diagonal o) .produce = some ⟨o, o + p⟩ := by
      rw [ringNext_produce, hfree]
      simp [diagonal, hup]
    have hconsume : ringNext C p ring ⟨o, o + p⟩ .consume = some (diagonal (o + p)) := by
      rw [ringNext_consume, if_neg (by exact fun h => hne h.symm)]
      simp [diagonal, hup]
    exact (hreach.step hproduce).step hconsume

/-- At the last multiple of the packet size, short of the buffer size by less than a
packet, the producer's test passes although its slot does not fit. -/
theorem not_ringArithOk_last {o : UInt32} (hle : p.toNat ≤ o.toNat) (hlt : o.toNat < C.toNat)
    (hover : C.toNat < o.toNat + p.toNat) : ¬ RingArithOk C p ring (diagonal o) := by
  intro hok
  have hC := C.toNat_lt
  have hadd : (o + p).toNat = (o.toNat + p.toNat) % 2 ^ 32 := UInt32.toNat_add o p
  -- the sum may overflow the word: then it is below `p`, and so below `o`
  have hup : updatedOffset C p o ≠ o := by
    rw [ne_eq, ← UInt32.toNat_inj]
    unfold updatedOffset
    simp only [ge_iff_le, UInt32.le_iff_toNat_le, hadd]
    split
    · have : (0 : UInt32).toNat = 0 := rfl
      omega
    · rw [hadd]
      omega
  have hmod : (o + p) % C ≠ o := by
    rw [ne_eq, ← UInt32.toNat_inj, UInt32.toNat_mod, hadd]
    by_cases hwrap : o.toNat + p.toNat < 2 ^ 32
    · rw [Nat.mod_eq_of_lt hwrap, Nat.mod_eq_sub_mod (by omega), Nat.mod_eq_of_lt (by omega)]
      omega
    · have hw : (o.toNat + p.toNat) % 2 ^ 32 = o.toNat + p.toNat - 2 ^ 32 := by omega
      rw [hw, Nat.mod_eq_of_lt (by omega)]
      omega
  have hfree : producerBlocked C p ring (diagonal o) = false := producerBlocked_diagonal hup hmod
  have hin := hok.slot_inside .produce (by rw [ringNext_produce, hfree]; simp)
  simp only [RingOp.slot, diagonal] at hin
  omega

end Remainder

/-- **The exact condition.** The arithmetic of a ring is right in every reachable state
exactly when the packet size divides the buffer size. -/
theorem ringArithOk_iff_dvd (C p : UInt32) (hp : 0 < p) (hle : p ≤ C) (ring : Ring) :
    (∀ s, (ringSystem C p ring).Reachable s → RingArithOk C p ring s) ↔
      p.toNat ∣ C.toNat := by
  have hp' : 0 < p.toNat := UInt32.lt_iff_toNat_lt.mp hp
  have hle' : p.toNat ≤ C.toNat := UInt32.le_iff_toNat_le.mp hle
  constructor
  · intro hok
    by_contra hdvd
    -- `q` whole packets fit, and a remainder is left
    have hdiv : C.toNat / p.toNat * p.toNat + C.toNat % p.toNat = C.toNat :=
      Nat.div_add_mod' C.toNat p.toNat
    have hrem : 0 < C.toNat % p.toNat := Nat.pos_of_ne_zero fun h => hdvd (Nat.dvd_of_mod_eq_zero h)
    have hmod : C.toNat % p.toNat < p.toNat := Nat.mod_lt _ hp'
    obtain ⟨o, ho, hreach⟩ :=
      reachable_diagonal C p ring hp' (C.toNat / p.toNat) (by omega)
    have hq : 1 * p.toNat ≤ C.toNat / p.toNat * p.toNat :=
      Nat.mul_le_mul_right _ (Nat.div_pos hle' hp')
    exact not_ringArithOk_last (by omega) (by omega) (by omega) (hok _ hreach)
  · intro hdvd s hreach
    let r := RingConfig.ofDvd C p hp' (by omega) hdvd
    obtain ⟨a, b, hI⟩ := RingInv.of_reachable (r := r) hreach
    exact hI.arithOk

/-- The shipped pair satisfies the condition. -/
theorem ringArithOk_shipped :
    (∀ s, (ringSystem 512 64 .rx).Reachable s → RingArithOk 512 64 .rx s) ↔
      (64 : UInt32).toNat ∣ (512 : UInt32).toNat :=
  ringArithOk_iff_dvd 512 64 (by decide) (by decide) .rx

/-- A buffer of 100 bytes with packets of 64: after one packet in and out the second slot
is `[64, 128)`. -/
theorem ringArithOk_not_all :
    ¬ ∀ C p : UInt32, 0 < p → p ≤ C → ∀ ring s,
      (ringSystem C p ring).Reachable s → RingArithOk C p ring s := by
  intro h
  have hrun : (runLabels (ringNext 100 64 .rx) ⟨0, 0⟩ [.produce, .consume]).map id
      = some ⟨64, 64⟩ := by decide
  obtain ⟨s, hreach, rfl⟩ := System.Reachable.of_run (· = ⟨0, 0⟩) _ rfl hrun
  have hin := (h 100 64 (by decide) (by decide) .rx _ hreach).slot_inside .produce (by decide)
  exact absurd hin (by decide)

end NfpUdpEcho
