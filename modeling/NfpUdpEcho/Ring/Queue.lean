import NfpUdpEcho.Framework.System
import NfpUdpEcho.Ring.RingBuffer

/-!
# The host ring as a queue

The ring of `user/lib/ring_buffer.h` stores two wrapped offsets and no count. Over a whole number
of packets the offsets stand for the pushes and pops made so far (`QueueInv`), and every function
of the library says of the ring what it would say of a queue that holds the entries between the
two (`queue_ok`).

The counts are natural numbers and never wrap; the offsets have 32 bits and stand for a count modulo
the slots (`Denotes`). One slot stays empty, which is how the ring tells that it is full from that
it is empty without a count.
-/

namespace NfpUdpEcho

open LTS RingConfig

/-- What a program does with a ring. -/
inductive QueueOp where
  | push
  | pop
deriving DecidableEq

/-- A push is made only when the ring is not full, a pop only when it is not empty. -/
def queueNext (rb : RingbufferT) : QueueOp → Option RingbufferT
  | .push => ringbufferPush rb
  | .pop => ringbufferPop rb

/-- A ring at `base`, used from offsets zero. -/
def queueSystem (base : UInt64) (r : RingConfig) : System RingbufferT QueueOp :=
  .ofStep (· = ⟨base, r.packetSize, r.capacity, 0, 0⟩) queueNext

/-- How often an operation was made in a run. -/
def opCount (op : QueueOp) (h : List (Transition RingbufferT QueueOp)) : ℕ :=
  (h.map Transition.label).count op

/-- The address of byte `i` of the `k`-th entry. -/
def entryByte (base : UInt64) (r : RingConfig) (k i : ℕ) : UInt64 :=
  base + UInt64.ofNat (k % r.slots * r.packetSize.toNat + i)

/-- The ring behaves as a queue into which `pushed` entries were put and from which `popped` were
taken. -/
structure QueueOk (base : UInt64) (r : RingConfig) (pushed popped : ℕ) (rb : RingbufferT) :
    Prop where
  count : popped ≤ pushed ∧ pushed - popped ≤ r.slots - 1
  size : (ringbufferSize rb).toNat = (pushed - popped) * r.packetSize.toNat
  empty : ringbufferEmpty rb = true ↔ pushed - popped = 0
  full : ringbufferFull rb = true ↔ pushed - popped = r.slots - 1
  back : ringbufferBack rb = entryByte base r pushed 0
  front : ringbufferFront rb = entryByte base r popped 0
  inside : ∀ k, k % r.slots * r.packetSize.toNat + r.packetSize.toNat ≤ r.capacity.toNat
  disjoint : ∀ k k' i j, popped ≤ k → k < pushed → popped ≤ k' → k' < pushed →
    i < r.packetSize.toNat → j < r.packetSize.toNat →
      entryByte base r k i = entryByte base r k' j → k = k' ∧ i = j

/-- The offsets of the ring denote the entries pushed and popped. -/
structure QueueInv (base : UInt64) (r : RingConfig) (pushed popped : ℕ) (rb : RingbufferT) :
    Prop where
  ring : rb.baseAddr = base ∧ rb.entrySize = r.packetSize ∧ rb.capacity = r.capacity
  tail : r.Denotes rb.tail pushed
  head : r.Denotes rb.head popped
  le : popped ≤ pushed
  lap : pushed < popped + r.slots

variable {base : UInt64} {r : RingConfig} {pushed popped : ℕ} {rb rb' : RingbufferT}

/-! ### The functions of the library, on counts -/

namespace QueueInv

/-- The offsets are equal exactly if the counts are, since the ring never holds a whole lap. -/
theorem empty_iff (h : QueueInv base r pushed popped rb) :
    ringbufferEmpty rb = true ↔ popped = pushed := by
  rw [ringbufferEmpty, beq_iff_eq]
  exact h.head.eq_iff h.tail h.le h.lap

/-- The ring is full with one slot still free. -/
theorem full_iff (h : QueueInv base r pushed popped rb) :
    ringbufferFull rb = true ↔ pushed + 1 = popped + r.slots := by
  rw [ringbufferFull, beq_iff_eq, h.ring.2.1, h.ring.2.2, h.tail.add_mod]
  exact h.head.updated_eq_iff h.tail h.le h.lap

/-- The size in bytes, where the tail may have wrapped and the head not. -/
theorem size_eq (h : QueueInv base r pushed popped rb) :
    (ringbufferSize rb).toNat = (pushed - popped) * r.packetSize.toNat := by
  have hhead := r.off_add_le popped
  have htail := r.off_add_le pushed
  have hC := r.capacity.toNat_lt
  have hdist := Circular.slot_distance r.packetSize_pos h.le h.lap
  rw [← r.capacity_eq] at hdist
  change (if r.off pushed < r.off popped then r.capacity.toNat - r.off popped + r.off pushed
    else r.off pushed - r.off popped) = _ at hdist
  have hwrap : rb.head > rb.tail ↔ r.off pushed < r.off popped := by
    rw [gt_iff_lt, UInt32.lt_iff_toNat_lt, h.tail, h.head]
  -- the branch that the words take is the one that the offsets take
  rw [← hdist, ringbufferSize, h.ring.2.2]
  by_cases hlt : r.off pushed < r.off popped
  · have hle : rb.head ≤ r.capacity := UInt32.le_iff_toNat_le.mpr (by
      rw [h.head]
      omega)
    rw [if_pos hlt, if_pos (hwrap.mpr hlt), UInt32.toNat_add, UInt32.toNat_sub_of_le _ _ hle,
      h.tail, h.head]
    exact Nat.mod_eq_of_lt (by omega)
  · have hle : rb.head ≤ rb.tail := UInt32.le_iff_toNat_le.mpr (by
      rw [h.head, h.tail]
      omega)
    rw [if_neg hlt, if_neg fun hgt => hlt (hwrap.mp hgt), UInt32.toNat_sub_of_le _ _ hle, h.tail,
      h.head]

/-- A push that succeeds takes the next slot. -/
theorem push (h : QueueInv base r pushed popped rb) (hpush : ringbufferPush rb = some rb') :
    QueueInv base r (pushed + 1) popped rb' := by
  rw [ringbufferPush] at hpush
  split at hpush
  · cases hpush
  · next hnot =>
    cases hpush
    -- not full: the tail stays less than a lap ahead
    have hroom := (not_congr h.full_iff).mp hnot
    have hlap := h.lap
    refine ⟨h.ring, ?_, h.head, Nat.le_succ_of_le h.le, by omega⟩
    rw [h.ring.2.1, h.ring.2.2]
    exact h.tail.updated

/-- A pop that succeeds gives back the oldest slot. -/
theorem pop (h : QueueInv base r pushed popped rb) (hpop : ringbufferPop rb = some rb') :
    QueueInv base r pushed (popped + 1) rb' := by
  rw [ringbufferPop] at hpop
  split at hpop
  · cases hpop
  · next hnot =>
    cases hpop
    -- not empty: the head does not pass the tail
    have hsome := (not_congr h.empty_iff).mp hnot
    have hle := h.le
    have hlap := h.lap
    refine ⟨h.ring, h.tail, ?_, by omega, by omega⟩
    rw [h.ring.2.1, h.ring.2.2]
    exact h.head.updated

end QueueInv

/-- An offset is added to the base address. -/
theorem entryByte_of_denotes {o : UInt32} {k : ℕ} (h : r.Denotes o k) :
    base + o.toUInt64 = entryByte base r k 0 := by
  have hoff : o.toNat = k % r.slots * r.packetSize.toNat := h
  have hword : o.toUInt64 = UInt64.ofNat o.toNat := by
    rw [← UInt64.toNat_inj, UInt32.toNat_toUInt64,
      UInt64.toNat_ofNat_of_lt' (o.toNat_lt.trans (by decide))]
  rw [hword, hoff]
  rfl

/-- Bytes of the buffer at one address are one byte. -/
theorem entryByte_inj {k k' i j : ℕ} (hi : i < r.packetSize.toNat) (hj : j < r.packetSize.toNat)
    (h : entryByte base r k i = entryByte base r k' j) : r.off k = r.off k' ∧ i = j := by
  -- the buffer is smaller than the address space, so the sum with the base is injective
  have hsmall {k i : ℕ} (hi : i < r.packetSize.toNat) : r.off k + i < UInt64.size := by
    have hk := r.off_add_le k
    have hC := r.capacity.toNat_lt
    change _ < 2 ^ 64
    omega
  have hoff : (UInt64.ofNat (r.off k + i)).toNat = (UInt64.ofNat (r.off k' + j)).toNat :=
    congrArg UInt64.toNat (add_left_cancel h)
  rw [UInt64.toNat_ofNat_of_lt' (hsmall hi), UInt64.toNat_ofNat_of_lt' (hsmall hj)] at hoff
  exact off_bytes_disjoint hi hj hoff

/-- What the functions of the library say of such a ring. -/
theorem QueueInv.ok (h : QueueInv base r pushed popped rb) : QueueOk base r pushed popped rb where
  count := by
    have hle := h.le
    have hlap := h.lap
    omega
  size := h.size_eq
  empty := by
    have hle := h.le
    rw [h.empty_iff]
    omega
  full := by
    have hle := h.le
    have hlap := h.lap
    rw [h.full_iff]
    omega
  back := by rw [ringbufferBack, h.ring.1, entryByte_of_denotes h.tail]
  front := by rw [ringbufferFront, h.ring.1, entryByte_of_denotes h.head]
  inside := r.off_add_le
  disjoint k k' i j hk hkb hk' hkb' hi hj heq := by
    have hlap := h.lap
    obtain ⟨hoff, hij⟩ := entryByte_inj hi hj heq
    refine ⟨?_, hij⟩
    -- entries of the queue are less than a lap apart
    rcases le_total k k' with hle | hle
    · exact (off_eq_iff hle (by omega)).mp hoff
    · exact ((off_eq_iff hle (by omega)).mp hoff.symm).symm

/-! ### Runs -/

/-- A ring starts with both offsets at zero, and with nothing pushed. -/
theorem queueInv_init (base : UInt64) (r : RingConfig) :
    QueueInv base r 0 0 ⟨base, r.packetSize, r.capacity, 0, 0⟩ where
  ring := ⟨rfl, rfl, rfl⟩
  tail := r.denotes_zero
  head := r.denotes_zero
  le := le_rfl
  lap := by
    have hpos := r.slots_pos
    omega

/-- The last step counts if it is one of these operations. -/
theorem opCount_snoc (op : QueueOp) (h : List (Transition RingbufferT QueueOp))
    (t : Transition RingbufferT QueueOp) :
    opCount op (h ++ [t]) = opCount op h + if t.label = op then 1 else 0 := by
  rw [opCount, opCount, List.map_append, List.count_append, List.map_singleton,
    List.count_singleton]
  simp only [beq_iff_eq]

/-- **The host ring is a bounded queue.** -/
theorem queue_ok (base : UInt64) (r : RingConfig) (h : List (Transition RingbufferT QueueOp))
    (rb : RingbufferT) (he : Exec (queueSystem base r) h rb) :
    QueueOk base r (opCount .push h) (opCount .pop h) rb := by
  refine QueueInv.ok ?_
  induction he with
  | init hinit =>
    obtain rfl := hinit
    exact queueInv_init base r
  | @snoc h' rb₁ rb₂ op _ hstep ih =>
    rw [opCount_snoc, opCount_snoc]
    cases op with
    | push => exact ih.push hstep
    | pop => exact ih.pop hstep

/-- The tail wraps behind the head. -/
theorem queue_ok_wrapped : ∃ rb, rb.tail = 0 ∧ QueueOk 0x1000 twoBytes 2 1 rb := by
  have hrun : (runLabels queueNext ⟨0x1000, 1, 2, 0, 0⟩ [.push, .pop, .push]).map
      RingbufferT.tail = some 0 := by decide
  obtain ⟨h, rb, he, hlabels, htail⟩ := Exec.exists_of_run
    (· = ⟨0x1000, twoBytes.packetSize, twoBytes.capacity, 0, 0⟩) queueNext rfl hrun
  have hok := queue_ok 0x1000 twoBytes h rb he
  rw [opCount, opCount, hlabels] at hok
  exact ⟨rb, htail, hok⟩

end NfpUdpEcho
