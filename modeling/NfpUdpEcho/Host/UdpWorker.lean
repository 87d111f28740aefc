import Mathlib.Data.Fintype.Basic
import NfpUdpEcho.Framework.ByteMem
import NfpUdpEcho.Ring.RingBuffer

/-!
# The host loop

`udp_worker` (`user/app_main.c`) polls the two offsets the firmware publishes and, when the
RX ring has a packet and the TX ring has room, copies one packet from ring to ring and steps
the two offsets it owns. `UdpWorker.next` is one step of it: one access to a word shared with
the device, one byte of the `memcpy`, or the computation between two accesses. Addresses are
counted from the start of the buffer they lie in.

What the worker knows of the rings depends on which firmware runs on the other side, so its
invariant comes in three parts that can be had separately:

* `LocalOk`: its own two copies of the rings, on which `ringbuffer_pop` and `ringbuffer_push`
  never fail their assertions;
* `RxOk R P`: it has released `R` packets, of the `P` published to it;
* `TxOk H P`: it has published `H` packets, of which `P` have been taken.

Each comes with a lemma that a step of the worker preserves it, and `RxOk` and `TxOk` with one
that `P` may grow at any time.
-/

namespace NfpUdpEcho

open ByteMem

/-- Where `udp_worker` is in its loop. A packet has `n` bytes; `copy done` is inside the
`memcpy`, with the bytes `done` copied. -/
inductive HostPc (n : ℕ) where
  | readRxTail
  | readTxHead
  | test
  | copy (done : Finset (Fin n))
  | pop
  | push
  | writeTxTail
  | writeRxHead
  | aborted
deriving DecidableEq

/-- The locals of `udp_worker`. -/
structure UdpWorker (n : ℕ) where
  ringRx : RingbufferT
  ringTx : RingbufferT
  pc : HostPc n
deriving DecidableEq

/-- What the worker reads of the memory it shares with the device. -/
structure HostView where
  rxTail : UInt32
  txHead : UInt32
  rxBuf : Mem

/-- What a step of the worker writes there. -/
inductive HostWrite where
  | none
  | txByte (addr : ℕ) (value : UInt8)
  | txTail (value : UInt32)
  | rxHead (value : UInt32)
deriving DecidableEq, Repr

/-- Packets a write releases to the RX firmware. -/
def HostWrite.released : HostWrite → ℕ
  | .rxHead _ => 1
  | .none | .txByte _ _ | .txTail _ => 0

/-- Packets a write publishes to the TX firmware. -/
def HostWrite.published : HostWrite → ℕ
  | .txTail _ => 1
  | .none | .txByte _ _ | .rxHead _ => 0

inductive HostStep (n : ℕ) where
  | advance
  | copyByte (i : Fin n)
deriving DecidableEq, Repr

namespace UdpWorker

/-- Both rings as `udp_worker` sets them up. -/
def initial (bufferSize packetSize : UInt32) : UdpWorker packetSize.toNat where
  ringRx := ⟨0, packetSize, bufferSize, 0, 0⟩
  ringTx := ⟨0, packetSize, bufferSize, 0, 0⟩
  pc := .readRxTail

variable {n : ℕ}

/-- One step of the loop of `udp_worker`. -/
def next (v : HostView) (h : UdpWorker n) (step : HostStep n) :
    Option (UdpWorker n × HostWrite) :=
  match step, h.pc with
  | .advance, .readRxTail =>
    some ({ h with ringRx := { h.ringRx with tail := v.rxTail }, pc := .readTxHead }, .none)
  | .advance, .readTxHead =>
    some ({ h with ringTx := { h.ringTx with head := v.txHead }, pc := .test }, .none)
  | .advance, .test =>
    if !ringbufferEmpty h.ringRx && !ringbufferFull h.ringTx then
      some ({ h with pc := .copy ∅ }, .none)
    else some ({ h with pc := .readRxTail }, .none)
  | .copyByte i, .copy done =>
    if i ∈ done then none
    else some ({ h with pc := .copy (insert i done) },
      .txByte (h.ringTx.tail.toNat + i) (v.rxBuf (h.ringRx.head.toNat + i)))
  | .advance, .copy done =>
    if done = Finset.univ then some ({ h with pc := .pop }, .none) else none
  | .advance, .pop =>
    match ringbufferPop h.ringRx with
    | some rb => some ({ h with ringRx := rb, pc := .push }, .none)
    | none => some ({ h with pc := .aborted }, .none)
  | .advance, .push =>
    match ringbufferPush h.ringTx with
    | some rb => some ({ h with ringTx := rb, pc := .writeTxTail }, .none)
    | none => some ({ h with pc := .aborted }, .none)
  | .advance, .writeTxTail => some ({ h with pc := .writeRxHead }, .txTail h.ringTx.tail)
  | .advance, .writeRxHead => some ({ h with pc := .readRxTail }, .rxHead h.ringRx.head)
  | _, _ => none

/-- The worker's own view of the rings: their size never changes, and between the test and
the operations it guards nothing undoes it. -/
structure LocalOk (r : RingConfig) (h : UdpWorker n) : Prop where
  rx_capacity : h.ringRx.capacity = r.capacity
  rx_entrySize : h.ringRx.entrySize = r.packetSize
  tx_capacity : h.ringTx.capacity = r.capacity
  tx_entrySize : h.ringTx.entrySize = r.packetSize
  not_aborted : h.pc ≠ .aborted
  not_empty : (∃ d, h.pc = .copy d) ∨ h.pc = .pop → ringbufferEmpty h.ringRx = false
  not_full : (∃ d, h.pc = .copy d) ∨ h.pc = .pop ∨ h.pc = .push → ringbufferFull h.ringTx = false

/-- The steps of a worker whose rings are in order, by their effect. -/
inductive Effect (r : RingConfig) (v : HostView) (h : UdpWorker n) :
    HostStep n → UdpWorker n → HostWrite → Prop where
  | readRxTail : h.pc = .readRxTail → Effect r v h .advance
      { h with ringRx := { h.ringRx with tail := v.rxTail }, pc := .readTxHead } .none
  | readTxHead : h.pc = .readTxHead → Effect r v h .advance
      { h with ringTx := { h.ringTx with head := v.txHead }, pc := .test } .none
  | enter : h.pc = .test → ringbufferEmpty h.ringRx = false → ringbufferFull h.ringTx = false →
      Effect r v h .advance { h with pc := .copy ∅ } .none
  | skip : h.pc = .test → Effect r v h .advance { h with pc := .readRxTail } .none
  | copyByte {i : Fin n} {done : Finset (Fin n)} : h.pc = .copy done → i ∉ done →
      Effect r v h (.copyByte i) { h with pc := .copy (insert i done) }
        (.txByte (h.ringTx.tail.toNat + i) (v.rxBuf (h.ringRx.head.toNat + i)))
  | copyEnd : h.pc = .copy Finset.univ → Effect r v h .advance { h with pc := .pop } .none
  | pop : h.pc = .pop → Effect r v h .advance
      { h with
        ringRx := { h.ringRx with head := updatedOffset r.capacity r.packetSize h.ringRx.head }
        pc := .push } .none
  | push : h.pc = .push → Effect r v h .advance
      { h with
        ringTx := { h.ringTx with tail := updatedOffset r.capacity r.packetSize h.ringTx.tail }
        pc := .writeTxTail } .none
  | writeTxTail : h.pc = .writeTxTail →
      Effect r v h .advance { h with pc := .writeRxHead } (.txTail h.ringTx.tail)
  | writeRxHead : h.pc = .writeRxHead →
      Effect r v h .advance { h with pc := .readRxTail } (.rxHead h.ringRx.head)

variable {r : RingConfig} {v : HostView} {h h' : UdpWorker n} {l : HostStep n} {w : HostWrite}

theorem LocalOk.initial (r : RingConfig) : LocalOk r (initial r.capacity r.packetSize) where
  rx_capacity := rfl
  rx_entrySize := rfl
  tx_capacity := rfl
  tx_entrySize := rfl
  not_aborted := by simp [UdpWorker.initial]
  not_empty := by simp [UdpWorker.initial]
  not_full := by simp [UdpWorker.initial]

theorem next_effect (hl : LocalOk r h) (hs : next v h l = some (h', w)) :
    Effect r v h l h' w := by
  unfold next at hs
  split at hs
  case h_1 hpc => obtain ⟨rfl, rfl⟩ := Prod.mk.inj (Option.some.inj hs); exact .readRxTail hpc
  case h_2 hpc => obtain ⟨rfl, rfl⟩ := Prod.mk.inj (Option.some.inj hs); exact .readTxHead hpc
  case h_3 hpc =>
    split at hs
    · next htest =>
      obtain ⟨rfl, rfl⟩ := Prod.mk.inj (Option.some.inj hs)
      simp only [Bool.and_eq_true, Bool.not_eq_true'] at htest
      exact .enter hpc htest.1 htest.2
    · obtain ⟨rfl, rfl⟩ := Prod.mk.inj (Option.some.inj hs)
      exact .skip hpc
  case h_4 i done hpc =>
    obtain ⟨hi, hs⟩ := Option.ite_none_left_eq_some.mp hs
    obtain ⟨rfl, rfl⟩ := Prod.mk.inj (Option.some.inj hs)
    exact .copyByte hpc hi
  case h_5 done hpc =>
    obtain ⟨hdone, hs⟩ := Option.ite_none_right_eq_some.mp hs
    obtain ⟨rfl, rfl⟩ := Prod.mk.inj (Option.some.inj hs)
    exact .copyEnd (hdone ▸ hpc)
  case h_6 hpc =>
    -- the assertion of `ringbuffer_pop` was tested before the copy
    have hpop : ringbufferPop h.ringRx = some { h.ringRx with
        head := updatedOffset r.capacity r.packetSize h.ringRx.head } := by
      rw [← hl.rx_capacity, ← hl.rx_entrySize]
      exact ringbufferPop_of_not_empty (hl.not_empty (.inr hpc))
    rw [hpop] at hs
    obtain ⟨rfl, rfl⟩ := Prod.mk.inj (Option.some.inj hs)
    exact .pop hpc
  case h_7 hpc =>
    have hpush : ringbufferPush h.ringTx = some { h.ringTx with
        tail := updatedOffset r.capacity r.packetSize h.ringTx.tail } := by
      rw [← hl.tx_capacity, ← hl.tx_entrySize]
      exact ringbufferPush_of_not_full (hl.not_full (.inr (.inr hpc)))
    rw [hpush] at hs
    obtain ⟨rfl, rfl⟩ := Prod.mk.inj (Option.some.inj hs)
    exact .push hpc
  case h_8 hpc => obtain ⟨rfl, rfl⟩ := Prod.mk.inj (Option.some.inj hs); exact .writeTxTail hpc
  case h_9 hpc => obtain ⟨rfl, rfl⟩ := Prod.mk.inj (Option.some.inj hs); exact .writeRxHead hpc
  case h_10 => cases hs

/-- A step of the worker keeps its rings in order, and fails no assertion. -/
theorem LocalOk.step (hl : LocalOk r h) (hs : next v h l = some (h', w)) : LocalOk r h' := by
  have heff := next_effect hl hs
  obtain ⟨h₁, h₂, h₃, h₄, -, h₆, h₇⟩ := hl
  cases heff with
  -- outside the copy nothing is known of the rings
  | readRxTail | readTxHead | skip | push | writeTxTail | writeRxHead =>
    exact ⟨h₁, h₂, h₃, h₄, by simp, by simp, by simp⟩
  | enter hpc hne hnf => exact ⟨h₁, h₂, h₃, h₄, by simp, fun _ => hne, fun _ => hnf⟩
  | copyByte hpc hi =>
    exact ⟨h₁, h₂, h₃, h₄, by simp, fun _ => h₆ (.inl ⟨_, hpc⟩), fun _ => h₇ (.inl ⟨_, hpc⟩)⟩
  | copyEnd hpc =>
    exact ⟨h₁, h₂, h₃, h₄, by simp, fun _ => h₆ (.inl ⟨_, hpc⟩), fun _ => h₇ (.inl ⟨_, hpc⟩)⟩
  | pop hpc => exact ⟨h₁, h₂, h₃, h₄, by simp, by simp, fun _ => h₇ (.inr (.inl hpc))⟩

/-! ### The RX ring -/

/-- What the worker knows of the RX ring, having released `R` packets of the `P` published. -/
def RxOk (r : RingConfig) (h : UdpWorker n) (R P : ℕ) : Prop :=
  match h.pc with
  | .readRxTail => r.Denotes h.ringRx.head R ∧ R ≤ P
  | .readTxHead | .test =>
    r.Denotes h.ringRx.head R ∧ ∃ j, r.Denotes h.ringRx.tail j ∧ R ≤ j ∧ j < R + r.slots ∧ j ≤ P
  | .copy _ | .pop => r.Denotes h.ringRx.head R ∧ R < P
  | .push | .writeTxTail | .writeRxHead => r.Denotes h.ringRx.head (R + 1) ∧ R < P
  | .aborted => False

theorem RxOk.initial (r : RingConfig) : RxOk r (initial r.capacity r.packetSize) 0 0 :=
  ⟨r.denotes_zero, le_rfl⟩

section Rx

variable {R P P' : ℕ}

/-- The firmware publishes more. -/
theorem RxOk.mono (hR : RxOk r h R P) (hP : P ≤ P') : RxOk r h R P' := by
  unfold RxOk at hR ⊢
  cases hpc : h.pc <;> simp only [hpc] at hR ⊢
  case readRxTail => exact ⟨hR.1, by omega⟩
  case readTxHead | test =>
    obtain ⟨hhead, j, hj, hle, hlap, hjP⟩ := hR
    exact ⟨hhead, j, hj, hle, hlap, by omega⟩
  all_goals exact ⟨hR.1, by omega⟩

theorem RxOk.le (hR : RxOk r h R P) : R ≤ P := by
  unfold RxOk at hR
  cases hpc : h.pc <;> simp only [hpc] at hR
  case readTxHead | test =>
    obtain ⟨-, j, -, hle, -, hjP⟩ := hR
    omega
  all_goals omega

/-- **The RX side of a step.** A worker that reads the published count less than a lap
ahead releases only packets that were published. -/
theorem RxOk.step (hR : RxOk r h R P) (hl : LocalOk r h) (hv : r.Denotes v.rxTail P)
    (hlap : P < R + r.slots) (hs : next v h l = some (h', w)) :
    RxOk r h' (R + w.released) P ∧ ∀ o, w = .rxHead o → r.Denotes o (R + 1) := by
  have hle := hR.le
  unfold RxOk at hR
  cases next_effect hl hs with
  | readRxTail hpc =>
    -- the offset read is the published count, a lap ahead at most
    simp only [hpc] at hR
    exact ⟨⟨hR.1, P, hv, hle, hlap, le_rfl⟩, nofun⟩
  | readTxHead hpc | copyByte hpc _ | copyEnd hpc | push hpc | writeTxTail hpc =>
    simp only [hpc] at hR
    exact ⟨hR, nofun⟩
  | enter hpc hne _ =>
    simp only [hpc] at hR
    obtain ⟨hhead, j, hj, hRj, hjlap, hjP⟩ := hR
    -- the offsets differ, so the sampled count is ahead of the released one
    have hne' : h.ringRx.head ≠ h.ringRx.tail := by simpa [ringbufferEmpty] using hne
    rw [ne_eq, hhead.eq_iff hj hRj hjlap] at hne'
    exact ⟨⟨hhead, show R < P by omega⟩, nofun⟩
  | skip hpc =>
    simp only [hpc] at hR
    exact ⟨⟨hR.1, hle⟩, nofun⟩
  | pop hpc =>
    -- the worker's own head moves before the one the firmware sees
    simp only [hpc] at hR
    exact ⟨⟨hR.1.updated, hR.2⟩, nofun⟩
  | writeRxHead hpc =>
    simp only [hpc] at hR
    refine ⟨⟨hR.1, hR.2⟩, ?_⟩
    rintro o ⟨rfl⟩
    exact hR.1

end Rx

/-! ### The TX ring -/

/-- What the worker knows of the TX ring, having published `H` packets, `P` of which the
firmware has taken. -/
def TxOk (r : RingConfig) (h : UdpWorker n) (H P : ℕ) : Prop :=
  match h.pc with
  | .readRxTail | .readTxHead | .writeRxHead => r.Denotes h.ringTx.tail H ∧ H < P + r.slots
  | .test =>
    r.Denotes h.ringTx.tail H ∧
      ∃ j, r.Denotes h.ringTx.head j ∧ j ≤ H ∧ H < j + r.slots ∧ j ≤ P
  | .copy _ | .pop | .push => r.Denotes h.ringTx.tail H ∧ H + 1 < P + r.slots
  | .writeTxTail => r.Denotes h.ringTx.tail (H + 1) ∧ H + 1 < P + r.slots
  | .aborted => False

theorem TxOk.initial (r : RingConfig) : TxOk r (initial r.capacity r.packetSize) 0 0 :=
  ⟨r.denotes_zero, by have := r.slots_pos; omega⟩

section Tx

variable {H P P' : ℕ}

/-- The firmware takes more. -/
theorem TxOk.mono (hT : TxOk r h H P) (hP : P ≤ P') : TxOk r h H P' := by
  unfold TxOk at hT ⊢
  cases hpc : h.pc <;> simp only [hpc] at hT ⊢
  case test =>
    obtain ⟨htail, j, hj, hle, hlap, hjP⟩ := hT
    exact ⟨htail, j, hj, hle, hlap, by omega⟩
  all_goals exact ⟨hT.1, by omega⟩

theorem TxOk.lt_lap (hT : TxOk r h H P) : H < P + r.slots := by
  unfold TxOk at hT
  cases hpc : h.pc <;> simp only [hpc] at hT
  case test =>
    obtain ⟨-, j, -, -, hlap, hjP⟩ := hT
    omega
  all_goals omega

/-- **The TX side of a step.** The worker publishes only into a slot the firmware has left. -/
theorem TxOk.step (hT : TxOk r h H P) (hl : LocalOk r h) (hv : r.Denotes v.txHead P)
    (hle : P ≤ H) (hs : next v h l = some (h', w)) :
    TxOk r h' (H + w.published) P ∧ ∀ o, w = .txTail o → r.Denotes o (H + 1) := by
  have hlap := hT.lt_lap
  unfold TxOk at hT
  cases next_effect hl hs with
  | readRxTail hpc | copyByte hpc _ | copyEnd hpc | pop hpc | writeRxHead hpc =>
    simp only [hpc] at hT
    exact ⟨hT, nofun⟩
  | readTxHead hpc =>
    simp only [hpc] at hT
    exact ⟨⟨hT.1, P, hv, hle, hlap, le_rfl⟩, nofun⟩
  | enter hpc _ hnf =>
    simp only [hpc] at hT
    obtain ⟨htail, j, hj, hjH, hjlap, hjP⟩ := hT
    -- the ring is not full against the sampled count, and the firmware only gets further
    have hne : updatedOffset r.capacity r.packetSize h.ringTx.tail ≠ h.ringTx.head := by
      rw [← htail.add_mod]
      simpa [ringbufferFull, hl.tx_capacity, hl.tx_entrySize] using hnf
    rw [ne_eq, hj.updated_eq_iff htail hjH hjlap] at hne
    exact ⟨⟨htail, show H + 1 < P + r.slots by omega⟩, nofun⟩
  | skip hpc =>
    simp only [hpc] at hT
    exact ⟨⟨hT.1, hlap⟩, nofun⟩
  | push hpc =>
    simp only [hpc] at hT
    exact ⟨⟨hT.1.updated, hT.2⟩, nofun⟩
  | writeTxTail hpc =>
    simp only [hpc] at hT
    refine ⟨⟨hT.1, hT.2⟩, ?_⟩
    rintro o ⟨rfl⟩
    exact hT.1

end Tx

end UdpWorker

end NfpUdpEcho
