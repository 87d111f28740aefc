import NfpUdpEcho.Pipeline.Model

/-!
# Safety of the echo pipeline

`PipelineInv` ties the offsets, the program counters and the two buffers to four counts, the
number of times each of the four shared offsets has been written. A slot of the RX ring
between the consumed and the received count holds its packet, and so does a slot of the TX
ring between the sent and the published count; each program works on a slot outside the range
of the others. One lemma for each program says that its steps preserve the invariant, and
`PipelineOk` is read off it.

The counts are ghost state: the program keeps offsets, and an offset of a ring denotes its count
modulo the slots. Every comparison of offsets in the three programs is turned into one of counts by
a lemma of `Ring.Config` that holds as long as the two counts are less than a lap apart, which is
what `rx_room`, `tx_le` and the worker's own `RxOk` and `TxOk` say.

* `PipelineInv.rxStep`: the slot `rx_process` fills lies behind all that are in use
  (`RingConfig.off_add_ne`), and joins them when its last byte has arrived.
* `PipelineInv.hostStep`: the worker publishes to TX before it releases to RX, so that between the
  two writes the packet is in both rings and never in none. `RxPcOk.release` and `TxPcOk.publish`
  say that the other two programs can only gain from its writes.
* `PipelineInv.txStep`: what `tx_process` reads is published and not given back, so that the copy it
  sends is the next packet of `dmaed`.
-/

namespace NfpUdpEcho

open LTS ByteMem

/-- The bytes `done` of the `q`-th packet received are in memory at `off`. -/
def Carries {n : ℕ} (dmaed : List (Fin n → UInt8)) (q : ℕ) (m : Mem) (off : ℕ)
    (done : Finset (Fin n)) : Prop :=
  ∃ pkt, dmaed[q]? = some pkt ∧ Holds m off pkt done

section Carries

variable {n : ℕ} {dmaed : List (Fin n → UInt8)} {q off off' : ℕ} {m m' : Mem}
  {done : Finset (Fin n)}

/-- A packet carried has been received. -/
theorem Carries.lt (h : Carries dmaed q m off done) : q < dmaed.length := by
  obtain ⟨pkt, hpkt, -⟩ := h
  exact (List.getElem?_eq_some_iff.mp hpkt).1

/-- No byte has to have arrived yet. -/
theorem Carries.empty (h : q < dmaed.length) : Carries dmaed q m off ∅ :=
  ⟨_, List.getElem?_eq_getElem h, Holds.empty⟩

/-- Later packets do not change what the `q`-th is. -/
theorem Carries.append (h : Carries dmaed q m off done) (l : List (Fin n → UInt8)) :
    Carries (dmaed ++ l) q m off done := by
  have hlt := h.lt
  obtain ⟨pkt, hpkt, hm⟩ := h
  exact ⟨pkt, by rw [List.getElem?_append_left hlt, hpkt], hm⟩

/-- One more byte, read where the whole packet is. -/
theorem Carries.insert (h : Carries dmaed q m off done)
    (h' : Carries dmaed q m' off' Finset.univ) (i : Fin n) :
    Carries dmaed q (m.write (off + i) (m' (off' + i))) off (insert i done) := by
  obtain ⟨pkt, hpkt, hm⟩ := h
  obtain ⟨pkt', hpkt', hm'⟩ := h'
  obtain rfl : pkt' = pkt := Option.some.inj (hpkt'.symm.trans hpkt)
  exact ⟨pkt', hpkt, hm.insert (hm'.byte i)⟩

/-- A write outside the packet's bytes leaves it where it is. -/
theorem Carries.frame {a : ℕ} {b : UInt8} (h : Carries dmaed q m off done)
    (ha : ∀ j : Fin n, off + j ≠ a) : Carries dmaed q (m.write a b) off done := by
  obtain ⟨pkt, hpkt, hm⟩ := h
  exact ⟨pkt, hpkt, hm.frame ha⟩

end Carries

/-- How often each of the four offsets has been written. -/
structure Counts where
  rxHead : ℕ
  rxTail : ℕ
  txHead : ℕ
  txTail : ℕ

/-- A prefix and the next entry. -/
theorem prefix_snoc {α : Type} {l l' : List α} {a : α} (h : l <+: l')
    (ha : l'[l.length]? = some a) : l ++ [a] <+: l' := by
  obtain ⟨t, rfl⟩ := h
  rw [List.getElem?_append_right le_rfl, Nat.sub_self] at ha
  cases t with
  | nil => cases ha
  | cons b t =>
    obtain rfl : b = a := Option.some.inj ha
    exact ⟨t, by simp⟩

/-- What is known where `rx_process` is. `received` packets are in `dmaed`. -/
def RxPcOk {n : ℕ} (r : RingConfig) (k : Counts) (rxBuf : Mem) (received : ℕ) : RxPc n → Prop
  | .receive | .readTail _ => received = k.rxTail
  | .pollHead _ tail updatedTail =>
    received = k.rxTail ∧ r.Denotes tail k.rxTail ∧
      updatedTail = updatedOffset r.capacity r.packetSize tail
  -- the ring was not full when the head was read, and heads only grow
  | .dmaStart _ tail updatedTail =>
    received = k.rxTail ∧ r.Denotes tail k.rxTail ∧
      updatedTail = updatedOffset r.capacity r.packetSize tail ∧ k.rxTail + 1 < k.rxHead + r.slots
  | .dma pkt tail updatedTail done =>
    received = k.rxTail ∧ r.Denotes tail k.rxTail ∧
      updatedTail = updatedOffset r.capacity r.packetSize tail ∧
      k.rxTail + 1 < k.rxHead + r.slots ∧ Holds rxBuf (r.off k.rxTail) pkt done
  -- the packet is counted as received from its last byte on, and published by this write
  | .writeTail updatedTail =>
    received = k.rxTail + 1 ∧ r.Denotes updatedTail (k.rxTail + 1) ∧
      k.rxTail + 1 < k.rxHead + r.slots

/-- What is known where `udp_worker` is: how far the two counts it writes are apart, and how
much of the packet it copies has arrived. -/
def HostPcOk {n : ℕ} (r : RingConfig) (k : Counts) (txBuf : Mem) (dmaed : List (Fin n → UInt8)) :
    HostPc n → Prop
  | .copy done => k.txTail = k.rxHead ∧ Carries dmaed k.rxHead txBuf (r.off k.txTail) done
  | .pop | .push | .writeTxTail =>
    k.txTail = k.rxHead ∧ Carries dmaed k.rxHead txBuf (r.off k.txTail) Finset.univ
  -- between the two writes the packet is published and its slot not released
  | .writeRxHead => k.txTail = k.rxHead + 1
  | .readRxTail | .readTxHead | .test | .aborted => k.txTail = k.rxHead

/-- What is known where `tx_process` is, `sent` packets having been sent. -/
def TxPcOk {n : ℕ} (r : RingConfig) (k : Counts) (dmaed : List (Fin n → UInt8)) (sent : ℕ) :
    TxPc n → Prop
  | .allocate | .readHead _ => sent = k.txHead
  | .pollTail _ head updatedHead =>
    sent = k.txHead ∧ r.Denotes head k.txHead ∧
      updatedHead = updatedOffset r.capacity r.packetSize head
  | .dmaStart _ head updatedHead =>
    sent = k.txHead ∧ r.Denotes head k.txHead ∧
      updatedHead = updatedOffset r.capacity r.packetSize head ∧ k.txHead < k.txTail
  | .dma ctm head updatedHead done =>
    sent = k.txHead ∧ r.Denotes head k.txHead ∧
      updatedHead = updatedOffset r.capacity r.packetSize head ∧ k.txHead < k.txTail ∧
      Carries dmaed k.txHead ctm 0 done
  | .writeHead ctm updatedHead =>
    sent = k.txHead ∧ r.Denotes updatedHead (k.txHead + 1) ∧ k.txHead < k.txTail ∧
      Carries dmaed k.txHead ctm 0 Finset.univ
  -- the slot is given back before the copy is sent
  | .send ctm => sent + 1 = k.txHead ∧ Carries dmaed sent ctm 0 Finset.univ

/-- The invariant of the pipeline. -/
structure PipelineInv {n : ℕ} (r : RingConfig) (s : Pipeline n) (k : Counts) : Prop where
  rxHead : r.Denotes s.cfg.rxHead k.rxHead
  rxTail : r.Denotes s.cfg.rxTail k.rxTail
  txHead : r.Denotes s.cfg.txHead k.txHead
  txTail : r.Denotes s.cfg.txTail k.txTail
  locals : s.host.LocalOk r
  hostRx : s.host.RxOk r k.rxHead k.rxTail
  hostTx : s.host.TxOk r k.txTail k.txHead
  rx : RxPcOk r k s.rxBuf s.dmaed.length s.rx
  host : HostPcOk r k s.txBuf s.dmaed s.host.pc
  tx : TxPcOk r k s.dmaed s.sent.length s.tx
  rx_room : k.rxTail < k.rxHead + r.slots
  tx_le : k.txHead ≤ k.txTail
  /-- The RX ring holds the packets received and not released. -/
  rx_live : ∀ q, k.rxHead ≤ q → q < s.dmaed.length →
    Carries s.dmaed q s.rxBuf (r.off q) Finset.univ
  /-- The TX ring holds the packets published and not taken. -/
  tx_live : ∀ q, k.txHead ≤ q → q < k.txTail →
    Carries s.dmaed q s.txBuf (r.off q) Finset.univ
  sent : s.sent <+: s.dmaed

section

variable {r : RingConfig} {k : Counts} {s s' : Pipeline r.packetSize.toNat}

/-- Before the first step nothing has been written and nothing received. -/
theorem PipelineInv.initial (r : RingConfig) (rxBuf txBuf : Mem) :
    PipelineInv r (Pipeline.initial r.capacity r.packetSize rxBuf txBuf) ⟨0, 0, 0, 0⟩ where
  rxHead := r.denotes_zero
  rxTail := r.denotes_zero
  txHead := r.denotes_zero
  txTail := r.denotes_zero
  locals := UdpWorker.LocalOk.initial r
  hostRx := UdpWorker.RxOk.initial r
  hostTx := UdpWorker.TxOk.initial r
  rx := rfl
  host := rfl
  tx := rfl
  rx_room := Nat.lt_of_lt_of_le r.slots_pos (Nat.le_add_left _ _)
  tx_le := le_rfl
  rx_live := by simp [Pipeline.initial]
  tx_live := by simp
  sent := List.prefix_rfl

/-- The published packets have been received. -/
theorem PipelineInv.rxTail_le (hI : PipelineInv r s k) : k.rxTail ≤ s.dmaed.length := by
  have h := hI.rx
  -- one behind while the tail is to be written, equal everywhere else
  cases hpc : s.rx <;> simp only [hpc, RxPcOk] at h <;> omega

/-- What the worker has published to TX was published to it. -/
theorem PipelineInv.txTail_le (hI : PipelineInv r s k) : k.txTail ≤ k.rxTail := by
  have hle := hI.hostRx.le
  have h := hI.host
  have hrx := hI.hostRx
  -- the worker is past its test of the ring when it publishes
  unfold UdpWorker.RxOk at hrx
  cases hpc : s.host.pc <;> simp only [hpc, HostPcOk] at h hrx <;> omega

/-- Slots less than a lap apart share no byte. -/
theorem RingConfig.off_add_ne {a b : ℕ} (hab : a ≠ b) (hb : b < a + r.slots)
    (ha : a < b + r.slots) (i j : Fin r.packetSize.toNat) : r.off a + i ≠ r.off b + j := by
  intro h
  have hoff := (RingConfig.off_bytes_disjoint i.isLt j.isLt h).1
  rcases Nat.lt_or_gt_of_ne hab with hlt | hgt
  · exact hab ((RingConfig.off_eq_iff hlt.le hb).mp hoff)
  · exact hab ((RingConfig.off_eq_iff hgt.le ha).mp hoff.symm).symm

/-! ### Steps of `rx_process` -/

/-- The worker does not see a packet that arrives. -/
theorem HostPcOk.append {txBuf : Mem} {n : ℕ} {dmaed : List (Fin n → UInt8)} {pc : HostPc n}
    (h : HostPcOk r k txBuf dmaed pc) (l : List (Fin n → UInt8)) :
    HostPcOk r k txBuf (dmaed ++ l) pc := by
  cases pc with
  | copy | pop | push | writeTxTail => exact ⟨h.1, h.2.append l⟩
  | readRxTail | readTxHead | test | writeRxHead | aborted => exact h

/-- Neither does `tx_process`. -/
theorem TxPcOk.append {n sent : ℕ} {dmaed : List (Fin n → UInt8)} {pc : TxPc n}
    (h : TxPcOk r k dmaed sent pc) (l : List (Fin n → UInt8)) :
    TxPcOk r k (dmaed ++ l) sent pc := by
  cases pc with
  | dma => exact ⟨h.1, h.2.1, h.2.2.1, h.2.2.2.1, h.2.2.2.2.append l⟩
  | writeHead => exact ⟨h.1, h.2.1, h.2.2.1, h.2.2.2.append l⟩
  | send => exact ⟨h.1, h.2.append l⟩
  | allocate | readHead | pollTail | dmaStart => exact h

/-- **A step of `rx_process`.** -/
theorem PipelineInv.rxStep {l : RxStep r.packetSize.toNat} (hI : PipelineInv r s k)
    (hs : s.rxNext r.capacity r.packetSize l = some s') : ∃ k', PipelineInv r s' k' := by
  have hrx := hI.rx
  have hle := hI.hostRx.le
  unfold Pipeline.rxNext at hs
  split at hs
  -- receive
  case h_1 pkt hpc =>
    obtain rfl := Option.some.inj hs
    rw [hpc] at hrx
    exact ⟨k, { hI with rx := hrx }⟩
  -- the tail is read
  case h_2 pkt hpc =>
    obtain rfl := Option.some.inj hs
    rw [hpc] at hrx
    exact ⟨k, { hI with rx := ⟨hrx, hI.rxTail, rfl⟩ }⟩
  -- the head is polled
  case h_3 pkt tail updatedTail hpc =>
    rw [hpc] at hrx
    obtain ⟨hlen, htail, rfl⟩ := hrx
    split at hs
    · obtain rfl := Option.some.inj hs
      exact ⟨k, hI⟩
    · next hfree =>
      obtain rfl := Option.some.inj hs
      -- the head read is at most as far as the head will be while the slot is filled
      rw [hI.rxHead.updated_eq_iff htail hle hI.rx_room] at hfree
      have hroom := hI.rx_room
      exact ⟨k, { hI with rx := ⟨hlen, htail, rfl, by omega⟩ }⟩
  -- the DMA begins
  case h_4 pkt tail updatedTail hpc =>
    obtain rfl := Option.some.inj hs
    rw [hpc] at hrx
    obtain ⟨hlen, htail, hup, hroom⟩ := hrx
    exact ⟨k, { hI with rx := ⟨hlen, htail, hup, hroom, Holds.empty⟩ }⟩
  -- one byte of it arrives
  case h_5 i pkt tail updatedTail done hpc =>
    obtain ⟨-, hs⟩ := Option.ite_none_left_eq_some.mp hs
    obtain rfl := Option.some.inj hs
    rw [hpc] at hrx
    obtain ⟨hlen, htail, hup, hroom, hholds⟩ := hrx
    refine ⟨k, { hI with rx := ⟨hlen, htail, hup, hroom, ?_⟩, rx_live := ?_ }⟩
    · rw [htail]
      exact hholds.insert rfl
    · -- the slot being filled is none of those in use
      intro q hq (hqlt : q < s.dmaed.length)
      refine (hI.rx_live q hq hqlt).frame fun j => ?_
      rw [htail]
      exact RingConfig.off_add_ne (by omega) (by omega) (by omega) j i
  -- all have arrived
  case h_6 pkt tail updatedTail done hpc =>
    obtain ⟨hdone, hs⟩ := Option.ite_none_right_eq_some.mp hs
    obtain rfl := Option.some.inj hs
    rw [hpc] at hrx
    obtain ⟨hlen, htail, hup, hroom, hholds⟩ := hrx
    refine ⟨k, { hI with
      rx := ⟨?_, hup ▸ htail.updated, hroom⟩
      host := hI.host.append [pkt]
      tx := hI.tx.append [pkt]
      rx_live := ?_
      tx_live := fun q hq hqlt => (hI.tx_live q hq hqlt).append [pkt]
      sent := hI.sent.trans (List.prefix_append _ _) }⟩
    · rw [List.length_append, hlen, List.length_singleton]
    · -- the slot that was filled is in use now
      intro q hq hqlt
      rw [List.length_append, List.length_singleton] at hqlt
      rcases Nat.lt_or_eq_of_le (Nat.le_of_lt_succ hqlt) with hlt | rfl
      · exact (hI.rx_live q hq hlt).append [pkt]
      · exact ⟨pkt, by simp, hlen ▸ hdone ▸ hholds⟩
  -- the tail is written: the slot is the worker's
  case h_7 updatedTail hpc =>
    obtain rfl := Option.some.inj hs
    rw [hpc] at hrx
    obtain ⟨hlen, hup, hroom⟩ := hrx
    exact ⟨{ k with rxTail := k.rxTail + 1 }, { hI with
      rxTail := hup
      hostRx := hI.hostRx.mono (Nat.le_succ _)
      rx := hlen
      rx_room := hroom }⟩
  case h_8 => cases hs

/-! ### Steps of `udp_worker` -/

/-- A slot released leaves `rx_process` where it is. -/
theorem RxPcOk.release {n received : ℕ} {rxBuf : Mem} {pc : RxPc n}
    (h : RxPcOk r k rxBuf received pc) :
    RxPcOk r { k with rxHead := k.rxHead + 1 } rxBuf received pc := by
  have hroom : ∀ {t}, t < k.rxHead + r.slots → t < k.rxHead + 1 + r.slots := by omega
  cases pc with
  | dmaStart => exact ⟨h.1, h.2.1, h.2.2.1, hroom h.2.2.2⟩
  | dma => exact ⟨h.1, h.2.1, h.2.2.1, hroom h.2.2.2.1, h.2.2.2.2⟩
  | writeTail => exact ⟨h.1, h.2.1, hroom h.2.2⟩
  | receive | readTail | pollHead => exact h

/-- A slot published leaves `tx_process` where it is. -/
theorem TxPcOk.publish {n sent : ℕ} {dmaed : List (Fin n → UInt8)} {pc : TxPc n}
    (h : TxPcOk r k dmaed sent pc) : TxPcOk r { k with txTail := k.txTail + 1 } dmaed sent pc := by
  cases pc with
  | dmaStart => exact ⟨h.1, h.2.1, h.2.2.1, Nat.lt_succ_of_lt h.2.2.2⟩
  | dma => exact ⟨h.1, h.2.1, h.2.2.1, Nat.lt_succ_of_lt h.2.2.2.1, h.2.2.2.2⟩
  | writeHead => exact ⟨h.1, h.2.1, Nat.lt_succ_of_lt h.2.2.1, h.2.2.2⟩
  | allocate | readHead | pollTail | send => exact h

/-- The worker's write of one byte of the packet it copies. -/
theorem PipelineInv.copyByte (hI : PipelineInv r s k) {done : Finset (Fin r.packetSize.toNat)}
    {h' : UdpWorker r.packetSize.toNat} {w : HostWrite} {i : Fin r.packetSize.toNat}
    (hpc : s.host.pc = .copy done)
    (hnext : s.host.next ⟨s.cfg.rxTail, s.cfg.txHead, s.rxBuf⟩ (.copyByte i) = some (h', w)) :
    PipelineInv r ({ s with host := h' }.apply w) k := by
  have hlocal := hI.locals.step hnext
  have hrx := (hI.hostRx.step hI.locals hI.rxTail hI.rx_room hnext).1
  have htx := (hI.hostTx.step hI.locals hI.txHead hI.tx_le hnext).1
  cases UdpWorker.next_effect hI.locals hnext with
  | @copyByte _ done' hpc' hi =>
    obtain rfl : done' = done := HostPc.copy.inj (hpc'.symm.trans hpc)
    have hold := hI.host
    have hhostRx := hI.hostRx
    have hhostTx := hI.hostTx
    unfold UdpWorker.RxOk at hhostRx
    unfold UdpWorker.TxOk at hhostTx
    simp only [hpc] at hold hhostRx hhostTx
    -- the slot the worker reads has not been released, so that its packet is there
    have hsrc := hI.rx_live k.rxHead le_rfl (hhostRx.2.trans_le hI.rxTail_le)
    refine { hI with
      locals := hlocal
      hostRx := hrx
      hostTx := htx
      host := ⟨hold.1, ?_⟩
      tx_live := ?_ }
    · have hcopied := hold.2.insert hsrc i
      rw [← hhostRx.1, ← hhostTx.1] at hcopied
      rw [← hhostTx.1]
      exact hcopied
    · -- the slot being filled is not one that is waiting to be sent
      intro q hq hqlt
      refine (hI.tx_live q hq hqlt).frame fun j => ?_
      rw [hhostTx.1]
      exact RingConfig.off_add_ne (by omega) (by omega) (by omega) j i

/-- **A step of `udp_worker`.** -/
theorem PipelineInv.hostStep {l : HostStep r.packetSize.toNat} (hI : PipelineInv r s k)
    (hs : s.hostNext l = some s') : ∃ k', PipelineInv r s' k' := by
  obtain ⟨⟨h', w⟩, hnext, rfl⟩ := Option.map_eq_some_iff.mp hs
  have hlocal := hI.locals.step hnext
  obtain ⟨hrx, hrxw⟩ := hI.hostRx.step hI.locals hI.rxTail hI.rx_room hnext
  obtain ⟨htx, htxw⟩ := hI.hostTx.step hI.locals hI.txHead hI.tx_le hnext
  have hold := hI.host
  have hhostRx := hI.hostRx
  have hhostTx := hI.hostTx
  unfold UdpWorker.RxOk at hhostRx
  unfold UdpWorker.TxOk at hhostTx
  cases UdpWorker.next_effect hI.locals hnext with
  -- what the worker does to its own rings moves no packet
  | readRxTail hpc | readTxHead hpc | skip hpc | copyEnd hpc | pop hpc | push hpc =>
    rw [hpc] at hold
    exact ⟨k, { hI with locals := hlocal, hostRx := hrx, hostTx := htx, host := hold }⟩
  -- both rings passed the test, and the copy begins with nothing
  | enter hpc _ _ =>
    simp only [hpc] at hold hhostRx
    have hlt : k.rxHead < s.dmaed.length := by
      have hle := hI.rxTail_le
      have hrxok := hrx.2
      omega
    exact ⟨k, { hI with
      locals := hlocal, hostRx := hrx, hostTx := htx, host := ⟨hold, Carries.empty hlt⟩ }⟩
  | copyByte hpc _ => exact ⟨k, hI.copyByte hpc hnext⟩
  | writeTxTail hpc =>
    simp only [hpc] at hold
    refine ⟨{ k with txTail := k.txTail + 1 }, { hI with
      txTail := htxw _ rfl
      locals := hlocal
      hostRx := hrx
      hostTx := htx
      host := show k.txTail + 1 = k.rxHead + 1 by rw [hold.1]
      tx := ?_
      tx_le := hI.tx_le.trans (Nat.le_succ _)
      tx_live := ?_ }⟩
    · exact hI.tx.publish
    · -- the packet just published is the one just copied
      intro q hq (hqlt : q < k.txTail + 1)
      rcases Nat.lt_or_eq_of_le (Nat.le_of_lt_succ hqlt) with hlt | rfl
      · exact hI.tx_live q hq hlt
      · exact hold.1 ▸ hold.2
  | writeRxHead hpc =>
    -- the slot is given back after its copy has been published
    simp only [hpc] at hold
    refine ⟨{ k with rxHead := k.rxHead + 1 }, { hI with
      rxHead := hrxw _ rfl
      locals := hlocal
      hostRx := hrx
      hostTx := htx
      rx := hI.rx.release
      host := hold
      rx_room := hI.rx_room.trans (Nat.add_lt_add_right (Nat.lt_succ_self _) _)
      rx_live := fun q hq => hI.rx_live q ((Nat.le_succ _).trans hq) }⟩

/-! ### Steps of `tx_process` -/

/-- **A step of `tx_process`.** -/
theorem PipelineInv.txStep {l : TxStep r.packetSize.toNat} (hI : PipelineInv r s k)
    (hs : s.txNext r.capacity r.packetSize l = some s') : ∃ k', PipelineInv r s' k' := by
  have htx := hI.tx
  unfold Pipeline.txNext at hs
  split at hs
  -- a buffer in the CTM
  case h_1 ctm hpc =>
    obtain rfl := Option.some.inj hs
    rw [hpc] at htx
    exact ⟨k, { hI with tx := htx }⟩
  -- the head is read
  case h_2 ctm hpc =>
    obtain rfl := Option.some.inj hs
    rw [hpc] at htx
    exact ⟨k, { hI with tx := ⟨htx, hI.txHead, rfl⟩ }⟩
  -- the tail is polled
  case h_3 ctm head updatedHead hpc =>
    rw [hpc] at htx
    obtain ⟨hlen, hhead, hup⟩ := htx
    split at hs
    · obtain rfl := Option.some.inj hs
      exact ⟨k, hI⟩
    · next hne =>
      obtain rfl := Option.some.inj hs
      -- the offsets differ, so that a packet has been published
      rw [hhead.eq_iff hI.txTail hI.tx_le hI.hostTx.lt_lap] at hne
      exact ⟨k, { hI with tx := ⟨hlen, hhead, hup, lt_of_le_of_ne hI.tx_le hne⟩ }⟩
  -- the DMA begins
  case h_4 ctm head updatedHead hpc =>
    obtain rfl := Option.some.inj hs
    rw [hpc] at htx
    obtain ⟨hlen, hhead, hup, hlt⟩ := htx
    -- what was published was received
    have hrec : k.txHead < s.dmaed.length := hlt.trans_le (hI.txTail_le.trans hI.rxTail_le)
    exact ⟨k, { hI with tx := ⟨hlen, hhead, hup, hlt, Carries.empty hrec⟩ }⟩
  -- one byte of it arrives
  case h_5 i ctm head updatedHead done hpc =>
    obtain ⟨-, hs⟩ := Option.ite_none_left_eq_some.mp hs
    obtain rfl := Option.some.inj hs
    rw [hpc] at htx
    obtain ⟨hlen, hhead, hup, hlt, hgot⟩ := htx
    refine ⟨k, { hI with tx := ⟨hlen, hhead, hup, hlt, ?_⟩ }⟩
    -- the slot is not given back yet, so that it has its packet
    rw [hhead]
    exact hgot.insert (hI.tx_live k.txHead le_rfl hlt) i
  -- all have arrived
  case h_6 ctm head updatedHead done hpc =>
    obtain ⟨hdone, hs⟩ := Option.ite_none_right_eq_some.mp hs
    obtain rfl := Option.some.inj hs
    rw [hpc] at htx
    obtain ⟨hlen, hhead, hup, hlt, hgot⟩ := htx
    exact ⟨k, { hI with tx := ⟨hlen, hup ▸ hhead.updated, hlt, hdone ▸ hgot⟩ }⟩
  -- the head is written: the slot is the worker's again
  case h_7 ctm updatedHead hpc =>
    obtain rfl := Option.some.inj hs
    rw [hpc] at htx
    obtain ⟨hlen, hup, hlt, hgot⟩ := htx
    exact ⟨{ k with txHead := k.txHead + 1 }, { hI with
      txHead := hup
      hostTx := hI.hostTx.mono (Nat.le_succ _)
      tx := ⟨congrArg (· + 1) hlen, hlen ▸ hgot⟩
      tx_le := hlt
      tx_live := fun q hq => hI.tx_live q ((Nat.le_succ _).trans hq) }⟩
  -- the copy is sent
  case h_8 ctm hpc =>
    obtain rfl := Option.some.inj hs
    rw [hpc] at htx
    obtain ⟨hlen, pkt, hpkt, hgot⟩ := htx
    refine ⟨k, { hI with tx := ?_, sent := ?_ }⟩
    · show (s.sent ++ [region _ ctm 0]).length = k.txHead
      rw [List.length_append, List.length_singleton, hlen]
    · -- what is sent is the next packet received
      have hregion : region r.packetSize.toNat ctm 0 = pkt := funext fun i => hgot.byte i
      rw [hregion]
      exact prefix_snoc hI.sent hpkt
  case h_9 => cases hs

/-- **The invariant holds in every reachable state**, for some counts. -/
theorem PipelineInv.of_reachable
    (h : (pipelineSystem r.capacity r.packetSize).Reachable s) : ∃ k, PipelineInv r s k := by
  have hinit : ∀ s : Pipeline r.packetSize.toNat,
      (∃ m m', s = Pipeline.initial r.capacity r.packetSize m m') → ∃ k, PipelineInv r s k := by
    rintro s ⟨m, m', rfl⟩
    exact ⟨_, PipelineInv.initial r m m'⟩
  have hstep : ∀ (s : Pipeline r.packetSize.toNat) l s', (∃ k, PipelineInv r s k) →
      Pipeline.next r.capacity r.packetSize s l = some s' → ∃ k, PipelineInv r s' k := by
    rintro s (l | l | l) s' ⟨k, hI⟩ hs
    · exact hI.rxStep hs
    · exact hI.hostStep hs
    · exact hI.txStep hs
  exact h.invariant hinit hstep

/-- What the invariant says of the packets and of the bytes being written. -/
theorem PipelineInv.ok (hI : PipelineInv r s k) : PipelineOk s where
  fifo := hI.sent
  rx_exclusive := by
    rintro a ⟨pkt, tail, up, done, hpc, hlo, hhi⟩ ⟨done', hpc', hlo', hhi'⟩
    have hrx := hI.rx
    have hhost := hI.hostRx
    unfold UdpWorker.RxOk at hhost
    rw [hpc] at hrx
    simp only [hpc'] at hhost
    -- the two slots are less than a lap apart
    obtain ⟨-, htail, -, hroom, -⟩ := hrx
    rw [htail] at hlo hhi
    rw [hhost.1] at hlo' hhi'
    have hne := RingConfig.off_add_ne (r := r) (a := k.rxTail) (b := k.rxHead) (by omega) (by omega)
      (by omega) ⟨a - r.off k.rxTail, by omega⟩ ⟨a - r.off k.rxHead, by omega⟩
    exact hne (by simp only; omega)
  tx_exclusive := by
    rintro a ⟨done, hpc, hlo, hhi⟩ ⟨ctm, head, up, done', hpc', hlo', hhi'⟩
    have htx := hI.tx
    have hhost := hI.hostTx
    unfold UdpWorker.TxOk at hhost
    rw [hpc'] at htx
    simp only [hpc] at hhost
    obtain ⟨-, hhead, -, hlt, -⟩ := htx
    rw [hhost.1] at hlo hhi
    rw [hhead] at hlo' hhi'
    have hne := RingConfig.off_add_ne (r := r) (a := k.txTail) (b := k.txHead) (by omega) (by omega)
      (by omega) ⟨a - r.off k.txTail, by omega⟩ ⟨a - r.off k.txHead, by omega⟩
    exact hne (by simp only; omega)
  asserts := hI.locals.not_aborted

end

/-- The single-context pipeline keeps its promises in every reachable state, for every
buffer of a whole number of packets. -/
theorem pipelineOk_of_reachable (r : RingConfig) (s : Pipeline r.packetSize.toNat)
    (h : (pipelineSystem r.capacity r.packetSize).Reachable s) : PipelineOk s := by
  obtain ⟨k, hI⟩ := PipelineInv.of_reachable h
  exact hI.ok

/-- A one-byte packet goes all the way through a ring of two slots. -/
theorem pipelineOk_one_packet : ∃ s : Pipeline (UInt32.toNat 1),
    (pipelineSystem 2 1).Reachable s ∧ s.sent.map (· ⟨0, by decide⟩) = [7] ∧ PipelineOk s := by
  have hrun : (runLabels (Pipeline.next 2 1) (Pipeline.initial 2 1 (fun _ => 0) fun _ => 0)
      [.rx (.receive fun _ => 7), .rx .advance, .rx .advance, .rx .advance,
        .rx (.dmaByte ⟨0, by decide⟩), .rx .advance, .rx .advance,
        .host .advance, .host .advance, .host .advance, .host (.copyByte ⟨0, by decide⟩),
        .host .advance, .host .advance, .host .advance, .host .advance, .host .advance,
        .tx (.allocate fun _ => 0), .tx .advance, .tx .advance, .tx .advance,
        .tx (.dmaByte ⟨0, by decide⟩), .tx .advance, .tx .advance, .tx .advance]).map
      (·.sent.map (· ⟨0, by decide⟩)) = some [7] := by decide
  obtain ⟨s, hreach, hsent⟩ := System.Reachable.of_run
    (fun s => ∃ m m', s = Pipeline.initial 2 1 m m') _ ⟨_, _, rfl⟩ hrun
  exact ⟨s, hreach, hsent, pipelineOk_of_reachable .twoBytes s hreach⟩

end NfpUdpEcho
