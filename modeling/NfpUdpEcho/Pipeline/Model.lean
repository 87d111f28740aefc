import NfpUdpEcho.Framework.System
import NfpUdpEcho.Host.UdpWorker

/-!
# The single-context echo pipeline

`rx_process` (`firmware/rx.c`), `udp_worker` (`user/app_main.c`) and `tx_process`
(`firmware/tx.c`) as three programs over one memory: the four ring offsets of `cfg` and the
two packet buffers. A step is one access to that memory, one byte of a DMA or of the
`memcpy`, the start or the end of a DMA, or the computation between two of these; steps of
the three programs come in any order, and an access sees the last write.

A packet is the `packet_size` bytes that `filter_packets` lets through. Packets that are
dropped touch neither ring and are left out. The histories `dmaed` and `sent` are the packets
`rx_process` has moved to the host and the packets `tx_process` has handed to `send_packet`.
-/

namespace NfpUdpEcho

open LTS ByteMem

/-- The ring offsets of `struct device_meta_t`. -/
structure DeviceMeta where
  rxHead : UInt32
  rxTail : UInt32
  txHead : UInt32
  txTail : UInt32
deriving DecidableEq, Repr

/-- Where `rx_process` is, with the locals that are live there. -/
inductive RxPc (n : ℕ) where
  /-- Receiving, filtering and rewriting the next packet. -/
  | receive
  | readTail (pkt : Fin n → UInt8)
  | pollHead (pkt : Fin n → UInt8) (tail updatedTail : UInt32)
  | dmaStart (pkt : Fin n → UInt8) (tail updatedTail : UInt32)
  /-- The DMA is under way and has written the bytes `done`. -/
  | dma (pkt : Fin n → UInt8) (tail updatedTail : UInt32) (done : Finset (Fin n))
  | writeTail (updatedTail : UInt32)

/-- Where `tx_process` is. `ctm` is the memory of the allocated packet. -/
inductive TxPc (n : ℕ) where
  | allocate
  | readHead (ctm : Mem)
  | pollTail (ctm : Mem) (head updatedHead : UInt32)
  | dmaStart (ctm : Mem) (head updatedHead : UInt32)
  /-- The DMA is under way and has fetched the bytes `done`. -/
  | dma (ctm : Mem) (head updatedHead : UInt32) (done : Finset (Fin n))
  | writeHead (ctm : Mem) (updatedHead : UInt32)
  | send (ctm : Mem)

structure Pipeline (n : ℕ) where
  cfg : DeviceMeta
  rxBuf : Mem
  txBuf : Mem
  rx : RxPc n
  host : UdpWorker n
  tx : TxPc n
  dmaed : List (Fin n → UInt8)
  sent : List (Fin n → UInt8)

inductive RxStep (n : ℕ) where
  | receive (pkt : Fin n → UInt8)
  | advance
  | dmaByte (i : Fin n)

inductive TxStep (n : ℕ) where
  | allocate (ctm : Mem)
  | advance
  | dmaByte (i : Fin n)

inductive PipelineStep (n : ℕ) where
  | rx (step : RxStep n)
  | host (step : HostStep n)
  | tx (step : TxStep n)

namespace Pipeline

variable {n : ℕ}

/-- One step of `rx_process`. -/
def rxNext (C p : UInt32) (s : Pipeline n) (step : RxStep n) : Option (Pipeline n) :=
  match step, s.rx with
  | .receive pkt, .receive => some { s with rx := .readTail pkt }
  | .advance, .readTail pkt =>
    some { s with rx := .pollHead pkt s.cfg.rxTail (updatedOffset C p s.cfg.rxTail) }
  | .advance, .pollHead pkt tail updatedTail =>
    -- the buffer is full: read `rx_head` again
    if updatedTail = s.cfg.rxHead then some s
    else some { s with rx := .dmaStart pkt tail updatedTail }
  | .advance, .dmaStart pkt tail updatedTail =>
    some { s with rx := .dma pkt tail updatedTail ∅ }
  | .dmaByte i, .dma pkt tail updatedTail done =>
    if i ∈ done then none
    else some { s with
      rxBuf := s.rxBuf.write (tail.toNat + i) (pkt i)
      rx := .dma pkt tail updatedTail (insert i done) }
  | .advance, .dma pkt _ updatedTail done =>
    if done = Finset.univ then
      some { s with rx := .writeTail updatedTail, dmaed := s.dmaed ++ [pkt] }
    else none
  | .advance, .writeTail updatedTail =>
    some { s with cfg := { s.cfg with rxTail := updatedTail }, rx := .receive }
  | _, _ => none

/-- One step of `tx_process`. -/
def txNext (C p : UInt32) (s : Pipeline n) (step : TxStep n) : Option (Pipeline n) :=
  match step, s.tx with
  | .allocate ctm, .allocate => some { s with tx := .readHead ctm }
  | .advance, .readHead ctm =>
    some { s with tx := .pollTail ctm s.cfg.txHead (updatedOffset C p s.cfg.txHead) }
  | .advance, .pollTail ctm head updatedHead =>
    -- the buffer is empty: read `tx_tail` again
    if head = s.cfg.txTail then some s
    else some { s with tx := .dmaStart ctm head updatedHead }
  | .advance, .dmaStart ctm head updatedHead =>
    some { s with tx := .dma ctm head updatedHead ∅ }
  | .dmaByte i, .dma ctm head updatedHead done =>
    if i ∈ done then none
    else some { s with
      tx := .dma (ctm.write (0 + i) (s.txBuf (head.toNat + i))) head updatedHead (insert i done) }
  | .advance, .dma ctm _ updatedHead done =>
    if done = Finset.univ then some { s with tx := .writeHead ctm updatedHead } else none
  | .advance, .writeHead ctm updatedHead =>
    some { s with cfg := { s.cfg with txHead := updatedHead }, tx := .send ctm }
  | .advance, .send ctm =>
    some { s with tx := .allocate, sent := s.sent ++ [region n ctm 0] }
  | _, _ => none

/-- The worker's writes reach the memory it shares with the device. -/
def apply (s : Pipeline n) (w : HostWrite) : Pipeline n :=
  match w with
  | .none => s
  | .txByte a b => { s with txBuf := s.txBuf.write a b }
  | .txTail v => { s with cfg := { s.cfg with txTail := v } }
  | .rxHead v => { s with cfg := { s.cfg with rxHead := v } }

/-- One step of `udp_worker`. -/
def hostNext (s : Pipeline n) (step : HostStep n) : Option (Pipeline n) :=
  (s.host.next ⟨s.cfg.rxTail, s.cfg.txHead, s.rxBuf⟩ step).map fun q =>
    { s with host := q.1 }.apply q.2

def next (C p : UInt32) (s : Pipeline n) : PipelineStep n → Option (Pipeline n)
  | .rx step => s.rxNext C p step
  | .host step => s.hostNext step
  | .tx step => s.txNext C p step

/-- The state `configure_device` leaves, with any contents of the buffers. -/
def initial (C p : UInt32) (rxBuf txBuf : Mem) : Pipeline p.toNat where
  cfg := ⟨0, 0, 0, 0⟩
  rxBuf := rxBuf
  txBuf := txBuf
  rx := .receive
  host := UdpWorker.initial C p
  tx := .allocate
  dmaed := []
  sent := []

/-! ### Slots in use -/

/-- `rx_process` is writing byte `a` of the RX buffer. -/
def RxWriting (s : Pipeline n) (a : ℕ) : Prop :=
  ∃ pkt tail updatedTail done, s.rx = .dma pkt tail updatedTail done ∧
    tail.toNat ≤ a ∧ a < tail.toNat + n

/-- `udp_worker` is reading byte `a` of the RX buffer. -/
def HostReading (s : Pipeline n) (a : ℕ) : Prop :=
  ∃ done, s.host.pc = .copy done ∧ s.host.ringRx.head.toNat ≤ a ∧
    a < s.host.ringRx.head.toNat + n

/-- `udp_worker` is writing byte `a` of the TX buffer. -/
def HostWriting (s : Pipeline n) (a : ℕ) : Prop :=
  ∃ done, s.host.pc = .copy done ∧ s.host.ringTx.tail.toNat ≤ a ∧
    a < s.host.ringTx.tail.toNat + n

/-- `tx_process` is reading byte `a` of the TX buffer. -/
def TxReading (s : Pipeline n) (a : ℕ) : Prop :=
  ∃ ctm head updatedHead done, s.tx = .dma ctm head updatedHead done ∧
    head.toNat ≤ a ∧ a < head.toNat + n

end Pipeline

/-- The three programs on one memory. -/
def pipelineSystem (C p : UInt32) : System (Pipeline p.toNat) (PipelineStep p.toNat) :=
  .ofStep (fun s => ∃ rxBuf txBuf, s = Pipeline.initial C p rxBuf txBuf) (Pipeline.next C p)

/-- **What the pipeline promises.** -/
structure PipelineOk {n : ℕ} (s : Pipeline n) : Prop where
  /-- What is sent is a prefix of what was received: nothing is lost, duplicated, reordered
  or overwritten. -/
  fifo : s.sent <+: s.dmaed
  /-- No byte of a ring is written by one program while another reads it. -/
  rx_exclusive : ∀ a, s.RxWriting a → ¬ s.HostReading a
  tx_exclusive : ∀ a, s.HostWriting a → ¬ s.TxReading a
  /-- The assertions of `ringbuffer_push` and `ringbuffer_pop` hold. -/
  asserts : s.host.pc ≠ .aborted

end NfpUdpEcho
