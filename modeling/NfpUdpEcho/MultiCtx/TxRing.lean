import NfpUdpEcho.Framework.System
import NfpUdpEcho.Host.UdpWorker
import NfpUdpEcho.MultiCtx.Publish

/-!
# The TX ring under `multi_tx.c`

`udp_worker` fills slots of the TX ring and publishes them by stepping `cfg.tx_tail`; the
contexts of `multi_tx.c` reserve them by stepping `shadow_head` and fetch them by DMA. The
empty test compares `shadow_head` as it is with `cfg.tx_tail` as it was before the context
lost the processor. If another context takes the last published slot in between, the two
differ although the ring is empty, and a slot the host never filled is transmitted.

`TailFresh` is the condition that this does not happen. As long as every reservation of a run
meets it, each byte fetched is a byte of the packet the host published under that number
(`TxRingInv.step`), and the first that misses it passes the host (`multiTx_safe_iff`).
-/

namespace NfpUdpEcho

open LTS ByteMem

/-- The TX ring, its producer and its `K` consuming contexts. The last two fields are
histories: the contents of each slot when it was published, and the bytes the DMA engine has
fetched, with the number of the reservation they were fetched for. -/
structure MultiTx (K n : ℕ) where
  eng : Engine K
  txTail : UInt32
  txBuf : Mem
  host : UdpWorker n
  packets : List (Fin n → UInt8)
  reads : List (ℕ × Fin n × UInt8)

inductive MultiTxStep (K n : ℕ) where
  | ctx (c : Fin K) (step : CtxStep)
  /-- A byte of the packet context `c` waits for is fetched. -/
  | dmaRead (c : Fin K) (i : Fin n)
  /-- `rxTail` and `rxBuf` are what the RX side shows the worker at this step. -/
  | host (rxTail : UInt32) (rxBuf : Mem) (step : HostStep n)

namespace MultiTx

variable {K n : ℕ}

def initial (C p : UInt32) (K : ℕ) (txBuf : Mem) : MultiTx K p.toNat where
  eng := Engine.initial K
  txTail := 0
  txBuf := txBuf
  host := UdpWorker.initial C p
  packets := []
  reads := []

/-- A write of the worker. The slot published by a write of `cfg.tx_tail` is the one at its
old value. -/
def apply (s : MultiTx K n) (w : HostWrite) : MultiTx K n :=
  match w with
  | .txByte a b => { s with txBuf := s.txBuf.write a b }
  | .txTail v =>
    { s with txTail := v, packets := s.packets ++ [region n s.txBuf s.txTail.toNat] }
  | .none | .rxHead _ => s

def next (C p : UInt32) (s : MultiTx K n) : MultiTxStep K n → Option (MultiTx K n)
  | .ctx c step => (multiTxContext C p s.txTail s.eng c step).map fun e => { s with eng := e }
  | .dmaRead c i =>
    match s.eng.ctx c with
    | .dma a => some { s with reads := s.reads ++ [(a.ticket, i, s.txBuf (a.off.toNat + i))] }
    | _ => none
  | .host rxTail rxBuf step =>
    (s.host.next ⟨rxTail, s.eng.pub, rxBuf⟩ step).map fun q => { s with host := q.1 }.apply q.2

end MultiTx

/-- `udp_worker` and `K` contexts of `multi_tx.c`, from the offsets `configure_device` sets and
any contents of the buffer. -/
def multiTxSystem (C p : UInt32) (K : ℕ) : System (MultiTx K p.toNat) (MultiTxStep K p.toNat) :=
  .ofStep (fun s => ∃ m, s = MultiTx.initial C p K m) (MultiTx.next C p)

/-- **Only what was published is sent.** -/
structure TxRingOk {K n : ℕ} (r : RingConfig) (s : MultiTx K n) : Prop where
  /-- `shadow_head` is not past the slots the host has published. -/
  not_ahead : s.eng.reserved ≤ s.packets.length
  /-- The reservations are of the published slots, in order, one each. -/
  in_order : ∀ k c o, s.eng.resv[k]? = some (c, o) → r.Denotes o k
  /-- What is fetched for the `k`-th reservation is the `k`-th packet published. -/
  published : ∀ k i b, (k, i, b) ∈ s.reads → ∃ pkt, s.packets[k]? = some pkt ∧ pkt i = b

/-- The age of the sampled tail does not matter: a context that is about to reserve on its
sample would reserve on the present `cfg.tx_tail`. -/
def TailFresh {K n : ℕ} (s : MultiTx K n) : MultiTxStep K n → Prop
  | .ctx c .acquire => ∀ l, s.eng.ctx c = .sampled l → txEmpty s.eng.shadow l = false →
      txEmpty s.eng.shadow s.txTail = false
  | _ => True

instance {K n : ℕ} (s : MultiTx K n) : DecidablePred (TailFresh s)
  | .ctx c .acquire =>
    match hpc : s.eng.ctx c with
    | .sampled lim => decidable_of_iff (txEmpty s.eng.shadow lim = false →
        txEmpty s.eng.shadow s.txTail = false) (by simp [TailFresh, hpc])
    | .idle | .poll | .dma _ | .turn _ | .seen _ _ | .publish _ =>
      isTrue (by simp [TailFresh, hpc])
  | .ctx _ .start | .ctx _ .sample | .ctx _ .dmaEnd | .ctx _ .readTurn | .ctx _ .testTurn
  | .ctx _ .publish | .dmaRead _ _ | .host _ _ _ => isTrue trivial

/-- The invariant of runs that meet `TailFresh`. -/
structure TxRingInv {K n : ℕ} (r : RingConfig) (s : MultiTx K n) : Prop where
  eng : EngineInv r s.eng
  tail : r.Denotes s.txTail s.packets.length
  locals : s.host.LocalOk r
  host : s.host.TxOk r s.packets.length s.eng.published
  not_ahead : s.eng.reserved ≤ s.packets.length
  /-- A slot keeps its packet until it is given back. -/
  live : ∀ q pkt, s.eng.published ≤ q → s.packets[q]? = some pkt →
    Holds s.txBuf (r.off q) pkt Finset.univ
  reads : ∀ k i b, (k, i, b) ∈ s.reads → ∃ pkt, s.packets[k]? = some pkt ∧ pkt i = b

section

variable {K : ℕ} {r : RingConfig} {s s' : MultiTx K r.packetSize.toNat}
  {l : MultiTxStep K r.packetSize.toNat}

theorem TxRingInv.initial (r : RingConfig) (K : ℕ) (m : Mem) :
    TxRingInv r (MultiTx.initial r.capacity r.packetSize K m) where
  eng := EngineInv.initial r K
  tail := r.denotes_zero
  locals := UdpWorker.LocalOk.initial r
  host := UdpWorker.TxOk.initial r
  not_ahead := le_rfl
  live := by simp [MultiTx.initial]
  reads := by simp [MultiTx.initial]

/-- The empty test against the present tail compares the counts. -/
theorem TxRingInv.txEmpty_iff (hI : TxRingInv r s) :
    txEmpty s.eng.shadow s.txTail = true ↔ s.eng.reserved = s.packets.length := by
  have hlap := hI.host.lt_lap
  have hpub := hI.eng.published_le
  simp only [txEmpty, beq_iff_eq]
  exact hI.eng.shadow.eq_iff hI.tail hI.not_ahead (by omega)

theorem TxRingInv.ok (hI : TxRingInv r s) : TxRingOk r s where
  not_ahead := hI.not_ahead
  in_order := hI.eng.resv
  published := hI.reads

/-- A byte the worker copies goes to a slot that holds no packet. -/
theorem TxRingInv.live_txByte (hI : TxRingInv r s) {i : Fin r.packetSize.toNat} {b : UInt8}
    (htail : r.Denotes s.host.ringTx.tail s.packets.length)
    (hlap : s.packets.length + 1 < s.eng.published + r.slots) (q : ℕ)
    (pkt : Fin r.packetSize.toNat → UInt8) (hq : s.eng.published ≤ q)
    (hpkt : s.packets[q]? = some pkt) :
    Holds (s.txBuf.write (s.host.ringTx.tail.toNat + i) b) (r.off q) pkt Finset.univ := by
  have hlt : q < s.packets.length := (List.getElem?_eq_some_iff.mp hpkt).1
  refine (hI.live q pkt hq hpkt).frame fun j haddr => ?_
  rw [htail] at haddr
  have hoff := (RingConfig.off_bytes_disjoint j.isLt i.isLt haddr).1
  rw [RingConfig.off_eq_iff hlt.le (by omega)] at hoff
  omega

/-- Publishing appends the contents of the slot at the old tail. -/
theorem TxRingInv.live_txTail (hI : TxRingInv r s) (q : ℕ)
    (pkt : Fin r.packetSize.toNat → UInt8) (hq : s.eng.published ≤ q)
    (hpkt : (s.packets ++ [region r.packetSize.toNat s.txBuf s.txTail.toNat])[q]? = some pkt) :
    Holds s.txBuf (r.off q) pkt Finset.univ := by
  rcases getElem?_snoc_cases hpkt with hpkt | ⟨rfl, rfl⟩
  · exact hI.live q pkt hq hpkt
  · exact hI.tail ▸ holds_region

/-- **Invariant preservation** under `TailFresh`. -/
theorem TxRingInv.step (hI : TxRingInv r s)
    (hs : s.next r.capacity r.packetSize l = some s') (hfresh : TailFresh s l) :
    TxRingInv r s' := by
  have hlap := hI.host.lt_lap
  have hpub := hI.eng.published_le
  have hahead := hI.not_ahead
  cases l with
  | ctx c step =>
    obtain ⟨e', hctx, rfl⟩ := Option.map_eq_some_iff.mp hs
    obtain ⟨hmono, hcount⟩ := (Engine.next_effect hctx).counts
    refine ⟨hI.eng.step (by omega) hctx, hI.tail, hI.locals, hI.host.mono hmono, ?_,
      fun q pkt hq => hI.live q pkt (hmono.trans hq), hI.reads⟩
    rcases hcount with heq | ⟨rfl, hsucc, lim, hpc, hfree⟩
    · exact heq ▸ hahead
    · -- a fresh sample: one more slot has been published
      have hnot := (hfresh lim hpc hfree).symm ▸ hI.txEmpty_iff
      have hne : ¬ s.eng.reserved = s.packets.length := fun h => nomatch hnot.mpr h
      show e'.reserved ≤ s.packets.length
      omega
  | dmaRead c i =>
    simp only [MultiTx.next] at hs
    split at hs
    case h_2 => cases hs
    case h_1 a hpc =>
      obtain rfl := Option.some.inj hs
      have hheld := hI.eng.held c a (by rw [hpc]; rfl)
      -- the reservation is outstanding, so its slot still holds the published packet
      have hlt : a.ticket < s.packets.length := lt_of_lt_of_le hheld.ticket_lt hahead
      have hget := List.getElem?_eq_getElem hlt
      refine ⟨hI.eng, hI.tail, hI.locals, hI.host, hahead, hI.live, ?_⟩
      intro k j b hmem
      rcases List.mem_append.mp hmem with hmem | hmem
      · exact hI.reads k j b hmem
      · obtain ⟨rfl, rfl, rfl⟩ := List.mem_singleton.mp hmem
        refine ⟨_, hget, ?_⟩
        rw [hI.eng.off hheld]
        exact ((hI.live _ _ hheld.unpublished hget).byte i).symm
  | host rxTail rxBuf step =>
    obtain ⟨⟨h', w⟩, hnext, rfl⟩ := Option.map_eq_some_iff.mp hs
    have hlocal := hI.locals.step hnext
    obtain ⟨htx, hwrite⟩ := hI.host.step hI.locals hI.eng.pub (by omega) hnext
    -- what the worker writes to
    cases w with
    | none | rxHead => exact ⟨hI.eng, hI.tail, hlocal, htx, hahead, hI.live, hI.reads⟩
    | txByte a b =>
      refine ⟨hI.eng, hI.tail, hlocal, htx, hahead, ?_, hI.reads⟩
      cases UdpWorker.next_effect hI.locals hnext with
      | copyByte hpc _ =>
        have hcopy := hI.host
        simp only [UdpWorker.TxOk, hpc] at hcopy
        exact hI.live_txByte hcopy.1 hcopy.2
    | txTail v =>
      have hlen : (s.packets ++ [region r.packetSize.toNat s.txBuf s.txTail.toNat]).length
          = s.packets.length + 1 := by simp
      refine
        { eng := hI.eng, tail := (?_ : r.Denotes v (List.length (s.packets ++ [_]))),
          locals := hlocal, host := (?_ : h'.TxOk r (List.length (s.packets ++ [_])) _),
          not_ahead := (?_ : s.eng.reserved ≤ List.length (s.packets ++ [_])),
          live := hI.live_txTail, reads := ?_ }
      · rw [hlen]
        exact hwrite v rfl
      · rw [hlen]
        exact htx
      · exact hlen ▸ hahead.trans (Nat.le_succ _)
      · intro k i b hmem
        obtain ⟨pkt, hpkt, hb⟩ := hI.reads k i b hmem
        have hk := (List.getElem?_eq_some_iff.mp hpkt).1
        exact ⟨pkt, (List.getElem?_append_left hk).trans hpkt, hb⟩

/-- A reservation that misses `TailFresh` passes the host. -/
theorem TxRingInv.fresh_of_ok (hI : TxRingInv r s)
    (hs : s.next r.capacity r.packetSize l = some s') (hok : TxRingOk r s') : TailFresh s l := by
  unfold TailFresh
  split
  case h_2 => trivial
  case h_1 c =>
    intro lim hpc hfree
    -- the reservation is one more, and what was published is the same
    have hres : s' = { s with eng := s.eng.reserve r.capacity r.packetSize c } := by
      simpa [MultiTx.next, multiTxContext, Engine.next, hpc, hfree] using hs.symm
    have hbound := hok.not_ahead
    rw [hres, Engine.reserve_reserved] at hbound
    refine Bool.eq_false_iff.mpr fun hempty => ?_
    have := hI.txEmpty_iff.mp hempty
    change s.eng.reserved + 1 ≤ s.packets.length at hbound
    omega

end

/-- **When `multi_tx.c` is right.** In a run of any number of contexts only published slots
are reserved and sent exactly when every reservation is made on a sample whose age does not
matter. -/
theorem multiTx_safe_iff (r : RingConfig) {K : ℕ}
    {h : List (Transition (MultiTx K r.packetSize.toNat) (MultiTxStep K r.packetSize.toNat))}
    {s : MultiTx K r.packetSize.toNat}
    (he : Exec (multiTxSystem r.capacity r.packetSize K) h s) :
    (∀ t ∈ h, TxRingOk r t.dst) ↔ ∀ t ∈ h, TailFresh t.src t.label := by
  have hinit : ∀ s : MultiTx K r.packetSize.toNat,
      (∃ m, s = MultiTx.initial r.capacity r.packetSize K m) → TxRingInv r s := by
    rintro s ⟨m, rfl⟩
    exact TxRingInv.initial r K m
  exact he.exact hinit (fun s l s' hI hs hg => hI.step hs hg)
    (fun s l s' hI hs hg => (hI.step hs hg).ok) (fun s l s' hI hs hok => hI.fresh_of_ok hs hok)

/-- The steps of the worker from one wait to the next, when `rx_tail` is `rxTail` and the packet
is the byte `b`. -/
def echoOneByte (K : ℕ) (rxTail : UInt32) (b : UInt8) : List (MultiTxStep K (UInt32.toNat 1)) :=
  [.advance, .advance, .advance, .copyByte ⟨0, Nat.one_pos⟩, .advance, .advance, .advance, .advance,
    .advance].map (.host rxTail fun _ => b)

/-- On four slots of one byte the host publishes a 7 and a 9. Two contexts sample `tx_tail = 2`
together and reserve one slot each; both slots are fetched, the second first, and given back in
order. -/
theorem multiTx_safe_iff_two : ∃ h s, Exec (multiTxSystem 4 1 2) h s ∧
    s.eng.resv = [(0, 0), (1, 1)] ∧ s.eng.published = 2 ∧
    s.reads.map (fun q => (q.1, q.2.2)) = [(1, 9), (0, 7)] ∧
    (∀ t ∈ h, TailFresh t.src t.label) ∧ (∀ t ∈ h, TxRingOk .fourBytes t.dst) := by
  have hrun : (runLabels (guarded (MultiTx.next 4 1) TailFresh)
      (MultiTx.initial 4 1 2 fun _ => 0) (echoOneByte 2 1 7 ++ echoOneByte 2 2 9 ++
        [.ctx 0 .start, .ctx 1 .start, .ctx 0 .sample, .ctx 1 .sample, .ctx 0 .acquire,
          .ctx 1 .acquire, .dmaRead 1 ⟨0, by decide⟩, .ctx 1 .dmaEnd, .dmaRead 0 ⟨0, by decide⟩,
          .ctx 0 .dmaEnd, .ctx 0 .readTurn, .ctx 0 .testTurn, .ctx 0 .publish,
          .ctx 1 .readTurn, .ctx 1 .testTurn, .ctx 1 .publish])).map
      (fun s => (s.eng.resv, s.eng.published, s.reads.map fun q => (q.1, q.2.2)))
      = some ([(0, 0), (1, 1)], 2, [(1, 9), (0, 7)]) := by decide
  obtain ⟨h, s, he, -, hfresh, hs⟩ := Exec.exists_of_guarded_run
    (fun s => ∃ m, s = MultiTx.initial 4 1 2 m) _ ⟨_, rfl⟩ hrun
  obtain ⟨hresv, hpub, hreads⟩ : s.eng.resv = _ ∧ s.eng.published = _ ∧ s.reads.map _ = _ := by
    simpa using hs
  exact ⟨h, s, he, hresv, hpub, hreads, hfresh, (multiTx_safe_iff .fourBytes he).mpr hfresh⟩

/-- Two contexts on two slots of one byte. Context 0 samples `tx_tail = 0` and is held up. The
host publishes slot 0, and context 1, on the new tail, reserves it. Context 0 wakes: its
sample 0 is not `shadow_head = 1`, so it reserves slot 1, which the host never filled. -/
theorem multiTx_runs_ahead : ¬ ∀ (r : RingConfig) (K : ℕ) (s : MultiTx K r.packetSize.toNat),
    1 ≤ K → 2 ≤ r.slots → r.capacity.toNat ≤ 2 ^ 31 →
      (multiTxSystem r.capacity r.packetSize K).Reachable s → TxRingOk r s := by
  intro hall
  have hrun : (runLabels (MultiTx.next 2 1) (MultiTx.initial 2 1 2 fun _ => 0)
      [.ctx 0 .start, .ctx 1 .start, .ctx 0 .sample,
        .host 1 (fun _ => 7) .advance, .host 1 (fun _ => 7) .advance, .host 1 (fun _ => 7) .advance,
        .host 1 (fun _ => 7) (.copyByte ⟨0, by decide⟩), .host 1 (fun _ => 7) .advance,
        .host 1 (fun _ => 7) .advance, .host 1 (fun _ => 7) .advance, .host 1 (fun _ => 7) .advance,
        .ctx 1 .sample, .ctx 1 .acquire, .ctx 0 .acquire]).map
      (fun s => (s.eng.reserved, s.packets.length)) = some (2, 1) := by decide
  obtain ⟨s, hreach, hcounts⟩ := System.Reachable.of_run
    (fun s => ∃ m, s = MultiTx.initial 2 1 2 m) _ ⟨_, rfl⟩ hrun
  obtain ⟨hres, hpub⟩ := Prod.mk.inj hcounts
  have hbound : s.eng.reserved ≤ s.packets.length :=
    (hall RingConfig.twoBytes 2 s (by decide) (by decide) (by decide) hreach).not_ahead
  rw [hres, hpub] at hbound
  exact absurd hbound (by decide)

end NfpUdpEcho
