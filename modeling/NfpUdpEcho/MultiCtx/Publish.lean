import NfpUdpEcho.Framework.System
import NfpUdpEcho.MultiCtx.Engine

/-!
# Publication order of the multi-context firmware

A ring of `multi_rx.c` or `multi_tx.c` with the host left open: between any two steps of
the contexts it may write any value to the offset it owns. With no more contexts than slots
the outstanding reservations never span more than a lap (`EngineInv.reserved_le`), so
`EngineInv` holds in every reachable state, and the writes of the public offset come in the
order of the reservations (`publishOk_of_reachable`).

The host's offset only decides when a context may reserve. Nothing here depends on that
test being right.
-/

namespace NfpUdpEcho

open LTS

/-- `rx_process` of `multi_rx.c`, one step of context `c`. -/
def multiRxContext {K : ℕ} (bufferCapacity packetSize rxHead : UInt32) (e : Engine K)
    (c : Fin K) (step : CtxStep) : Option (Engine K) :=
  e.next (rxFull bufferCapacity packetSize) bufferCapacity packetSize rxHead c step

/-- `tx_process` of `multi_tx.c`, one step of context `c`. -/
def multiTxContext {K : ℕ} (bufferCapacity packetSize txTail : UInt32) (e : Engine K)
    (c : Fin K) (step : CtxStep) : Option (Engine K) :=
  e.next txEmpty bufferCapacity packetSize txTail c step

inductive Firmware where
  | multiRx
  | multiTx
deriving DecidableEq, Repr

/-- The contexts of either micro-engine. -/
def Firmware.context {K : ℕ} : Firmware → UInt32 → UInt32 → UInt32 → Engine K → Fin K →
    CtxStep → Option (Engine K)
  | .multiRx => multiRxContext
  | .multiTx => multiTxContext

/-- A micro-engine and the offset its host owns. -/
structure OpenRing (K : ℕ) where
  eng : Engine K
  limit : UInt32

inductive OpenStep (K : ℕ) where
  | ctx (c : Fin K) (step : CtxStep)
  | hostWrite (value : UInt32)

def OpenRing.next {K : ℕ} (fw : Firmware) (C p : UInt32) (s : OpenRing K) :
    OpenStep K → Option (OpenRing K)
  | .ctx c step => (fw.context C p s.limit s.eng c step).map fun e => { s with eng := e }
  | .hostWrite value => some { s with limit := value }

/-- `K` contexts and a host that behaves in any way, from the offsets `configure_device` sets. -/
def openSystem (fw : Firmware) (C p : UInt32) (K : ℕ) : System (OpenRing K) (OpenStep K) :=
  .ofStep (· = ⟨Engine.initial K, 0⟩) (OpenRing.next fw C p)

/-- **Publication in reservation order.** -/
structure PublishOk {K : ℕ} (C p : UInt32) (e : Engine K) : Prop where
  /-- The `k`-th value written is the offset `k` packets on, it is written by the context that
  made the `k`-th reservation, and that reservation's DMA has completed. -/
  order : ∀ k q, e.pubs[k]? = some q →
    q.value.toNat = (k + 1) * p.toNat % C.toNat ∧ (∃ o, e.resv[k]? = some (q.ctx, o)) ∧
      q.ticket = k ∧ k ∈ e.dmaDone
  /-- A context at the write holds the next reservation, and its DMA has completed. -/
  next_write : ∀ c r, e.ctx c = .publish r → r.ticket = e.published ∧ r.ticket ∈ e.dmaDone
  /-- A reservation is either published, or still held by the context that made it. -/
  once : ∀ k c o, e.resv[k]? = some (c, o) →
    (∃ q, e.pubs[k]? = some q ∧ q.ctx = c ∧ ∀ j q', e.pubs[j]? = some q' → q'.ticket = k → j = k) ∨
      (e.published ≤ k ∧ ∃ r, (e.ctx c).reservation = some r ∧ r.ticket = k)
  /-- With no context between reserving and publishing every reservation is published. -/
  settled : (∀ c, (e.ctx c).reservation = none) → e.published = e.reserved
  /-- A context that read its own offset is released in its turn, not a lap early. -/
  release : ∀ c r v, e.ctx c = .seen r v → v = r.off → r.ticket = e.published
  /-- The context whose turn it is reads its own offset. -/
  turn_comes : ∀ c r, (e.ctx c).reservation = some r → r.ticket = e.published → e.pub = r.off

section

variable {K : ℕ} {fw : Firmware} {r : RingConfig} {s s' : OpenRing K} {l : OpenStep K}

/-- `EngineInv.step` for either firmware. -/
theorem EngineInv.context {e e' : Engine K} {limit : UInt32} {c : Fin K} {step : CtxStep}
    (hI : EngineInv r e) (hlap : e.reserved ≤ e.published + r.slots)
    (hstep : fw.context r.capacity r.packetSize limit e c step = some e') : EngineInv r e' := by
  cases fw with
  | multiRx => exact hI.step hlap hstep
  | multiTx => exact hI.step hlap hstep

theorem EngineInv.openStep (hK : K ≤ r.slots) (hI : EngineInv r s.eng)
    (hs : s.next fw r.capacity r.packetSize l = some s') : EngineInv r s'.eng := by
  cases l with
  | ctx c step =>
    obtain ⟨e', hctx, rfl⟩ := Option.map_eq_some_iff.mp hs
    -- the pigeonhole bounds the outstanding reservations by the contexts, hence by a lap
    have hle := hI.reserved_le
    exact hI.context (by omega) hctx
  | hostWrite v =>
    obtain rfl := Option.some.inj hs
    exact hI

theorem EngineInv.of_openReachable (hK : K ≤ r.slots)
    (h : (openSystem fw r.capacity r.packetSize K).Reachable s) : EngineInv r s.eng := by
  have hinit : ∀ s : OpenRing K, s = ⟨Engine.initial K, 0⟩ → EngineInv r s.eng := by
    rintro s rfl
    exact EngineInv.initial r K
  have hstep : ∀ s l s', EngineInv r s.eng →
      OpenRing.next fw r.capacity r.packetSize s l = some s' → EngineInv r s'.eng :=
    fun s l s' hI hs => hI.openStep hK hs
  exact h.invariant hinit hstep

/-- The offset of the `k`-th entry, as a remainder. -/
theorem RingConfig.off_eq (k : ℕ) : r.off k = k * r.packetSize.toNat % r.capacity.toNat := by
  rw [r.capacity_eq, Nat.mul_mod_mul_right]
  rfl

theorem EngineInv.publishOk {e : Engine K} (hI : EngineInv r e) :
    PublishOk r.capacity r.packetSize e := by
  refine
    { order := ?_, next_write := ?_, once := ?_, settled := ?_, release := ?_, turn_comes := ?_ }
  · intro k q hq
    have hok := hI.pubs k q hq
    exact ⟨hok.value.trans (RingConfig.off_eq _), hok.made, hok.ticket, hok.done⟩
  · intro c a hc
    have hpc := hI.pc c
    rw [hc] at hpc
    exact ⟨hpc.2, hpc.1⟩
  · intro k c o hk
    by_cases hpub : e.published ≤ k
    · exact .inr ⟨hpub, hI.holder k c o hpub hk⟩
    · -- published: the entry at `k` is by the maker, and numbers are positions
      have hlt : k < e.pubs.length := Nat.not_le.mp hpub
      obtain ⟨o', ho'⟩ := (hI.pubs k _ (List.getElem?_eq_getElem hlt)).made
      rw [hk] at ho'
      refine .inl ⟨_, List.getElem?_eq_getElem hlt, (Prod.mk.inj (Option.some.inj ho')).1.symm, ?_⟩
      intro j q' hj hticket
      exact (hI.pubs j q' hj).ticket.symm.trans hticket
  · intro hidle
    by_contra hne
    have hle := hI.published_le
    have hlt : e.published < e.resv.length := lt_of_le_of_ne hle hne
    obtain ⟨a, ha, -⟩ := hI.holder _ _ _ le_rfl (List.getElem?_eq_getElem hlt)
    rw [hidle] at ha
    cases ha
  · rintro c a v hc rfl
    exact hI.own_turn hc
  · intro c a ha hticket
    have hheld := hI.held c a ha
    exact hI.pub.eq (hticket ▸ hI.off hheld)

end

/-- Either firmware, with no more contexts than slots, publishes in reservation order,
whatever its host writes. -/
theorem publishOk_of_reachable (fw : Firmware) (r : RingConfig) {K : ℕ} (hK : K ≤ r.slots)
    (s : OpenRing K) (h : (openSystem fw r.capacity r.packetSize K).Reachable s) :
    PublishOk r.capacity r.packetSize s.eng :=
  (EngineInv.of_openReachable hK h).publishOk

/-- Two contexts on two slots, the second to reserve being the first to finish its DMA: it
finds the public offset at zero, and publishes after the other. -/
theorem publishOk_two : ∃ s : OpenRing 2,
    (openSystem .multiRx 2 1 2).Reachable s ∧ s.eng.pubs.map (·.ctx) = [0, 1] ∧
      PublishOk 2 1 s.eng := by
  have hrun : (runLabels (OpenRing.next .multiRx 2 1) ⟨Engine.initial 2, 0⟩
      [.ctx 0 .start, .ctx 1 .start, .ctx 0 .sample, .ctx 0 .acquire, .hostWrite 1,
        .ctx 1 .sample, .ctx 1 .acquire, .ctx 1 .dmaEnd, .ctx 1 .readTurn, .ctx 1 .testTurn,
        .ctx 0 .dmaEnd, .ctx 0 .readTurn, .ctx 0 .testTurn, .ctx 0 .publish,
        .ctx 1 .readTurn, .ctx 1 .testTurn, .ctx 1 .publish]).map (·.eng.pubs.map (·.ctx))
      = some [0, 1] := by decide
  obtain ⟨s, hreach, hpubs⟩ := System.Reachable.of_run (· = ⟨Engine.initial 2, 0⟩) _ rfl hrun
  exact ⟨s, hreach, hpubs, publishOk_of_reachable .multiRx RingConfig.twoBytes (by decide) s hreach⟩

end NfpUdpEcho
