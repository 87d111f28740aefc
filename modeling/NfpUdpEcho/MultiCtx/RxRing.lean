import NfpUdpEcho.Framework.System
import NfpUdpEcho.Host.UdpWorker
import NfpUdpEcho.MultiCtx.Publish

/-!
# The RX ring under `multi_rx.c`

The contexts of `multi_rx.c` produce into the RX ring and `udp_worker` consumes from it. A
context tests for a full ring with two offsets of different age: `cfg.rx_head` as it was
before the context lost the processor, and `shadow_tail` as it is when the context runs
again. `shadow_tail` may have caught up in between with a head that had not moved yet when
it was sampled, and the sample, being neither the old full position nor the new one, lets
the context through.

`HeadFresh` is the condition that this does not happen: a test passed with the sampled head
would be passed with the present one. As long as every reservation of a run meets it, the
ring is never overrun (`RxRingInv.step`), and the first that misses it takes the last free
slot of the ring, so it is also necessary (`multiRx_safe_iff`).
-/

namespace NfpUdpEcho

open LTS

/-- The RX ring, its `K` producing contexts and its consumer. `released` counts the writes of
`cfg.rx_head`. -/
structure MultiRx (K n : ℕ) where
  eng : Engine K
  rxHead : UInt32
  host : UdpWorker n
  released : ℕ

inductive MultiRxStep (K n : ℕ) where
  | ctx (c : Fin K) (step : CtxStep)
  /-- `txHead` is what the TX firmware shows the worker at this step. -/
  | host (txHead : UInt32) (step : HostStep n)

namespace MultiRx

variable {K n : ℕ}

def initial (C p : UInt32) (K : ℕ) : MultiRx K p.toNat where
  eng := Engine.initial K
  rxHead := 0
  host := UdpWorker.initial C p
  released := 0

/-- A write of the worker. Only `cfg.rx_head` is part of this ring. -/
def apply (s : MultiRx K n) (w : HostWrite) : MultiRx K n :=
  match w with
  | .rxHead v => { s with rxHead := v, released := s.released + 1 }
  | .none | .txByte _ _ | .txTail _ => s

/-- Packet contents play no part here, so the worker copies from a buffer of zeros. -/
def next (C p : UInt32) (s : MultiRx K n) : MultiRxStep K n → Option (MultiRx K n)
  | .ctx c step => (multiRxContext C p s.rxHead s.eng c step).map fun e => { s with eng := e }
  | .host txHead step =>
    (s.host.next ⟨s.eng.pub, txHead, fun _ => 0⟩ step).map fun q => { s with host := q.1 }.apply q.2

end MultiRx

/-- `K` contexts of `multi_rx.c` and `udp_worker`, from the offsets `configure_device` sets. -/
def multiRxSystem (C p : UInt32) (K : ℕ) : System (MultiRx K p.toNat) (MultiRxStep K p.toNat) :=
  .ofStep (· = MultiRx.initial C p K) (MultiRx.next C p)

/-- **The ring is not overrun.** -/
structure RxRingOk {K n : ℕ} (r : RingConfig) (s : MultiRx K n) : Prop where
  /-- At most `N - 1` slots are reserved and not released. -/
  bounded : s.eng.reserved ≤ s.released + (r.slots - 1)
  /-- Whoever reserved a slot before has been released: no two unreleased reservations, and no
  unreleased packet and a reservation, share a slot. -/
  exclusive : ∀ q k c d o, q < k → s.eng.resv[q]? = some (c, o) → s.eng.resv[k]? = some (d, o) →
    q < s.released
  /-- With everything published, equal offsets mean that everything has been consumed. -/
  not_look_empty : s.eng.published = s.eng.reserved → s.eng.pub = s.rxHead →
    s.released = s.eng.published

/-- The age of the sampled head does not matter: a context that is about to reserve on its
sample would reserve on the present `cfg.rx_head`. -/
def HeadFresh {K n : ℕ} (C p : UInt32) (s : MultiRx K n) : MultiRxStep K n → Prop
  | .ctx c .acquire => ∀ l, s.eng.ctx c = .sampled l → rxFull C p s.eng.shadow l = false →
      rxFull C p s.eng.shadow s.rxHead = false
  | _ => True

instance {K n : ℕ} (C p : UInt32) (s : MultiRx K n) : DecidablePred (HeadFresh C p s)
  | .ctx c .acquire =>
    match hpc : s.eng.ctx c with
    | .sampled lim => decidable_of_iff (rxFull C p s.eng.shadow lim = false →
        rxFull C p s.eng.shadow s.rxHead = false) (by simp [HeadFresh, hpc])
    | .idle | .poll | .dma _ | .turn _ | .seen _ _ | .publish _ =>
      isTrue (by simp [HeadFresh, hpc])
  | .ctx _ .start | .ctx _ .sample | .ctx _ .dmaEnd | .ctx _ .readTurn | .ctx _ .testTurn
  | .ctx _ .publish | .host _ _ => isTrue trivial

/-- The invariant of runs that meet `HeadFresh`. -/
structure RxRingInv {K n : ℕ} (r : RingConfig) (s : MultiRx K n) : Prop where
  eng : EngineInv r s.eng
  head : r.Denotes s.rxHead s.released
  locals : s.host.LocalOk r
  host : s.host.RxOk r s.released s.eng.published
  room : s.eng.reserved < s.released + r.slots

section

variable {K n : ℕ} {r : RingConfig} {s s' : MultiRx K n} {l : MultiRxStep K n}

theorem RxRingInv.initial (r : RingConfig) (K : ℕ) :
    RxRingInv r (MultiRx.initial r.capacity r.packetSize K) where
  eng := EngineInv.initial r K
  head := r.denotes_zero
  locals := UdpWorker.LocalOk.initial r
  host := UdpWorker.RxOk.initial r
  room := Nat.lt_of_lt_of_le r.slots_pos (Nat.le_add_left _ _)

/-- The full test against the present head counts the slots in use. -/
theorem RxRingInv.rxFull_iff (hI : RxRingInv r s) :
    rxFull r.capacity r.packetSize s.eng.shadow s.rxHead = true ↔
      s.eng.reserved + 1 = s.released + r.slots := by
  have hle := hI.host.le
  have hpub := hI.eng.published_le
  simp only [rxFull, beq_iff_eq]
  exact hI.head.updated_eq_iff hI.eng.shadow (by omega) hI.room

theorem RxRingInv.ok (hI : RxRingInv r s) : RxRingOk r s where
  bounded := by
    have := hI.room
    omega
  exclusive := by
    intro q k c d o hqk hq hk
    -- one offset for two numbers puts them a whole lap apart
    have hlap : q + r.slots ≤ k := by
      by_contra hlt
      have heq := ((hI.eng.resv q c o hq).eq_iff (hI.eng.resv k d o hk) hqk.le (by omega)).mp rfl
      omega
    have hkT : k < s.eng.reserved := (List.getElem?_eq_some_iff.mp hk).1
    have := hI.room
    omega
  not_look_empty := by
    intro hall heq
    have hroom := hI.room
    have hle := hI.host.le
    exact ((hI.head.eq_iff hI.eng.pub hle (by omega)).mp heq.symm)

/-- **Invariant preservation** under `HeadFresh`. -/
theorem RxRingInv.step (hI : RxRingInv r s)
    (hs : s.next r.capacity r.packetSize l = some s')
    (hfresh : HeadFresh r.capacity r.packetSize s l) : RxRingInv r s' := by
  have hle := hI.host.le
  have hpub := hI.eng.published_le
  have hroom := hI.room
  cases l with
  | ctx c step =>
    obtain ⟨e', hctx, rfl⟩ := Option.map_eq_some_iff.mp hs
    obtain ⟨hmono, hcount⟩ := (Engine.next_effect hctx).counts
    refine ⟨hI.eng.step (by omega) hctx, hI.head, hI.locals, hI.host.mono hmono, ?_⟩
    rcases hcount with heq | ⟨rfl, hsucc, lim, hpc, hfree⟩
    · exact heq ▸ hroom
    · -- a fresh sample: the ring has room for one more
      have hnot := (hfresh lim hpc hfree).symm ▸ hI.rxFull_iff
      have hne : ¬ s.eng.reserved + 1 = s.released + r.slots := fun h => nomatch hnot.mpr h
      show e'.reserved < s.released + r.slots
      omega
  | host txHead step =>
    obtain ⟨⟨h', w⟩, hnext, rfl⟩ := Option.map_eq_some_iff.mp hs
    have hlocal := hI.locals.step hnext
    obtain ⟨hrx, hwrite⟩ := hI.host.step hI.locals hI.eng.pub (by omega) hnext
    cases w with
    | rxHead v =>
      exact ⟨hI.eng, hwrite v rfl, hlocal, hrx,
        show s.eng.reserved < s.released + 1 + r.slots by omega⟩
    | none | txByte | txTail => exact ⟨hI.eng, hI.head, hlocal, hrx, hroom⟩

/-- A reservation that misses `HeadFresh` overruns the ring. -/
theorem RxRingInv.fresh_of_ok (hI : RxRingInv r s)
    (hs : s.next r.capacity r.packetSize l = some s') (hok : RxRingOk r s') :
    HeadFresh r.capacity r.packetSize s l := by
  unfold HeadFresh
  split
  case h_2 => trivial
  case h_1 c =>
    intro lim hpc hfree
    -- the step reserves, and the bound after it leaves room before it
    have hres : s' = { s with eng := s.eng.reserve r.capacity r.packetSize c } := by
      simpa [MultiRx.next, multiRxContext, Engine.next, hpc, hfree] using hs.symm
    have hbound := hok.bounded
    rw [hres, Engine.reserve_reserved] at hbound
    have hslots := r.slots_pos
    refine Bool.eq_false_iff.mpr fun hfull => ?_
    have := hI.rxFull_iff.mp hfull
    change s.eng.reserved + 1 ≤ s.released + (r.slots - 1) at hbound
    omega

end

/-- **When `multi_rx.c` is right.** In a run of any number of contexts the ring is in order
after every step exactly when every reservation is made on a sample whose age does not
matter. -/
theorem multiRx_safe_iff (r : RingConfig) {K : ℕ}
    {h : List (Transition (MultiRx K r.packetSize.toNat) (MultiRxStep K r.packetSize.toNat))}
    {s : MultiRx K r.packetSize.toNat}
    (he : Exec (multiRxSystem r.capacity r.packetSize K) h s) :
    (∀ t ∈ h, RxRingOk r t.dst) ↔ ∀ t ∈ h, HeadFresh r.capacity r.packetSize t.src t.label := by
  have hinit : ∀ s : MultiRx K r.packetSize.toNat,
      s = MultiRx.initial r.capacity r.packetSize K → RxRingInv r s := by
    rintro s rfl
    exact RxRingInv.initial r K
  exact he.exact hinit (fun s l s' hI hs hg => hI.step hs hg)
    (fun s l s' hI hs hg => (hI.step hs hg).ok) (fun s l s' hI hs hok => hI.fresh_of_ok hs hok)

/-- Two contexts on four slots of one byte sample `rx_head = 0` together, reserve slots 0 and 1
on it, and publish; the host releases slot 0 in between. Both samples are as good as the present
head, and the ring is in order all the way. -/
theorem multiRx_safe_iff_two : ∃ h s, Exec (multiRxSystem 4 1 2) h s ∧
    s.eng.resv = [(0, 0), (1, 1)] ∧ s.eng.published = 2 ∧ s.released = 1 ∧
    (∀ t ∈ h, HeadFresh 4 1 t.src t.label) ∧ (∀ t ∈ h, RxRingOk .fourBytes t.dst) := by
  have hrun : (runLabels (guarded (MultiRx.next 4 1) (HeadFresh 4 1)) (MultiRx.initial 4 1 2)
      [.ctx 0 .start, .ctx 1 .start, .ctx 0 .sample, .ctx 1 .sample, .ctx 0 .acquire,
        .ctx 1 .acquire, .ctx 1 .dmaEnd, .ctx 0 .dmaEnd, .ctx 0 .readTurn, .ctx 0 .testTurn,
        .ctx 0 .publish,
        .host 0 .advance, .host 0 .advance, .host 0 .advance, .host 0 (.copyByte ⟨0, by decide⟩),
        .host 0 .advance, .host 0 .advance, .host 0 .advance, .host 0 .advance, .host 0 .advance,
        .ctx 1 .readTurn, .ctx 1 .testTurn, .ctx 1 .publish]).map
      (fun s => (s.eng.resv, s.eng.published, s.released)) = some ([(0, 0), (1, 1)], 2, 1) := by
    decide
  obtain ⟨h, s, he, -, hfresh, hs⟩ :=
    Exec.exists_of_guarded_run (· = MultiRx.initial 4 1 2) _ rfl hrun
  obtain ⟨hresv, hpub, hrel⟩ : s.eng.resv = _ ∧ s.eng.published = _ ∧ s.released = _ := by
    simpa using hs
  exact ⟨h, s, he, hresv, hpub, hrel, hfresh, (multiRx_safe_iff .fourBytes he).mpr hfresh⟩

/-- Two contexts on two slots of one byte. Context 0 samples `rx_head = 0` and is held up.
Context 1 fills slot 0, the host consumes it and writes `rx_head = 1`, and context 1, on the
new head, reserves slot 1. Context 0 wakes with the head it sampled: the slot after
`shadow_tail = 0` is at 1, not 0, so it reserves slot 0 and two slots of a ring with room for
one are out. -/
theorem multiRx_overrun : ¬ ∀ (r : RingConfig) (K : ℕ) (s : MultiRx K r.packetSize.toNat),
    1 ≤ K → 2 ≤ r.slots → r.capacity.toNat ≤ 2 ^ 31 →
      (multiRxSystem r.capacity r.packetSize K).Reachable s → RxRingOk r s := by
  intro hall
  have hrun : (runLabels (MultiRx.next 2 1) (MultiRx.initial 2 1 2)
      [.ctx 0 .start, .ctx 1 .start, .ctx 0 .sample,
        .ctx 1 .sample, .ctx 1 .acquire, .ctx 1 .dmaEnd, .ctx 1 .readTurn, .ctx 1 .testTurn,
        .ctx 1 .publish,
        .host 0 .advance, .host 0 .advance, .host 0 .advance, .host 0 (.copyByte ⟨0, by decide⟩),
        .host 0 .advance, .host 0 .advance, .host 0 .advance, .host 0 .advance, .host 0 .advance,
        .ctx 1 .start, .ctx 1 .sample, .ctx 1 .acquire, .ctx 0 .acquire]).map
      (fun s => (s.eng.reserved, s.released)) = some (3, 1) := by decide
  obtain ⟨s, hreach, hcounts⟩ :=
    System.Reachable.of_run (· = MultiRx.initial 2 1 2) _ rfl hrun
  obtain ⟨hres, hrel⟩ := Prod.mk.inj hcounts
  have hbound := (hall RingConfig.twoBytes 2 s (by decide) (by decide) (by decide) hreach).bounded
  rw [hres, hrel] at hbound
  exact absurd hbound (by decide)

end NfpUdpEcho
