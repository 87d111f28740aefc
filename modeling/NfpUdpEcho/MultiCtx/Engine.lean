import Mathlib.Data.Fintype.Card
import NfpUdpEcho.Ring.RingBuffer

/-!
# The contexts of a micro-engine working one end of a ring

`multi_rx.c` and `multi_tx.c` run the same program on every context of a micro-engine. A
context polls the host's offset, reserves the next slot by stepping a shared shadow offset,
moves the packet by DMA, waits until the public offset reaches its slot, and steps it:

* in `multi_rx.c` the shadow is `shadow_tail`, the public offset `cfg.rx_tail`, and the
  host's offset `cfg.rx_head`, which blocks while the ring is full;
* in `multi_tx.c` the shadow is `shadow_head`, the public offset `cfg.tx_head`, and the
  host's offset `cfg.tx_tail`, which blocks while the ring is empty.

`Engine.next` is that program, parametric in the test `blocked`. The scheduling is
cooperative: a context loses the processor at an access to CLS and at a DMA wait, so a value
read from CLS is kept in the program counter and acted on in a later step, and what lies
between two such points is one step. A `Reservation` holds the locals `tail`, `updated_tail`
(`head`, `updated_head`) of one pass and, as a ghost, its number among all reservations.

`EngineInv` relates all offsets to two counts, the reservations and the publications. Each
step preserves it while at most a whole lap of reservations is unpublished
(`EngineInv.step`), whatever the host does.
-/

namespace NfpUdpEcho

/-- The locals of a pass that has reserved a slot, and the number of the reservation. -/
structure Reservation where
  off : UInt32
  updated : UInt32
  ticket : ℕ
deriving DecidableEq, Repr

/-- Where a context is in its program. -/
inductive CtxPc where
  /-- Outside the ring code: receiving, filtering, dropping or sending a packet. -/
  | idle
  /-- Reading the host's offset. -/
  | poll
  /-- The host's offset has been read; the context has not run since. -/
  | sampled (limit : UInt32)
  /-- Waiting for the DMA of the reserved slot. -/
  | dma (r : Reservation)
  /-- Reading the public offset to see whether its turn has come. -/
  | turn (r : Reservation)
  /-- The public offset has been read; the context has not run since. -/
  | seen (r : Reservation) (value : UInt32)
  /-- Writing the public offset. -/
  | publish (r : Reservation)
deriving DecidableEq, Repr

/-- The reservation a context holds, from reserving to publishing. -/
def CtxPc.reservation : CtxPc → Option Reservation
  | .dma r | .turn r | .seen r _ | .publish r => some r
  | .idle | .poll | .sampled _ => none

/-- One write of the public offset. -/
structure Publication (K : ℕ) where
  ctx : Fin K
  ticket : ℕ
  value : UInt32
deriving DecidableEq, Repr

/-- The state of a micro-engine of `K` contexts. The last three fields are histories: which
context made each reservation and at which offset, the reservations whose DMA has completed,
and the writes of the public offset. -/
structure Engine (K : ℕ) where
  pub : UInt32
  shadow : UInt32
  ctx : Fin K → CtxPc
  resv : List (Fin K × UInt32)
  dmaDone : List ℕ
  pubs : List (Publication K)
deriving DecidableEq

/-- What a context does next. -/
inductive CtxStep where
  | start
  | sample
  | acquire
  | dmaEnd
  | readTurn
  | testTurn
  | publish
deriving DecidableEq, Repr

namespace Engine

variable {K : ℕ}

/-- The state after `configure_device`: both offsets zero, all contexts outside the ring code. -/
def initial (K : ℕ) : Engine K where
  pub := 0
  shadow := 0
  ctx _ := .idle
  resv := []
  dmaDone := []
  pubs := []

/-- Number of reservations made so far. -/
def reserved (e : Engine K) : ℕ := e.resv.length

/-- Number of publications made so far. -/
def published (e : Engine K) : ℕ := e.pubs.length

/-- Move one context's program counter. -/
def setCtx (e : Engine K) (c : Fin K) (pc : CtxPc) : Engine K :=
  { e with ctx := Function.update e.ctx c pc }

/-- `shadow_tail = updated_tail` (`shadow_head = updated_head`), and on to the DMA. -/
def reserve (C p : UInt32) (e : Engine K) (c : Fin K) : Engine K :=
  let updated := updatedOffset C p e.shadow
  { e.setCtx c (.dma ⟨e.shadow, updated, e.reserved⟩) with
    shadow := updated
    resv := e.resv ++ [(c, e.shadow)] }

/-- The DMA of the reserved slot has completed. -/
def endDma (e : Engine K) (c : Fin K) (r : Reservation) : Engine K :=
  { e.setCtx c (.turn r) with dmaDone := e.dmaDone ++ [r.ticket] }

/-- `cfg.rx_tail = updated_tail` (`cfg.tx_head = updated_head`), and out of the ring code. -/
def write (e : Engine K) (c : Fin K) (r : Reservation) : Engine K :=
  { e.setCtx c .idle with
    pub := r.updated
    pubs := e.pubs ++ [⟨c, r.ticket, r.updated⟩] }

/-- One step of context `c`, `limit` being the present value of the host's offset; `none`
where the context is elsewhere in its program. -/
def next (blocked : UInt32 → UInt32 → Bool) (C p limit : UInt32) (e : Engine K) (c : Fin K)
    (step : CtxStep) : Option (Engine K) :=
  match step, e.ctx c with
  | .start, .idle => some (e.setCtx c .poll)
  | .sample, .poll => some (e.setCtx c (.sampled limit))
  | .acquire, .sampled l =>
    if blocked e.shadow l then some (e.setCtx c .poll) else some (e.reserve C p c)
  | .dmaEnd, .dma r => some (e.endDma c r)
  | .readTurn, .turn r => some (e.setCtx c (.seen r e.pub))
  | .testTurn, .seen r v =>
    if v ≠ r.off then some (e.setCtx c (.turn r)) else some (e.setCtx c (.publish r))
  | .publish, .publish r => some (e.write c r)
  | _, _ => none

/-- The steps of a context, by their effect. -/
inductive Effect (blocked : UInt32 → UInt32 → Bool) (C p limit : UInt32) (e : Engine K)
    (c : Fin K) : CtxStep → Engine K → Prop where
  | start : e.ctx c = .idle → Effect blocked C p limit e c .start (e.setCtx c .poll)
  | sample : e.ctx c = .poll →
      Effect blocked C p limit e c .sample (e.setCtx c (.sampled limit))
  | retry {l : UInt32} : e.ctx c = .sampled l → blocked e.shadow l = true →
      Effect blocked C p limit e c .acquire (e.setCtx c .poll)
  | reserve {l : UInt32} : e.ctx c = .sampled l → blocked e.shadow l = false →
      Effect blocked C p limit e c .acquire (e.reserve C p c)
  | dmaEnd {r : Reservation} : e.ctx c = .dma r →
      Effect blocked C p limit e c .dmaEnd (e.endDma c r)
  | readTurn {r : Reservation} : e.ctx c = .turn r →
      Effect blocked C p limit e c .readTurn (e.setCtx c (.seen r e.pub))
  | wait {r : Reservation} {v : UInt32} : e.ctx c = .seen r v → v ≠ r.off →
      Effect blocked C p limit e c .testTurn (e.setCtx c (.turn r))
  | go {r : Reservation} : e.ctx c = .seen r r.off →
      Effect blocked C p limit e c .testTurn (e.setCtx c (.publish r))
  | publish {r : Reservation} : e.ctx c = .publish r →
      Effect blocked C p limit e c .publish (e.write c r)

variable {blocked : UInt32 → UInt32 → Bool} {C p limit : UInt32} {e e' : Engine K}
  {c : Fin K} {step : CtxStep}

theorem next_effect (h : e.next blocked C p limit c step = some e') :
    Effect blocked C p limit e c step e' := by
  unfold next at h
  split at h
  case h_1 hpc => obtain rfl := Option.some.inj h; exact .start hpc
  case h_2 hpc => obtain rfl := Option.some.inj h; exact .sample hpc
  case h_3 l hpc =>
    split at h
    · next hb => obtain rfl := Option.some.inj h; exact .retry hpc hb
    · next hb => obtain rfl := Option.some.inj h; exact .reserve hpc (by simpa using hb)
  case h_4 r hpc => obtain rfl := Option.some.inj h; exact .dmaEnd hpc
  case h_5 r hpc => obtain rfl := Option.some.inj h; exact .readTurn hpc
  case h_6 r v hpc =>
    split at h
    · next hv => obtain rfl := Option.some.inj h; exact .wait hpc hv
    · next hv =>
      obtain rfl := Option.some.inj h
      obtain rfl := not_not.mp hv
      exact .go hpc
  case h_7 r hpc => obtain rfl := Option.some.inj h; exact .publish hpc
  case h_8 => cases h

/-! ### Fields after a step -/

@[simp] theorem setCtx_pub (pc : CtxPc) : (e.setCtx c pc).pub = e.pub := rfl
@[simp] theorem setCtx_shadow (pc : CtxPc) : (e.setCtx c pc).shadow = e.shadow := rfl
@[simp] theorem setCtx_resv (pc : CtxPc) : (e.setCtx c pc).resv = e.resv := rfl
@[simp] theorem setCtx_pubs (pc : CtxPc) : (e.setCtx c pc).pubs = e.pubs := rfl
@[simp] theorem setCtx_dmaDone (pc : CtxPc) : (e.setCtx c pc).dmaDone = e.dmaDone := rfl
@[simp] theorem setCtx_reserved (pc : CtxPc) : (e.setCtx c pc).reserved = e.reserved := rfl
@[simp] theorem setCtx_published (pc : CtxPc) : (e.setCtx c pc).published = e.published := rfl

theorem setCtx_self (pc : CtxPc) : (e.setCtx c pc).ctx c = pc := by simp [setCtx]

theorem setCtx_of_ne {d : Fin K} (h : d ≠ c) (pc : CtxPc) : (e.setCtx c pc).ctx d = e.ctx d := by
  simp [setCtx, h]

theorem reserve_self : (e.reserve C p c).ctx c =
    .dma ⟨e.shadow, updatedOffset C p e.shadow, e.reserved⟩ := setCtx_self _

theorem reserve_of_ne {d : Fin K} (h : d ≠ c) : (e.reserve C p c).ctx d = e.ctx d :=
  setCtx_of_ne h _

theorem write_self (r : Reservation) : (e.write c r).ctx c = .idle := setCtx_self _

theorem write_of_ne {d : Fin K} (h : d ≠ c) (r : Reservation) :
    (e.write c r).ctx d = e.ctx d := setCtx_of_ne h _

@[simp] theorem reserve_reserved : (e.reserve C p c).reserved = e.reserved + 1 := by
  simp [reserve, reserved]

@[simp] theorem reserve_published : (e.reserve C p c).published = e.published := rfl

@[simp] theorem write_reserved (r : Reservation) : (e.write c r).reserved = e.reserved := rfl

@[simp] theorem write_published (r : Reservation) :
    (e.write c r).published = e.published + 1 := by
  simp [write, published]

/-- How far a step of a context moves the counts. -/
theorem Effect.counts (h : Effect blocked C p limit e c step e') :
    e.published ≤ e'.published ∧ (e'.reserved = e.reserved ∨
      (step = .acquire ∧ e'.reserved = e.reserved + 1 ∧
        ∃ l, e.ctx c = .sampled l ∧ blocked e.shadow l = false)) := by
  cases h with
  | reserve hpc hb => exact ⟨le_rfl, .inr ⟨rfl, reserve_reserved, _, hpc, hb⟩⟩
  | publish hpc => exact ⟨by rw [write_published]; omega, .inl rfl⟩
  | start | sample | retry | dmaEnd | readTurn | wait | go => exact ⟨le_rfl, .inl rfl⟩

end Engine

/-- The entries of a history with one more at the end. -/
theorem getElem?_snoc_cases {α : Type} {l : List α} {a x : α} {k : ℕ}
    (h : (l ++ [a])[k]? = some x) : l[k]? = some x ∨ k = l.length ∧ x = a := by
  rcases Nat.lt_trichotomy k l.length with hk | rfl | hk
  · rw [List.getElem?_append_left hk] at h
    exact .inl h
  · rw [List.getElem?_concat_length] at h
    exact .inr ⟨rfl, (Option.some.inj h).symm⟩
  · have hlen : (l ++ [a]).length ≤ k := by
      rw [List.length_append, List.length_singleton]
      exact hk
    rw [List.getElem?_eq_none hlen] at h
    cases h

/-! ### The invariant -/

/-- What is known of an outstanding reservation: it is unpublished, recorded in the history
under its number, and its locals are the offset of its slot and the one after. -/
structure HeldOk {K : ℕ} (r : RingConfig) (e : Engine K) (c : Fin K) (s : Reservation) :
    Prop where
  unpublished : e.published ≤ s.ticket
  made : e.resv[s.ticket]? = some (c, s.off)
  updated : s.updated = updatedOffset r.capacity r.packetSize s.off

/-- What is known at a place in the program: after the wait for the DMA it has completed, a
value read from the public offset denotes one of the last lap's counts, and a context
writing the public offset holds the oldest outstanding reservation. -/
def PcOk {K : ℕ} (r : RingConfig) (e : Engine K) : CtxPc → Prop
  | .turn s => s.ticket ∈ e.dmaDone
  | .seen s v =>
    s.ticket ∈ e.dmaDone ∧ ∃ j, r.Denotes v j ∧ j ≤ e.published ∧ s.ticket < j + r.slots
  | .publish s => s.ticket ∈ e.dmaDone ∧ s.ticket = e.published
  | .idle | .poll | .sampled _ | .dma _ => True

/-- What is known of the `k`-th publication. -/
structure PubOk {K : ℕ} (r : RingConfig) (e : Engine K) (k : ℕ) (q : Publication K) : Prop where
  ticket : q.ticket = k
  made : ∃ o, e.resv[k]? = some (q.ctx, o)
  value : r.Denotes q.value (k + 1)
  done : k ∈ e.dmaDone

/-- The invariant of a micro-engine, by the counts of reservations and publications. -/
structure EngineInv {K : ℕ} (r : RingConfig) (e : Engine K) : Prop where
  shadow : r.Denotes e.shadow e.reserved
  pub : r.Denotes e.pub e.published
  published_le : e.published ≤ e.reserved
  resv : ∀ k c o, e.resv[k]? = some (c, o) → r.Denotes o k
  held : ∀ c s, (e.ctx c).reservation = some s → HeldOk r e c s
  /-- An unpublished reservation is held by the context that made it. -/
  holder : ∀ k c o, e.published ≤ k → e.resv[k]? = some (c, o) →
    ∃ s, (e.ctx c).reservation = some s ∧ s.ticket = k
  pc : ∀ c, PcOk r e (e.ctx c)
  pubs : ∀ k q, e.pubs[k]? = some q → PubOk r e k q

section Invariant

variable {K : ℕ} {r : RingConfig} {e e' : Engine K} {c d : Fin K} {s : Reservation} {pc : CtxPc}

theorem EngineInv.initial (r : RingConfig) (K : ℕ) : EngineInv r (Engine.initial K) where
  shadow := r.denotes_zero
  pub := r.denotes_zero
  published_le := le_rfl
  resv := by simp [Engine.initial]
  held := by simp [Engine.initial, CtxPc.reservation]
  holder := by simp [Engine.initial]
  pc := fun _ => trivial
  pubs := by simp [Engine.initial]

theorem HeldOk.ticket_lt (h : HeldOk r e c s) : s.ticket < e.reserved :=
  (List.getElem?_eq_some_iff.mp h.made).1

theorem EngineInv.off (hI : EngineInv r e) (h : HeldOk r e c s) : r.Denotes s.off s.ticket :=
  hI.resv _ _ _ h.made

/-- A number is held by one context only. -/
theorem HeldOk.ctx_unique {s' : Reservation} (h : HeldOk r e c s) (h' : HeldOk r e d s')
    (ht : s.ticket = s'.ticket) : c = d := by
  have hmade := h.made
  rw [ht, h'.made] at hmade
  exact (Prod.mk.inj (Option.some.inj hmade)).1.symm

/-- **The pigeonhole over contexts.** Outstanding reservations are held by different
contexts, so there are at most as many. -/
theorem EngineInv.reserved_le (hI : EngineInv r e) : e.reserved ≤ e.published + K := by
  have hbound : ∀ i : Fin (e.reserved - e.published), e.published + i < e.resv.length := by
    intro i
    have := i.isLt
    unfold Engine.reserved at this
    omega
  -- the context that made each outstanding reservation
  let holder (i : Fin (e.reserved - e.published)) : Fin K :=
    (e.resv.get ⟨e.published + i, hbound i⟩).1
  have hinj : Function.Injective holder := by
    intro i j hij
    have hget (i : Fin (e.reserved - e.published)) : ∃ s,
        (e.ctx (holder i)).reservation = some s ∧ s.ticket = e.published + i :=
      hI.holder _ _ _ (Nat.le_add_right _ _) (List.getElem?_eq_getElem (hbound i))
    obtain ⟨s, hs, hsi⟩ := hget i
    obtain ⟨s', hs', hsj⟩ := hget j
    rw [hij, hs'] at hs
    obtain rfl := Option.some.inj hs
    exact Fin.ext (by omega)
  have hcard := Fintype.card_le_of_injective holder hinj
  simp only [Fintype.card_fin] at hcard
  omega

/-! Moving one program counter without taking or giving up a reservation. -/

theorem reservation_setCtx (hpc : pc.reservation = (e.ctx c).reservation) (d : Fin K) :
    ((e.setCtx c pc).ctx d).reservation = (e.ctx d).reservation := by
  by_cases hd : d = c
  · subst hd
    rw [Engine.setCtx_self, hpc]
  · rw [Engine.setCtx_of_ne hd]

theorem EngineInv.setCtx (hI : EngineInv r e) (hpc : pc.reservation = (e.ctx c).reservation)
    (hok : PcOk r e pc) : EngineInv r (e.setCtx c pc) where
  shadow := hI.shadow
  pub := hI.pub
  published_le := hI.published_le
  resv := hI.resv
  held := by
    intro d s hs
    rw [reservation_setCtx hpc] at hs
    obtain ⟨h₁, h₂, h₃⟩ := hI.held d s hs
    exact ⟨h₁, h₂, h₃⟩
  holder := by
    intro k d o hk hd
    obtain ⟨s, hs, ht⟩ := hI.holder k d o hk hd
    exact ⟨s, by rw [reservation_setCtx hpc, hs], ht⟩
  pc := by
    intro d
    by_cases hd : d = c
    · subst hd
      rw [Engine.setCtx_self]
      exact hok
    · rw [Engine.setCtx_of_ne hd]
      exact hI.pc d
  pubs := by
    intro k q hq
    obtain ⟨h₁, h₂, h₃, h₄⟩ := hI.pubs k q hq
    exact ⟨h₁, h₂, h₃, h₄⟩

theorem PcOk.endDma (h : PcOk r e pc) (l : List ℕ) :
    PcOk r { e with dmaDone := e.dmaDone ++ l } pc := by
  have hmem : ∀ t, t ∈ e.dmaDone → t ∈ e.dmaDone ++ l := fun t => List.mem_append_left l
  cases pc with
  | turn s => exact hmem _ h
  | seen s v => exact ⟨hmem _ h.1, h.2⟩
  | publish s => exact ⟨hmem _ h.1, h.2⟩
  | idle | poll | sampled | dma => trivial

/-- Recording a completed DMA. -/
theorem EngineInv.endDma_history (hI : EngineInv r e) (l : List ℕ) :
    EngineInv r { e with dmaDone := e.dmaDone ++ l } where
  shadow := hI.shadow
  pub := hI.pub
  published_le := hI.published_le
  resv := hI.resv
  held := by
    intro d s hs
    obtain ⟨h₁, h₂, h₃⟩ := hI.held d s hs
    exact ⟨h₁, h₂, h₃⟩
  holder := hI.holder
  pc := fun d => (hI.pc d).endDma l
  pubs := by
    intro k q hq
    obtain ⟨h₁, h₂, h₃, h₄⟩ := hI.pubs k q hq
    exact ⟨h₁, h₂, h₃, List.mem_append_left l h₄⟩

/-- A context that holds no reservation makes the next one. -/
theorem EngineInv.reserve (hI : EngineInv r e) (hc : (e.ctx c).reservation = none) :
    EngineInv r (e.reserve r.capacity r.packetSize c) := by
  have hnew : (e.resv ++ [(c, e.shadow)])[e.reserved]? = some (c, e.shadow) :=
    List.getElem?_concat_length
  have hold : ∀ {k : ℕ} {x}, e.resv[k]? = some x → (e.resv ++ [(c, e.shadow)])[k]? = some x := by
    intro k x hx
    rw [List.getElem?_append_left (List.getElem?_eq_some_iff.mp hx).1, hx]
  refine
    { shadow := ?_, pub := hI.pub, published_le := ?_, resv := ?_, held := ?_, holder := ?_,
      pc := ?_, pubs := ?_ }
  · rw [Engine.reserve_reserved]
    exact hI.shadow.updated
  · have := hI.published_le
    simp only [Engine.reserve_published, Engine.reserve_reserved]
    omega
  · intro k d o hk
    rcases getElem?_snoc_cases hk with hk | ⟨rfl, hx⟩
    · exact hI.resv k d o hk
    · obtain ⟨rfl, rfl⟩ := Prod.mk.inj hx
      exact hI.shadow
  · intro d s hs
    by_cases hd : d = c
    · subst hd
      rw [Engine.reserve_self] at hs
      obtain rfl := Option.some.inj hs
      exact ⟨hI.published_le, hnew, rfl⟩
    · rw [Engine.reserve_of_ne hd] at hs
      obtain ⟨h₁, h₂, h₃⟩ := hI.held d s hs
      exact ⟨h₁, hold h₂, h₃⟩
  · intro k d o hk hd
    rcases getElem?_snoc_cases hd with hd | ⟨rfl, hx⟩
    · obtain ⟨s, hs, ht⟩ := hI.holder k d o hk hd
      -- the context that reserves held nothing, so that the holder is another one
      have hne : d ≠ c := by
        rintro rfl
        rw [hc] at hs
        cases hs
      exact ⟨s, (congrArg CtxPc.reservation (Engine.reserve_of_ne hne)).trans hs, ht⟩
    · obtain ⟨rfl, rfl⟩ := Prod.mk.inj hx
      exact ⟨_, congrArg CtxPc.reservation Engine.reserve_self, rfl⟩
  · intro d
    by_cases hd : d = c
    · subst hd
      rw [Engine.reserve_self]
      trivial
    · rw [Engine.reserve_of_ne hd]
      exact hI.pc d
  · intro k q hq
    obtain ⟨h₁, ⟨o, h₂⟩, h₃, h₄⟩ := hI.pubs k q hq
    exact ⟨h₁, ⟨o, hold h₂⟩, h₃, h₄⟩

/-- The holder of the oldest outstanding reservation publishes it. -/
theorem EngineInv.write (hI : EngineInv r e) (hc : e.ctx c = .publish s) :
    EngineInv r (e.write c s) := by
  have hres : (e.ctx c).reservation = some s := by rw [hc]; rfl
  have hheld := hI.held c s hres
  obtain ⟨hdone, hticket⟩ : s.ticket ∈ e.dmaDone ∧ s.ticket = e.published := by
    have := hI.pc c
    rwa [hc] at this
  -- every other reservation that is held is a later one
  have hothers : ∀ {d s'}, d ≠ c → (e.ctx d).reservation = some s' → e.published < s'.ticket := by
    intro d s' hd hs'
    have h' := hI.held d s' hs'
    refine lt_of_le_of_ne h'.unpublished fun heq => hd ?_
    exact h'.ctx_unique hheld (heq ▸ hticket.symm)
  have hpub : r.Denotes s.updated (e.published + 1) := by
    rw [hheld.updated, ← hticket]
    exact (hI.off hheld).updated
  refine
    { shadow := hI.shadow, pub := ?_, published_le := ?_, resv := hI.resv, held := ?_,
      holder := ?_, pc := ?_, pubs := ?_ }
  · rw [Engine.write_published]
    exact hpub
  · have := hheld.ticket_lt
    rw [Engine.write_published, Engine.write_reserved]
    omega
  · intro d s' hs'
    by_cases hd : d = c
    · subst hd
      rw [Engine.write_self] at hs'
      cases hs'
    · rw [Engine.write_of_ne hd] at hs'
      obtain ⟨h₁, h₂, h₃⟩ := hI.held d s' hs'
      exact ⟨by rw [Engine.write_published]; exact hothers hd hs', h₂, h₃⟩
  · intro k d o hk hd
    rw [Engine.write_published] at hk
    obtain ⟨s', hs', ht⟩ := hI.holder k d o (by omega) hd
    have hne : d ≠ c := by
      rintro rfl
      rw [hres] at hs'
      obtain rfl := Option.some.inj hs'
      omega
    exact ⟨s', (congrArg CtxPc.reservation (Engine.write_of_ne hne s)).trans hs', ht⟩
  · intro d
    by_cases hd : d = c
    · subst hd
      rw [Engine.write_self]
      trivial
    · rw [Engine.write_of_ne hd]
      have hold := hI.pc d
      cases hpc : e.ctx d with
      | seen s' v =>
        rw [hpc] at hold
        obtain ⟨h₁, j, hj, hle, hlt⟩ := hold
        exact ⟨h₁, j, hj, by rw [Engine.write_published]; omega, hlt⟩
      | publish s' =>
        -- two contexts in the write would hold the same number
        rw [hpc] at hold
        have := hothers hd (by rw [hpc]; rfl)
        have := hold.2
        omega
      | turn s' => rwa [hpc] at hold
      | idle | poll | sampled | dma => trivial
  · intro k q hq
    rcases getElem?_snoc_cases hq with hq | ⟨rfl, rfl⟩
    · obtain ⟨h₁, h₂, h₃, h₄⟩ := hI.pubs k q hq
      exact ⟨h₁, h₂, h₃, h₄⟩
    · have hmade : e.resv[e.published]? = some (c, s.off) := hticket ▸ hheld.made
      have hlast : e.published ∈ e.dmaDone := hticket ▸ hdone
      exact ⟨hticket, ⟨s.off, hmade⟩, hpub, hlast⟩

/-- **No release by an earlier lap.** A context that read its own offset from the public
offset holds the oldest outstanding reservation. -/
theorem EngineInv.own_turn (hI : EngineInv r e) (hc : e.ctx c = .seen s s.off) :
    s.ticket = e.published := by
  have hheld := hI.held c s (by rw [hc]; rfl)
  obtain ⟨-, j, hj, hle, hlt⟩ : s.ticket ∈ e.dmaDone ∧
      ∃ j, r.Denotes s.off j ∧ j ≤ e.published ∧ s.ticket < j + r.slots := by
    have := hI.pc c
    rwa [hc] at this
  have hge := hheld.unpublished
  -- the two counts are less than a lap apart, so that equal offsets mean equal counts
  have heq : j = s.ticket := (hj.eq_iff (hI.off hheld) (by omega) hlt).mp rfl
  omega

/-- **Invariant preservation.** While at most a lap of reservations is unpublished, every
step of a context preserves the invariant. -/
theorem EngineInv.step {blocked : UInt32 → UInt32 → Bool} {limit : UInt32} {step : CtxStep}
    (hI : EngineInv r e) (hlap : e.reserved ≤ e.published + r.slots)
    (hstep : e.next blocked r.capacity r.packetSize limit c step = some e') :
    EngineInv r e' := by
  have hpc := hI.pc c
  cases Engine.next_effect hstep with
  | start h => exact hI.setCtx (by rw [h]; rfl) trivial
  | sample h => exact hI.setCtx (by rw [h]; rfl) trivial
  | retry h _ => exact hI.setCtx (by rw [h]; rfl) trivial
  | reserve h _ => exact hI.reserve (by rw [h]; rfl)
  | @dmaEnd s h =>
    have hdone : s.ticket ∈ e.dmaDone ++ [s.ticket] :=
      List.mem_append_right _ (List.mem_singleton.mpr rfl)
    have hres : (CtxPc.turn s).reservation = (e.ctx c).reservation := by rw [h]; rfl
    exact (hI.endDma_history [s.ticket]).setCtx hres hdone
  | @readTurn s h =>
    have hheld := hI.held c s (by rw [h]; rfl)
    rw [h] at hpc
    have := hheld.ticket_lt
    exact hI.setCtx (by rw [h]; rfl) ⟨hpc, e.published, hI.pub, le_rfl, by omega⟩
  | wait h _ =>
    rw [h] at hpc
    exact hI.setCtx (by rw [h]; rfl) hpc.1
  | go h =>
    rw [h] at hpc
    exact hI.setCtx (by rw [h]; rfl) ⟨hpc.1, hI.own_turn h⟩
  | publish h => exact hI.write h

end Invariant

end NfpUdpEcho
