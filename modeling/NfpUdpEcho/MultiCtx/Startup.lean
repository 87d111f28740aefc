import NfpUdpEcho.Framework.System

/-!
# The start of the firmware

`configure_device` (`user/app_main.c`) fills `struct device_meta_t` in the memory of the device
and then sets `start_signal`, whose two halves `nn_writeq` writes high word first. Both
micro-engines run `main` (`firmware/rx.c`, `tx.c`, `multi_rx.c`, `multi_tx.c`): context 0 polls
`start_signal` and copies the sizes to the engine's local memory; in the multi-context firmware
the other contexts wait for `init`, in the single-context firmware they end. Then each runs
`rx_process` or `tx_process` for ever.

Host and contexts take their steps in any order, one word of the configuration at a time. What
the packets and the other end of a ring decide is left to the step. The results are about the
reads in the processing loops (`configured_before_use`).

`PcOk` says what a context knows where it is: from the moment it has seen a half of the signal that
is not zero, the configuration is complete, and behind each of the two stores the size in local
memory is the host's. A context that waits for `init` knows nothing, and relies on the engine
instead: `init` is set by context 0 after both stores. `Engine.step_spec` says once what a step
does, with `CfgOk` for what it finds in the configuration; `StartInv` is then kept by each kind of
step, and for the contexts that do not move `PcOk.mono` is enough.
-/

namespace NfpUdpEcho.Startup

open LTS

/-- The words of `struct device_meta_t`. -/
inductive Word where
  | rxBufferIovaLo
  | rxBufferIovaHi
  | txBufferIovaLo
  | txBufferIovaHi
  | bufferSize
  | packetSize
  | startSignalLo
  | startSignalHi
  | rxHead
  | rxTail
  | txHead
  | txTail
  deriving DecidableEq

/-- The configuration in the memory of the device. -/
abbrev Cfg := Word → UInt32

/-- What `configure_device` stores before the barrier. -/
structure DeviceConfig where
  packet_size : UInt32
  buffer_size : UInt32
  rx_buffer_iova : UInt64
  tx_buffer_iova : UInt64

/-- The value of each field. -/
def DeviceConfig.word (conf : DeviceConfig) : Cfg
  | .rxBufferIovaLo => conf.rx_buffer_iova.toUInt32
  | .rxBufferIovaHi => (conf.rx_buffer_iova >>> 32).toUInt32
  | .txBufferIovaLo => conf.tx_buffer_iova.toUInt32
  | .txBufferIovaHi => (conf.tx_buffer_iova >>> 32).toUInt32
  | .bufferSize => conf.buffer_size
  | .packetSize => conf.packet_size
  | .startSignalLo | .startSignalHi => 0
  | .rxHead | .rxTail | .txHead | .txTail => 0

/-- The fields that `configure_device` stores before the barrier. -/
def configWords : List Word :=
  [.packetSize, .bufferSize, .rxBufferIovaLo, .rxBufferIovaHi, .txBufferIovaLo, .txBufferIovaHi,
    .rxHead, .rxTail, .txHead, .txTail]

/-- The fields that nobody writes after `configure_device`. -/
def Word.Constant (w : Word) : Prop :=
  w ∈ [.packetSize, .bufferSize, .rxBufferIovaLo, .rxBufferIovaHi, .txBufferIovaLo,
    Word.txBufferIovaHi]

/-! ### The contexts -/

/-- The single-context firmware, and the multi-context one. -/
inductive Build where
  | single
  | multi
  deriving DecidableEq

/-- The two micro-engines. -/
inductive Side where
  | rx
  | tx
  deriving DecidableEq

/-- The ring offset an engine moves, and the one it waits for. -/
def Side.own : Side → Word
  | .rx => .rxTail
  | .tx => .txHead

/-- The offset that the worker moves. -/
def Side.peer : Side → Word
  | .rx => .rxHead
  | .tx => .txTail

/-- The address of the ring, in two words. -/
def Side.iovaLo : Side → Word
  | .rx => .rxBufferIovaLo
  | .tx => .txBufferIovaLo

def Side.iovaHi : Side → Word
  | .rx => .rxBufferIovaHi
  | .tx => .txBufferIovaHi

/-- A full ring, and an empty one. -/
def Side.blocked : Side → UInt32 → UInt32 → UInt32 → Bool
  | .rx, _, updated, peer => updated == peer
  | .tx, own, _, peer => own == peer

/-- Where a context is in `main` and in `rx_process` or `tx_process`, with its locals. -/
inductive Pc where
  | entry
  | pollStart
  /-- Half of `start_signal` has been read. -/
  | pollRest (first : Word) (value : UInt32)
  | testStart (value value' : UInt32)
  | loadCapacity
  | storeCapacity (value : UInt32)
  | loadPacketSize
  | storePacketSize (value : UInt32)
  | setInit
  | waitInit
  | halted
  /-- Receiving and filtering a packet, or allocating one. -/
  | receive
  | readOwn
  | advance (own : UInt32)
  | pollPeer (own updated : UInt32)
  | testPeer (own updated peer : UInt32)
  | pollShadow
  | testShadow (peer : UInt32)
  | dmaLo (own updated : UInt32)
  | dmaHi (own updated : UInt32)
  | readTurn (own updated : UInt32)
  | testTurn (own updated value : UInt32)
  | publish (own updated : UInt32)
  deriving DecidableEq

/-- The local memory of an engine, `shadow` being `shadow_tail` or `shadow_head`, and where its
contexts are. -/
structure Engine (K : ℕ) where
  buffer_capacity : UInt32
  packet_size : UInt32
  init : Bool
  shadow : UInt32
  ctx : Fin K → Pc

variable {K : ℕ}

/-- One context moves on. -/
def Engine.goto (k : Fin K) (pc : Pc) (e : Engine K) : Engine K :=
  { e with ctx := Function.update e.ctx k pc }

/-- The offset after `own`. -/
def Engine.updated (e : Engine K) (own : UInt32) : UInt32 :=
  if own + e.packet_size ≥ e.buffer_capacity then 0 else own + e.packet_size

/-- One step of context `k`. `choice` stands for what the context finds outside the model: which
half of `start_signal` is read first, and whether a packet is let through. -/
def Engine.step (build : Build) (side : Side) (cfg : Cfg) (k : Fin K) (choice : Bool)
    (e : Engine K) : Option (Cfg × Engine K) :=
  match e.ctx k with
  | .entry =>
    let pc : Pc :=
      if k.val = 0 then .pollStart
      else match build with
        | .single => .halted
        | .multi => .waitInit
    some (cfg, e.goto k pc)
  | .pollStart =>
    let w : Word := if choice then .startSignalLo else .startSignalHi
    some (cfg, e.goto k (.pollRest w (cfg w)))
  | .pollRest first value =>
    let w : Word := if first = .startSignalLo then .startSignalHi else .startSignalLo
    some (cfg, e.goto k (.testStart value (cfg w)))
  | .testStart value value' =>
    some (cfg, e.goto k (if value ≠ 0 ∨ value' ≠ 0 then .loadCapacity else .pollStart))
  | .loadCapacity => some (cfg, e.goto k (.storeCapacity (cfg .bufferSize)))
  | .storeCapacity value =>
    some (cfg, { e with buffer_capacity := value }.goto k .loadPacketSize)
  | .loadPacketSize => some (cfg, e.goto k (.storePacketSize (cfg .packetSize)))
  | .storePacketSize value =>
    let pc : Pc := match build with
      | .single => .receive
      | .multi => .setInit
    some (cfg, { e with packet_size := value }.goto k pc)
  | .setInit => some (cfg, { e with init := true }.goto k .receive)
  | .waitInit => some (cfg, e.goto k (if e.init then .receive else .waitInit))
  | .halted => none
  | .receive =>
    let pc : Pc := match build with
      | .single => .readOwn
      | .multi => .pollShadow
    some (cfg, e.goto k (if choice then pc else .receive))
  | .readOwn => some (cfg, e.goto k (.advance (cfg side.own)))
  | .advance own => some (cfg, e.goto k (.pollPeer own (e.updated own)))
  | .pollPeer own updated => some (cfg, e.goto k (.testPeer own updated (cfg side.peer)))
  | .testPeer own updated peer =>
    some (cfg, e.goto k
      (if side.blocked own updated peer then .pollPeer own updated else .dmaLo own updated))
  | .pollShadow => some (cfg, e.goto k (.testShadow (cfg side.peer)))
  | .testShadow peer =>
    let own := e.shadow
    let updated := e.updated own
    if side.blocked own updated peer then some (cfg, e.goto k .pollShadow)
    else some (cfg, { e with shadow := updated }.goto k (.dmaLo own updated))
  | .dmaLo own updated => some (cfg, e.goto k (.dmaHi own updated))
  | .dmaHi own updated =>
    let pc : Pc := match build with
      | .single => .publish own updated
      | .multi => .readTurn own updated
    some (cfg, e.goto k pc)
  | .readTurn own updated => some (cfg, e.goto k (.testTurn own updated (cfg side.own)))
  | .testTurn own updated value =>
    some (cfg, e.goto k (if value ≠ own then .readTurn own updated else .publish own updated))
  | .publish _ updated =>
    some (Function.update cfg side.own updated, e.goto k .receive)

/-- A read inside `rx_process` or `tx_process`, with the value it returns. -/
inductive Read where
  | cfg (w : Word) (value : UInt32)
  | bufferCapacity (value : UInt32)
  | packetSize (value : UInt32)

/-- The reads of a step in the processing loop. -/
def Engine.reads (side : Side) (cfg : Cfg) (e : Engine K) : Pc → List Read
  | .receive =>
    match side with
    | .rx => [.packetSize e.packet_size]
    | .tx => []
  | .readOwn => [.cfg side.own (cfg side.own)]
  | .advance _ => [.packetSize e.packet_size, .bufferCapacity e.buffer_capacity]
  | .pollPeer .. => [.cfg side.peer (cfg side.peer)]
  | .pollShadow => [.cfg side.peer (cfg side.peer)]
  | .testShadow _ => [.packetSize e.packet_size, .bufferCapacity e.buffer_capacity]
  | .dmaLo .. => [.cfg side.iovaLo (cfg side.iovaLo)]
  | .dmaHi .. =>
    .cfg side.iovaHi (cfg side.iovaHi) ::
      match side with
      | .rx => []
      | .tx => [.packetSize e.packet_size]
  | .readTurn .. => [.cfg side.own (cfg side.own)]
  | _ => []

/-- The context is in its processing loop. -/
def Pc.processing : Pc → Bool
  | .receive | .readOwn | .advance _ | .pollPeer .. | .testPeer .. | .pollShadow | .testShadow _
  | .dmaLo .. | .dmaHi .. | .readTurn .. | .testTurn .. | .publish .. => true
  | _ => false

/-! ### Runs -/

/-- Where the host is in `configure_device`. -/
inductive HostPc where
  | fields
  /-- The high half of `start_signal` has been written. -/
  | low
  | done
  deriving DecidableEq

/-- `stored` are the fields that `configure_device` has stored. -/
structure State (K : ℕ) where
  cfg : Cfg
  host : HostPc
  stored : List Word
  eng : Side → Engine K

/-- A step of the host, the worker or a context. -/
inductive Step (K : ℕ) where
  | store (w : Word)
  | writeHigh
  | writeLow
  /-- The worker moves the offset it owns. -/
  | worker (side : Side) (value : UInt32)
  | ctx (side : Side) (k : Fin K) (choice : Bool)

/-- What `start_signal` is set to. -/
def startValue : UInt64 := 1

/-- The host stores the fields in any order, then the signal, and the contexts run all the time. -/
def State.next (conf : DeviceConfig) (build : Build) (s : State K) : Step K → Option (State K)
  | .store w =>
    if s.host = .fields ∧ w ∈ configWords then
      some { s with cfg := Function.update s.cfg w (conf.word w), stored := s.stored ++ [w] }
    else none
  | .writeHigh =>
    -- behind the barrier
    if s.host = .fields ∧ ∀ w ∈ configWords, w ∈ s.stored then
      some { s with
        cfg := Function.update s.cfg .startSignalHi (startValue >>> 32).toUInt32
        host := .low }
    else none
  | .writeLow =>
    if s.host = .low then
      some { s with
        cfg := Function.update s.cfg .startSignalLo startValue.toUInt32
        host := .done }
    else none
  | .worker side value =>
    if s.host = .done then some { s with cfg := Function.update s.cfg side.peer value } else none
  | .ctx side k choice =>
    ((s.eng side).step build side s.cfg k choice).map fun q =>
      { s with cfg := q.1, eng := Function.update s.eng side q.2 }

/-- The firmware as it is loaded: the configuration is zero, the sizes are not set. -/
def Engine.Loaded (e : Engine K) : Prop := e.init = false ∧ e.shadow = 0 ∧ ∀ k, e.ctx k = .entry

/-- The host before `configure_device`, and the firmware as it is loaded. -/
def startSystem (conf : DeviceConfig) (build : Build) (K : ℕ) : System (State K) (Step K) :=
  .ofStep (fun s => s.cfg = (fun _ => 0) ∧ s.host = .fields ∧ s.stored = [] ∧
    ∀ side, (s.eng side).Loaded) (State.next conf build)

/-- The read comes after `configure_device` has stored the field, and finds the value where the
field has one. -/
def Read.Ok (conf : DeviceConfig) (stored : List Word) : Read → Prop
  | .cfg w value => w ∈ stored ∧ (w.Constant → value = conf.word w)
  | .bufferCapacity value => .bufferSize ∈ stored ∧ value = conf.buffer_size
  | .packetSize value => .packetSize ∈ stored ∧ value = conf.packet_size

/-- The reads of a step in the processing loop of a context. -/
def ReadsOk (conf : DeviceConfig) (t : Transition (State K) (Step K)) : Prop :=
  ∀ side k choice, t.label = .ctx side k choice →
    ∀ r ∈ (t.src.eng side).reads side t.src.cfg ((t.src.eng side).ctx k), r.Ok conf t.src.stored

/-- The sizes an engine works with. -/
def Engine.Sized (conf : DeviceConfig) (e : Engine K) : Prop :=
  e.buffer_capacity = conf.buffer_size ∧ e.packet_size = conf.packet_size

/-! ### The invariant -/

/-- What is known where a context is. `live` says that the configuration is complete. -/
def PcOk (conf : DeviceConfig) (live : Prop) (e : Engine K) : Pc → Prop
  | .entry | .pollStart | .waitInit | .halted => True
  | .pollRest _ value => value ≠ 0 → live
  | .testStart value value' => value ≠ 0 ∨ value' ≠ 0 → live
  | .loadCapacity => live
  | .storeCapacity value => live ∧ value = conf.buffer_size
  | .loadPacketSize => live ∧ e.buffer_capacity = conf.buffer_size
  | .storePacketSize value =>
    live ∧ e.buffer_capacity = conf.buffer_size ∧ value = conf.packet_size
  | _ => live ∧ e.Sized conf

variable {conf : DeviceConfig} {build : Build} {side : Side} {live live' : Prop} {cfg cfg' : Cfg}
  {e e' : Engine K} {k : Fin K} {choice : Bool} {pc : Pc}

/-- It stays true while the sizes only become what they have to be. -/
theorem PcOk.mono (h : PcOk conf live e pc) (hlive : live → live')
    (hcap : e.buffer_capacity = conf.buffer_size → e'.buffer_capacity = conf.buffer_size)
    (hsize : e.packet_size = conf.packet_size → e'.packet_size = conf.packet_size) :
    PcOk conf live' e' pc := by
  cases pc with
  | entry | pollStart | waitInit | halted => trivial
  | pollRest _ value => exact fun hne => hlive (h hne)
  | testStart value value' => exact fun hne => hlive (h hne)
  | loadCapacity => exact hlive h
  | storeCapacity value => exact ⟨hlive h.1, h.2⟩
  | loadPacketSize => exact ⟨hlive h.1, hcap h.2⟩
  | storePacketSize value => exact ⟨hlive h.1, hcap h.2.1, h.2.2⟩
  | _ => exact ⟨hlive h.1, hcap h.2.1, hsize h.2.2⟩

/-- In the processing loop the configuration is complete and the sizes are the host's. -/
theorem PcOk.of_processing (h : PcOk conf live e pc) (hpc : pc.processing = true) :
    live ∧ e.Sized conf := by
  cases pc with
  | entry | pollStart | pollRest | testStart | loadCapacity | storeCapacity | loadPacketSize
  | storePacketSize | setInit | waitInit | halted => exact absurd hpc Bool.false_ne_true
  | _ => exact h

/-- Nothing more is known in the processing loop. -/
theorem PcOk.processing (h : live ∧ e.Sized conf) (hpc : pc.processing = true) :
    PcOk conf live e pc := by
  cases pc with
  | entry | pollStart | pollRest | testStart | loadCapacity | storeCapacity | loadPacketSize
  | storePacketSize | setInit | waitInit | halted => exact absurd hpc Bool.false_ne_true
  | _ => exact h

/-- What a step of context `k` does. -/
structure EngineStep (conf : DeviceConfig) (live : Prop) (side : Side) (cfg : Cfg)
    (e : Engine K) (k : Fin K) (cfg' : Cfg) (e' : Engine K) : Prop where
  cfg : cfg' = cfg ∨ live ∧ ∃ value, cfg' = Function.update cfg side.own value
  ctx : ∃ pc, e'.ctx = Function.update e.ctx k pc ∧ PcOk conf live e' pc
  capacity : e.buffer_capacity = conf.buffer_size → e'.buffer_capacity = conf.buffer_size
  size : e.packet_size = conf.packet_size → e'.packet_size = conf.packet_size
  init : e'.init = true → e.init = true ∨ live ∧ e'.Sized conf

/-- A step that only moves the context. -/
theorem EngineStep.goto (h : PcOk conf live e pc) :
    EngineStep conf live side cfg e k cfg (e.goto k pc) where
  cfg := .inl rfl
  ctx := ⟨pc, rfl, h.mono id id id⟩
  capacity := id
  size := id
  init := .inl

/-- What an engine relies on: the configuration in memory, once it is complete. -/
structure CfgOk (conf : DeviceConfig) (live : Prop) (cfg : Cfg) : Prop where
  startLo : cfg .startSignalLo ≠ 0 → live
  startHi : cfg .startSignalHi ≠ 0 → live
  bufferSize : live → cfg .bufferSize = conf.buffer_size
  packetSize : live → cfg .packetSize = conf.packet_size

/-- **A step of a context.** -/
theorem Engine.step_spec (hcfg : CfgOk conf live cfg)
    (hinit : e.init = true → live ∧ e.Sized conf) (hpc : PcOk conf live e (e.ctx k))
    (h : e.step build side cfg k choice = some (cfg', e')) :
    EngineStep conf live side cfg e k cfg' e' := by
  unfold Engine.step at h
  generalize e.ctx k = pc at h hpc
  cases pc with
  | entry =>
    obtain ⟨rfl, rfl⟩ := Prod.mk.inj (Option.some.inj h)
    refine .goto ?_
    split
    · trivial
    · cases build <;> trivial
  | pollStart =>
    obtain ⟨rfl, rfl⟩ := Prod.mk.inj (Option.some.inj h)
    refine .goto ?_
    cases choice with
    | true => exact hcfg.startLo
    | false => exact hcfg.startHi
  | pollRest first value =>
    obtain ⟨rfl, rfl⟩ := Prod.mk.inj (Option.some.inj h)
    refine .goto ?_
    rintro (hne | hne)
    · exact hpc hne
    · split at hne
      · exact hcfg.startHi hne
      · exact hcfg.startLo hne
  | testStart value value' =>
    obtain ⟨rfl, rfl⟩ := Prod.mk.inj (Option.some.inj h)
    refine .goto ?_
    split
    · next hne => exact hpc hne
    · trivial
  | loadCapacity =>
    obtain ⟨rfl, rfl⟩ := Prod.mk.inj (Option.some.inj h)
    exact .goto ⟨hpc, hcfg.bufferSize hpc⟩
  | storeCapacity value =>
    -- the value was read when the configuration was complete
    obtain ⟨rfl, rfl⟩ := Prod.mk.inj (Option.some.inj h)
    exact ⟨.inl rfl, ⟨_, rfl, hpc⟩, fun _ => hpc.2, id, .inl⟩
  | loadPacketSize =>
    obtain ⟨rfl, rfl⟩ := Prod.mk.inj (Option.some.inj h)
    exact .goto ⟨hpc.1, hpc.2, hcfg.packetSize hpc.1⟩
  | storePacketSize value =>
    obtain ⟨rfl, rfl⟩ := Prod.mk.inj (Option.some.inj h)
    refine ⟨.inl rfl, ⟨_, rfl, ?_⟩, id, fun _ => hpc.2.2, .inl⟩
    cases build with
    | single => exact hpc
    | multi => exact hpc
  | setInit =>
    -- both sizes are stored by now
    obtain ⟨rfl, rfl⟩ := Prod.mk.inj (Option.some.inj h)
    exact ⟨.inl rfl, ⟨_, rfl, hpc⟩, id, id, fun _ => .inr hpc⟩
  | waitInit =>
    obtain ⟨rfl, rfl⟩ := Prod.mk.inj (Option.some.inj h)
    refine .goto ?_
    split
    · next hset => exact hinit hset
    · trivial
  | halted => exact absurd h (Option.some_ne_none _).symm
  | receive =>
    obtain ⟨rfl, rfl⟩ := Prod.mk.inj (Option.some.inj h)
    refine .goto (.processing hpc ?_)
    cases choice <;> cases build <;> rfl
  | readOwn | advance | pollPeer | pollShadow | dmaLo | readTurn =>
    obtain ⟨rfl, rfl⟩ := Prod.mk.inj (Option.some.inj h)
    exact .goto hpc
  | testPeer own updated peer =>
    obtain ⟨rfl, rfl⟩ := Prod.mk.inj (Option.some.inj h)
    refine .goto (.processing hpc ?_)
    split <;> rfl
  | testShadow peer =>
    dsimp only at h
    split at h
    · obtain ⟨rfl, rfl⟩ := Prod.mk.inj (Option.some.inj h)
      exact .goto hpc
    · obtain ⟨rfl, rfl⟩ := Prod.mk.inj (Option.some.inj h)
      exact ⟨.inl rfl, ⟨_, rfl, hpc⟩, id, id, .inl⟩
  | dmaHi own updated =>
    obtain ⟨rfl, rfl⟩ := Prod.mk.inj (Option.some.inj h)
    refine .goto (.processing hpc ?_)
    cases build <;> rfl
  | testTurn own updated value =>
    obtain ⟨rfl, rfl⟩ := Prod.mk.inj (Option.some.inj h)
    refine .goto (.processing hpc ?_)
    split <;> rfl
  | publish own updated =>
    -- the only write of an engine to the configuration
    obtain ⟨rfl, rfl⟩ := Prod.mk.inj (Option.some.inj h)
    exact ⟨.inr ⟨hpc.1, updated, rfl⟩, ⟨_, rfl, hpc⟩, id, id, .inl⟩

/-- An engine, when `live` says that the configuration is complete. -/
structure EngineOk (conf : DeviceConfig) (live : Prop) (e : Engine K) : Prop where
  init : e.init = true → live ∧ e.Sized conf
  ctx : ∀ k, PcOk conf live e (e.ctx k)

/-- No field loses what `configure_device` has stored but the ring offsets, and the signal is
up only when all are stored. -/
structure StartInv (conf : DeviceConfig) (s : State K) : Prop where
  constant : ∀ w ∈ s.stored, w.Constant → s.cfg w = conf.word w
  startLo : s.host ≠ .done → s.cfg .startSignalLo = 0
  startHi : s.cfg .startSignalHi = 0
  complete : s.host ≠ .fields → ∀ w ∈ configWords, w ∈ s.stored
  eng : ∀ side, EngineOk conf (s.host = .done) (s.eng side)

instance (w : Word) : Decidable w.Constant := inferInstanceAs (Decidable (w ∈ _))

/-- These fields are among those that `configure_device` stores. -/
theorem Word.Constant.mem {w : Word} (h : w.Constant) : w ∈ configWords := by
  cases w <;> revert h <;> decide

/-- An engine goes on as it is when the configuration becomes complete. -/
theorem EngineOk.mono (h : EngineOk conf live e) (hlive : live → live') :
    EngineOk conf live' e :=
  ⟨fun hinit => ⟨hlive (h.init hinit).1, (h.init hinit).2⟩, fun k => (h.ctx k).mono hlive id id⟩

/-- A step of one of its contexts. -/
theorem EngineOk.step (h : EngineOk conf live e) (hs : EngineStep conf live side cfg e k cfg' e') :
    EngineOk conf live e' where
  init hset := by
    -- it was set before, or it is set now
    rcases hs.init hset with hold | hnew
    · obtain ⟨hlive, hcap, hsize⟩ := h.init hold
      exact ⟨hlive, hs.capacity hcap, hs.size hsize⟩
    · exact hnew
  ctx j := by
    obtain ⟨pc, hctx, hpc⟩ := hs.ctx
    rw [hctx]
    -- the other contexts see the sizes of the engine change, but not to wrong ones
    by_cases hj : j = k
    · rw [hj, Function.update_self]
      exact hpc
    · rw [Function.update_of_ne hj]
      exact (h.ctx j).mono id hs.capacity hs.size

variable {s s' : State K}

/-- What the contexts find in the configuration. -/
theorem StartInv.cfgOk (h : StartInv conf s) : CfgOk conf (s.host = .done) s.cfg where
  startLo hne := by
    by_contra hlive
    exact hne (h.startLo hlive)
  startHi hne := absurd h.startHi hne
  bufferSize hlive := by
    have hmem := h.complete (by rw [hlive]; decide) .bufferSize (by decide)
    exact h.constant _ hmem (by decide)
  packetSize hlive := by
    have hmem := h.complete (by rw [hlive]; decide) .packetSize (by decide)
    exact h.constant _ hmem (by decide)

/-- A ring offset moves. -/
theorem StartInv.offset (h : StartInv conf s) {w : Word} (hw : ¬ w.Constant)
    (hlo : w ≠ .startSignalLo) (hhi : w ≠ .startSignalHi) (value : UInt32) :
    StartInv conf { s with cfg := Function.update s.cfg w value } where
  constant v hv hc := by
    have hne : v ≠ w := fun heq => hw (heq ▸ hc)
    exact (Function.update_of_ne hne _ _).trans (h.constant v hv hc)
  startLo hhost := (Function.update_of_ne hlo.symm _ _).trans (h.startLo hhost)
  startHi := (Function.update_of_ne hhi.symm _ _).trans h.startHi
  complete := h.complete
  eng := h.eng

/-- The offset of an engine is none of the fields that stay, nor the signal. -/
theorem Side.own_ne (side : Side) :
    ¬ side.own.Constant ∧ side.own ≠ .startSignalLo ∧ side.own ≠ .startSignalHi := by
  cases side <;> decide

/-- Neither is the offset of the worker. -/
theorem Side.peer_ne (side : Side) :
    ¬ side.peer.Constant ∧ side.peer ≠ .startSignalLo ∧ side.peer ≠ .startSignalHi := by
  cases side <;> decide

/-- A field is stored. -/
theorem StartInv.store (h : StartInv conf s) {w : Word} (hhost : s.host = .fields)
    (hw : w ∈ configWords) :
    StartInv conf { s with
      cfg := Function.update s.cfg w (conf.word w), stored := s.stored ++ [w] } where
  constant v hv hc := by
    -- the field that is stored now, or one stored before
    by_cases hvw : v = w
    · subst hvw
      exact Function.update_self ..
    · have hold : v ∈ s.stored := by
        rcases List.mem_append.mp hv with hold | hnew
        · exact hold
        · exact absurd (List.mem_singleton.mp hnew) hvw
      exact (Function.update_of_ne hvw _ _).trans (h.constant v hold hc)
  startLo hne := by
    have hlo : Word.startSignalLo ≠ w := by
      rintro rfl
      exact absurd hw (by decide)
    exact (Function.update_of_ne hlo _ _).trans (h.startLo hne)
  startHi := by
    have hhi : Word.startSignalHi ≠ w := by
      rintro rfl
      exact absurd hw (by decide)
    exact (Function.update_of_ne hhi _ _).trans h.startHi
  complete hne := absurd hhost hne
  eng := h.eng

/-- The two halves of the signal: the high one changes nothing, the low one comes when all
fields are stored. -/
theorem StartInv.writeHigh (h : StartInv conf s) (hhost : s.host = .fields)
    (hall : ∀ w ∈ configWords, w ∈ s.stored) :
    StartInv conf { s with
      cfg := Function.update s.cfg .startSignalHi (startValue >>> 32).toUInt32
      host := .low } where
  constant v hv hc := by
    have hne : v ≠ .startSignalHi := by
      rintro rfl
      exact absurd hc (by decide)
    exact (Function.update_of_ne hne _ _).trans (h.constant v hv hc)
  startLo _ := by
    have hlo : s.cfg .startSignalLo = 0 := h.startLo (by rw [hhost]; decide)
    dsimp only
    rw [Function.update_of_ne (by decide), hlo]
  startHi := by
    -- the high half of the signal is 0
    dsimp only
    rw [Function.update_self]
    decide
  complete _ := hall
  -- no engine has gone on yet, and none does now
  eng side := (h.eng side).mono fun hdone => absurd (hhost.symm.trans hdone) (by decide)

/-- The low half is not zero, and all fields are stored. -/
theorem StartInv.writeLow (h : StartInv conf s) (hhost : s.host = .low) :
    StartInv conf { s with
      cfg := Function.update s.cfg .startSignalLo startValue.toUInt32
      host := .done } where
  constant v hv hc := by
    have hne : v ≠ .startSignalLo := by
      rintro rfl
      exact absurd hc (by decide)
    exact (Function.update_of_ne hne _ _).trans (h.constant v hv hc)
  startLo hne := absurd rfl hne
  startHi := by
    dsimp only
    rw [Function.update_of_ne (by decide), h.startHi]
  complete _ := h.complete (by rw [hhost]; decide)
  eng side := (h.eng side).mono fun _ => rfl

/-- A step of an engine. -/
theorem StartInv.ctx (h : StartInv conf s)
    (hs : EngineStep conf (s.host = .done) side s.cfg (s.eng side) k cfg' e') :
    StartInv conf { s with cfg := cfg', eng := Function.update s.eng side e' } := by
  have heng : ∀ side', EngineOk conf (s.host = .done) (Function.update s.eng side e' side') := by
    intro side'
    by_cases hside : side' = side
    · rw [hside, Function.update_self]
      exact (h.eng side).step hs
    · rw [Function.update_of_ne hside]
      exact h.eng side'
  -- an engine writes no field that a start depends on
  obtain ⟨hconst, hlo, hhi⟩ := side.own_ne
  rcases hs.cfg with rfl | ⟨-, value, rfl⟩
  · exact ⟨h.constant, h.startLo, h.startHi, h.complete, heng⟩
  · have hmoved := h.offset hconst hlo hhi value
    exact ⟨hmoved.constant, hmoved.startLo, hmoved.startHi, hmoved.complete, heng⟩

/-- **Every step keeps it.** -/
theorem StartInv.step (h : StartInv conf s) {l : Step K} (hs : s.next conf build l = some s') :
    StartInv conf s' := by
  cases l with
  | store w =>
    obtain ⟨⟨hhost, hw⟩, heq⟩ := Option.ite_none_right_eq_some.mp hs
    obtain rfl := Option.some.inj heq
    exact h.store hhost hw
  | writeHigh =>
    obtain ⟨⟨hhost, hall⟩, heq⟩ := Option.ite_none_right_eq_some.mp hs
    obtain rfl := Option.some.inj heq
    exact h.writeHigh hhost hall
  | writeLow =>
    obtain ⟨hhost, heq⟩ := Option.ite_none_right_eq_some.mp hs
    obtain rfl := Option.some.inj heq
    exact h.writeLow hhost
  | worker side value =>
    obtain ⟨-, heq⟩ := Option.ite_none_right_eq_some.mp hs
    obtain rfl := Option.some.inj heq
    obtain ⟨hconst, hlo, hhi⟩ := side.peer_ne
    exact h.offset hconst hlo hhi value
  | ctx side k choice =>
    obtain ⟨⟨cfg', e'⟩, hstep, rfl⟩ := Option.map_eq_some_iff.mp hs
    exact h.ctx (Engine.step_spec h.cfgOk (h.eng side).init ((h.eng side).ctx k) hstep)

/-- At the start the signal is down. -/
theorem StartInv.init (hs : (startSystem conf build K).init s) : StartInv conf s := by
  obtain ⟨hcfg, hhost, hstored, hloaded⟩ := hs
  refine ⟨?_, fun _ => by rw [hcfg], by rw [hcfg], fun hne => absurd hhost hne, fun side => ?_⟩
  · rw [hstored]
    exact fun w hw => absurd hw List.not_mem_nil
  · obtain ⟨hinit, -, hentry⟩ := hloaded side
    refine ⟨fun hset => absurd (hinit.symm.trans hset) Bool.false_ne_true, fun k => ?_⟩
    rw [hentry k]
    trivial

/-- What a context reads while it processes packets. -/
theorem reads_ok {stored : List Word} (hstored : live → ∀ w ∈ configWords, w ∈ stored)
    (hconst : ∀ w ∈ stored, w.Constant → cfg w = conf.word w) (hpc : PcOk conf live e pc) :
    ∀ r ∈ e.reads side cfg pc, r.Ok conf stored := by
  have hword : ∀ w ∈ configWords, live → (Read.cfg w (cfg w)).Ok conf stored :=
    fun w hw hlive => ⟨hstored hlive w hw, hconst w (hstored hlive w hw)⟩
  have hsize : live ∧ e.Sized conf → (Read.packetSize e.packet_size).Ok conf stored :=
    fun hrun => ⟨hstored hrun.1 _ (by decide), hrun.2.2⟩
  have hcap : live ∧ e.Sized conf → (Read.bufferCapacity e.buffer_capacity).Ok conf stored :=
    fun hrun => ⟨hstored hrun.1 _ (by decide), hrun.2.1⟩
  have hown : side.own ∈ configWords := by cases side <;> decide
  have hpeer : side.peer ∈ configWords := by cases side <;> decide
  have hlo : side.iovaLo ∈ configWords := by cases side <;> decide
  have hhi : side.iovaHi ∈ configWords := by cases side <;> decide
  cases pc with
  -- nothing is read here, or nothing of the processing loop
  | entry | pollStart | pollRest | testStart | loadCapacity | storeCapacity | loadPacketSize
  | storePacketSize | setInit | waitInit | halted | testPeer | testTurn | publish =>
    exact fun r hr => absurd hr List.not_mem_nil
  | receive =>
    cases side with
    | rx => exact List.forall_mem_singleton.mpr (hsize hpc)
    | tx => exact fun r hr => absurd hr List.not_mem_nil
  | readOwn | readTurn => exact List.forall_mem_singleton.mpr (hword _ hown hpc.1)
  | pollPeer | pollShadow => exact List.forall_mem_singleton.mpr (hword _ hpeer hpc.1)
  | advance | testShadow =>
    exact List.forall_mem_cons.mpr ⟨hsize hpc, List.forall_mem_singleton.mpr (hcap hpc)⟩
  | dmaLo => exact List.forall_mem_singleton.mpr (hword _ hlo hpc.1)
  | dmaHi =>
    refine List.forall_mem_cons.mpr ⟨hword _ hhi hpc.1, ?_⟩
    cases side with
    | rx => exact fun r hr => absurd hr List.not_mem_nil
    | tx => exact List.forall_mem_singleton.mpr (hsize hpc)

/-- The reads of a step. -/
theorem StartInv.readsOk (h : StartInv conf s) (l : Step K) : ReadsOk conf ⟨s, l, s'⟩ :=
  fun side k _ _ =>
    reads_ok (fun hdone => h.complete (by rw [hdone]; decide)) h.constant ((h.eng side).ctx k)

/-- In every run, with any number of contexts, what a context reads in its processing loop has
been stored by `configure_device` before, and all contexts that are in their processing loop
work with the sizes that it stored. -/
theorem configured_before_use {h : List (Transition (State K) (Step K))}
    (he : Exec (startSystem conf build K) h s) :
    (∀ t ∈ h, ReadsOk conf t) ∧
      ∀ side k, ((s.eng side).ctx k).processing = true →
        (s.eng side).buffer_capacity = conf.buffer_size ∧
          (s.eng side).packet_size = conf.packet_size := by
  have hstep : ∀ (s : State K) l s', StartInv conf s → (startSystem conf build K).step s l s' →
      True → StartInv conf s' := fun _ _ _ hI hs _ => hI.step hs
  constructor
  · exact @Exec.forall_of_guard _ _ _ h s (StartInv conf) (fun _ _ => True) (ReadsOk conf)
      (fun _ hs => StartInv.init hs) hstep (fun _ l _ hI _ _ => hI.readsOk l) he
      (fun _ _ => trivial)
  · intro side k hpc
    have hI := he.reachable.invariant (fun _ hs => StartInv.init hs)
      (fun s l s' hI hs => hstep s l s' hI hs trivial)
    exact (((hI.eng side).ctx k).of_processing hpc).2

/-! ### A start -/

/-- Eight packets of 64 bytes in each ring. -/
def udpConfig : DeviceConfig := ⟨64, 512, 0x100000000, 0x200000000⟩

/-- An engine with two contexts, as it is loaded. -/
def loadedEngine : Engine 2 := ⟨0, 0, false, 0, fun _ => .entry⟩

/-- The device with two of these engines. -/
def loadedState : State 2 := ⟨fun _ => 0, .fields, [], fun _ => loadedEngine⟩

/-- Context 0 of the RX engine starts to poll before the host has begun; context 1 waits for
`init`, and reads the offset of the worker in the end. -/
def startRun : List (Step 2) :=
  [.ctx .rx 0 true, .ctx .rx 0 true, .ctx .rx 1 true] ++ configWords.map .store ++
    [.writeHigh, .writeLow, .ctx .rx 0 true, .ctx .rx 0 true, .ctx .rx 0 true, .ctx .rx 0 true,
      .ctx .rx 0 true, .ctx .rx 0 true, .ctx .rx 0 true, .ctx .rx 0 true, .ctx .rx 0 true,
      .ctx .rx 0 true, .ctx .rx 0 true, .ctx .rx 1 true, .ctx .rx 1 true, .ctx .rx 1 true]

/-- Both contexts of the RX engine get to their processing loop. -/
theorem configured_before_use_start : ∃ h s, Exec (startSystem udpConfig .multi 2) h s ∧
    h.map Transition.label = startRun ∧ ((s.eng .rx).ctx 1).processing = true ∧
    ((∀ t ∈ h, ReadsOk udpConfig t) ∧
      ∀ side k, ((s.eng side).ctx k).processing = true →
        (s.eng side).buffer_capacity = udpConfig.buffer_size ∧
          (s.eng side).packet_size = udpConfig.packet_size) := by
  have hloaded : (startSystem udpConfig .multi 2).init loadedState :=
    ⟨rfl, rfl, rfl, fun _ => ⟨rfl, rfl, fun _ => rfl⟩⟩
  have hrun : (runLabels (State.next udpConfig .multi) loadedState startRun).map
      (fun s => ((s.eng .rx).ctx 1).processing) = some true := by decide
  obtain ⟨h, s, he, hlabels, hprocessing⟩ := Exec.exists_of_run _ _ hloaded hrun
  exact ⟨h, s, he, hlabels, hprocessing, configured_before_use he⟩

end NfpUdpEcho.Startup
