import Mathlib.Data.List.Pairwise
import NfpUdpEcho.Framework.System
import NfpUdpEcho.Transport.Bar

/-!
# Two managers of one register bank

The transport's areas take BARs from `nfp_pcie_user` and program their expansion registers.
The device server programs registers of the same bank: its `nfp_enable_bars`
(`user/nfpcore/nfp_cpp_dev.c`) points the BARs 4 and 5 at the explicit groups, without a look
at the transport's locks. `udp_worker` and the server run in threads of one process, and
`nfp_alloc_bar` looks at a lock and sets it in two steps.

The threads are modelled step by step, in any order. `Exclusive` is the condition under which
a locked BAR's register is written only by the thread that locked it, and every area's window
stays where it was put (`barWindows_safe`): an explicit BAR is not locked when it is
programmed, and a lock is still free when it is set. Both can fail: the transport hands out
the BAR with index 4 first.

The invariant, `WindowInv`, says that every BAR a thread is programming or an area sits on is locked
and has one holder, and that the expansion register of an area's BAR still has the area's window. A
step of one thread can touch a BAR of another only where it takes a lock that is set, or programs a
register without a lock, and these are the two cases that `Exclusive` excludes. The lemmas below
take the steps of a thread in the order in which it makes them.
-/

namespace NfpUdpEcho

open LTS

/-! ### The server's registers

The two formulas for the address of an expansion register, that of the transport and that of the
server, give the same for the same BAR, and the BAR with index 4 is in the ranges of both. -/

def nfpPcieExplicitBars : ℕ := 2

/-- `barcfg_explicit`: the map types `EXPLICIT0` to `EXPLICIT3`. -/
def barcfgExplicit (i : ℕ) : UInt32 := pcie2cppMaptype (4 + i.toUInt32)

/-- The index of `data->bar[4 + i]`. -/
def explicitIndex (i : ℕ) : UInt32 := 4 + i.toUInt32

def nfpPcieCppBarPcieToCppExpansionBar (bar slot : UInt32) : UInt64 :=
  ((bar * 8 + slot) * 4).toUInt64

/-- `data->iomem.csr`, the configuration window of the device mapped at `cfg`. -/
def iomemCsr (cfg : UInt64) : UInt64 := cfg + 0x30000

/-- Where the server's `nfp_bar_write` writes. -/
def devBarCsr (cfg : UInt64) (index : UInt32) : UInt64 :=
  iomemCsr cfg + nfpPcieCppBarPcieToCppExpansionBar (index >>> 3) (index &&& 7)

/-- The registers, by address. -/
def regBus : Bus (UInt64 → UInt32) where
  load32 a regs := (regs a, regs)
  load64 a regs := (((regs (a + 4)).toUInt64 <<< 32) ||| (regs a).toUInt64, regs)
  store32 a v regs := Function.update regs a v
  store64 a v regs :=
    Function.update (Function.update regs a v.toUInt32) (a + 4) (v >>> 32).toUInt32

/-! ### The threads -/

/-- `udp_worker`, and the main thread with the device server. -/
inductive UserThread where
  | worker
  | server
deriving DecidableEq

/-- What an area asks of its BAR. -/
structure Window where
  tgt : Int32
  act : Int32
  tok : Int32
  offset : UInt64
  size : UInt64
  width : Int32
deriving DecidableEq

/-- Where a thread is in the allocation of an area. -/
inductive AllocPc where
  | idle
  /-- In the loop of `nfp_alloc_bar`, before the slots `rest`. -/
  | scan (rest : List (Fin nfpBarMax)) (win : Window)
  /-- It has seen the lock of `i` free. -/
  | take (i : Fin nfpBarMax) (win : Window)
  /-- It has set the lock of `i`, before `nfp_reconfigure_bar`. -/
  | config (i : Fin nfpBarMax) (win : Window)
deriving DecidableEq

/-- An area in use: its thread, its BAR, and what the register was set to for it. -/
structure HeldArea where
  thread : UserThread
  bar : Fin nfpBarMax
  cfg : UInt32
deriving DecidableEq

/-- What the threads share, and where each of them is. -/
structure UserState where
  user : NfpPcieUser
  regs : UInt64 → UInt32
  pc : UserThread → AllocPc
  areas : List HeldArea
  /-- How many explicit BARs `nfp_enable_bars` has programmed. -/
  enabled : ℕ

/-- The steps of the threads. -/
inductive UserLabel where
  | begin (t : UserThread) (win : Window)
  | scan (t : UserThread)
  | take (t : UserThread)
  | config (t : UserThread)
  | release (a : HeldArea)
  | drop (a : HeldArea)
  | enable
deriving DecidableEq

namespace UserState

/-- A thread goes on. -/
def setPc (s : UserState) (t : UserThread) (pc : AllocPc) : UserState :=
  { s with pc := Function.update s.pc t pc }

/-- `nfp_reconfigure_bar` for the window. -/
def reconfigure (s : UserState) (i : Fin nfpBarMax) (win : Window) :
    ℤ × NfpPcieUser × (UInt64 → UInt32) :=
  nfpReconfigureBar regBus s.user i win.tgt win.act win.tok win.offset win.size win.width s.regs

/-- The register the next explicit BAR is programmed in. -/
def explicitCsr (s : UserState) : UInt64 := devBarCsr s.user.cfg (explicitIndex s.enabled)

/-- One step of a thread. -/
def next (s : UserState) : UserLabel → Option UserState
  | .begin t win =>
    -- the server takes commands once it has enabled its BARs
    if t = .server ∧ s.enabled < nfpPcieExplicitBars then none
    else
      match s.pc t with
      | .idle => some (s.setPc t (.scan barSlots win))
      | _ => none
  | .scan t =>
    match s.pc t with
    | .scan [] _ => some (s.setPc t .idle)
    | .scan (i :: rest) win =>
      if (s.user.bar i).lock then some (s.setPc t (.scan rest win))
      else some (s.setPc t (.take i win))
    | _ => none
  | .take t =>
    match s.pc t with
    | .take i win => some ({ s with user := s.user.setLock i true }.setPc t (.config i win))
    | _ => none
  | .config t =>
    match s.pc t with
    | .config i win =>
      let q := s.reconfigure i win
      -- an area that is refused is freed, and its BAR stays locked
      let areas := if q.1 < 0 then s.areas else s.areas ++ [⟨t, i, (q.2.1.bar i).barcfg⟩]
      some ({ s with user := q.2.1, regs := q.2.2, areas := areas }.setPc t .idle)
    | _ => none
  | .release a =>
    if a ∈ s.areas then
      some { s with user := s.user.setLock a.bar false, areas := s.areas.erase a }
    else none
  | .drop a => if a ∈ s.areas then some { s with areas := s.areas.erase a } else none
  | .enable =>
    if s.enabled < nfpPcieExplicitBars then
      some { s with
        regs := regBus.store32 s.explicitCsr (barcfgExplicit s.enabled) s.regs
        enabled := s.enabled + 1 }
    else none

/-- The register a step writes. -/
def registerWrite (s : UserState) : UserLabel → Option UInt64
  | .config t =>
    match s.pc t with
    | .config i win => if (s.reconfigure i win).1 < 0 then none else some (s.user.csr i)
    | _ => none
  | .enable => some s.explicitCsr
  | _ => none

end UserState

/-- The slots as the transport's `nfp_enable_bars` has set them up, with any locks taken before
the threads start. -/
def userSystem : System UserState UserLabel :=
  .ofStep (fun s => (∀ i ∈ barSlots, (s.user.bar i).index = i.val.toUInt32 + 1) ∧
    (∀ t, s.pc t = .idle) ∧ s.areas = [] ∧ s.enabled = 0) UserState.next

/-- The BAR is the thread's and no other's. -/
def SoleHolder (s : UserState) (t : UserThread) (i : Fin nfpBarMax) : Prop :=
  (∃ win, s.pc t = .config i win) ∧ (∀ t' win, s.pc t' = .config i win → t' = t) ∧
    ∀ a ∈ s.areas, a.bar ≠ i

/-- The register of a locked BAR is written only by the transport for the holder of the lock,
and every area's window is where it was put. -/
structure BarSafe (t : Transition UserState UserLabel) : Prop where
  by_holder : ∀ i ∈ barSlots, (t.src.user.bar i).lock = true →
    t.src.registerWrite t.label = some (t.src.user.csr i) →
    ∃ th, t.label = .config th ∧ SoleHolder t.src th i
  window : ∀ a ∈ t.dst.areas, t.dst.regs (t.dst.user.csr a.bar) = a.cfg

/-- An explicit BAR is programmed while the transport has not locked it, and a lock is set
while it is free. -/
def Exclusive (s : UserState) : UserLabel → Prop
  | .take t => ∀ i win, s.pc t = .take i win → (s.user.bar i).lock = false
  | .enable => ∀ i ∈ barSlots, s.user.csr i = s.explicitCsr → (s.user.bar i).lock = false
  | _ => True

instance (s : UserState) : DecidablePred (Exclusive s)
  | .take t =>
    match hpc : s.pc t with
    | .take i win => decidable_of_iff ((s.user.bar i).lock = false) (by
        constructor
        · intro hfree j win' hj
          cases hpc.symm.trans hj
          exact hfree
        · exact fun hfree => hfree i win hpc)
    | .idle | .scan _ _ | .config _ _ => isTrue fun _ _ h => by simp [hpc] at h
  | .enable => inferInstanceAs (Decidable (∀ i ∈ barSlots, _))
  | .begin _ _ | .scan _ | .config _ | .release _ | .drop _ => isTrue trivial

/-! ### The invariant -/

/-- The slots a thread may come to. -/
def AllocPc.slots : AllocPc → List (Fin nfpBarMax)
  | .idle => []
  | .scan rest _ => rest
  | .take i _ => [i]
  | .config i _ => [i]

/-- What is being programmed or is in use is locked, once, and has its window. -/
structure WindowInv (s : UserState) : Prop where
  index : ∀ i ∈ barSlots, (s.user.bar i).index = i.val.toUInt32 + 1
  slots : ∀ t, ∀ i ∈ (s.pc t).slots, i ∈ barSlots
  config : ∀ t i win, s.pc t = .config i win →
    (s.user.bar i).lock = true ∧ SoleHolder s t i
  area : ∀ a ∈ s.areas, a.bar ∈ barSlots ∧ (s.user.bar a.bar).lock = true ∧
    s.regs (s.user.csr a.bar) = a.cfg
  distinct : s.areas.Pairwise fun a b => a.bar ≠ b.bar

section

variable {s s' : UserState} {t : UserThread} {l : UserLabel} {pc : AllocPc} {i j : Fin nfpBarMax}
  {win : Window} {a : HeldArea}

@[simp] theorem setPc_user : (s.setPc t pc).user = s.user := rfl
@[simp] theorem setPc_regs : (s.setPc t pc).regs = s.regs := rfl
@[simp] theorem setPc_areas : (s.setPc t pc).areas = s.areas := rfl

/-- The thread itself. -/
theorem setPc_self : (s.setPc t pc).pc t = pc := by
  simp [UserState.setPc]

/-- The other threads. -/
theorem setPc_of_ne {t' : UserThread} (h : t' ≠ t) : (s.setPc t pc).pc t' = s.pc t' := by
  simp [UserState.setPc, h]

/-- Two slots do not share a register. -/
theorem WindowInv.csr_inj (hI : WindowInv s) (hi : i ∈ barSlots) (hj : j ∈ barSlots)
    (h : s.user.csr i = s.user.csr j) : i = j := by
  have hconst : ∀ i ∈ barSlots, ∀ j ∈ barSlots,
      nfpPcieCfgBarPcieToCppExpBar ((i.val.toUInt32 + 1) >>> 3) ((i.val.toUInt32 + 1) &&& 7) =
        nfpPcieCfgBarPcieToCppExpBar ((j.val.toUInt32 + 1) >>> 3) ((j.val.toUInt32 + 1) &&& 7) →
      i = j := by decide
  rw [NfpPcieUser.csr, NfpPcieUser.csr, hI.index i hi, hI.index j hj] at h
  exact hconst i hi j hj ((UInt64.add_right_inj s.user.cfg).mp h)

/-- A thread that moves on without a BAR of its own. -/
theorem WindowInv.setPc (hI : WindowInv s) (hslots : ∀ i ∈ pc.slots, i ∈ barSlots)
    (hconfig : ∀ i win, pc ≠ .config i win) : WindowInv (s.setPc t pc) where
  index := hI.index
  slots := by
    intro t'
    rcases eq_or_ne t' t with rfl | hne
    · rw [setPc_self]
      exact hslots
    · rw [setPc_of_ne hne]
      exact hI.slots t'
  config := by
    -- threads in `config` are where they were
    have hback : ∀ t' i win, (s.setPc t pc).pc t' = .config i win → s.pc t' = .config i win := by
      intro t' i win h
      rcases eq_or_ne t' t with rfl | hne
      · rw [setPc_self] at h
        exact absurd h (hconfig i win)
      · rwa [setPc_of_ne hne] at h
    intro t' i win h
    obtain ⟨hlock, -, honly, hareas⟩ := hI.config t' i win (hback t' i win h)
    exact ⟨hlock, ⟨win, h⟩, fun t'' win' h' => honly t'' win' (hback t'' i win' h'), hareas⟩
  area := hI.area
  distinct := hI.distinct

/-- A change of the windows alone. -/
theorem WindowInv.sameSlots (hI : WindowInv s) {user : NfpPcieUser} (h : s.user.SameSlots user) :
    WindowInv { s with user := user } where
  index i hi := (h.index i).trans (hI.index i hi)
  slots := hI.slots
  config t i win hpc := by
    obtain ⟨hlock, hsole⟩ := hI.config t i win hpc
    exact ⟨(h.lock i).trans hlock, hsole⟩
  area a ha := by
    obtain ⟨hslot, hlock, hreg⟩ := hI.area a ha
    refine ⟨hslot, (h.lock a.bar).trans hlock, ?_⟩
    show s.regs (user.csr a.bar) = a.cfg
    rw [h.csr, hreg]
  distinct := hI.distinct

/-- Setting a free lock. -/
theorem WindowInv.take (hI : WindowInv s) (hpc : s.pc t = .take i win)
    (hfree : (s.user.bar i).lock = false) :
    WindowInv ({ s with user := s.user.setLock i true }.setPc t (.config i win)) := by
  have hi : i ∈ barSlots := by
    have hslots := hI.slots t
    rw [hpc] at hslots
    exact hslots i (List.mem_singleton.mpr rfl)
  -- whatever is locked is another slot
  have hne : ∀ {j}, (s.user.bar j).lock = true → j ≠ i := by
    rintro j hj rfl
    rw [hfree] at hj
    cases hj
  refine ⟨?_, ?_, ?_, ?_, hI.distinct⟩
  · intro j hj
    rw [setPc_user, NfpPcieUser.setLock_index]
    exact hI.index j hj
  · intro t'
    rcases eq_or_ne t' t with rfl | htt
    · rw [setPc_self]
      exact List.forall_mem_singleton.mpr hi
    · rw [setPc_of_ne htt]
      exact hI.slots t'
  · intro t' j win' h
    rcases eq_or_ne t' t with rfl | htt
    · -- the thread that took it
      have h' := h
      rw [setPc_self] at h'
      cases h'
      refine ⟨NfpPcieUser.setLock_lock_self _ _ _, ⟨win, h⟩, ?_, ?_⟩
      · intro t'' win' h''
        by_contra htt
        rw [setPc_of_ne htt] at h''
        exact hne (hI.config t'' i win' h'').1 rfl
      · intro a ha
        exact hne (hI.area a ha).2.1
    · rw [setPc_of_ne htt] at h
      obtain ⟨hlock, -, honly, hareas⟩ := hI.config t' j win' h
      have hji := hne hlock
      refine ⟨?_, ⟨win', ?_⟩, ?_, hareas⟩
      · rw [setPc_user, NfpPcieUser.setLock_bar_of_ne _ _ hji]
        exact hlock
      · rwa [setPc_of_ne htt]
      · intro t'' win'' h''
        rcases eq_or_ne t'' t with rfl | htt'
        · rw [setPc_self] at h''
          cases h''
          exact absurd rfl hji
        · rw [setPc_of_ne htt'] at h''
          exact honly t'' win'' h''
  · -- areas are on locked slots, so not on this one
    intro a ha
    obtain ⟨hslot, hlock, hreg⟩ := hI.area a ha
    refine ⟨hslot, ?_, ?_⟩
    · rw [setPc_user, NfpPcieUser.setLock_bar_of_ne _ _ (hne hlock)]
      exact hlock
    · rw [setPc_user, NfpPcieUser.setLock_csr]
      exact hreg

/-- A thread that has no BAR to configure. -/
theorem WindowInv.not_config_idle (hI : WindowInv s) (hpc : s.pc t = .config i win) :
    ∀ t' win', (s.setPc t .idle).pc t' ≠ .config i win' := by
  obtain ⟨-, -, honly, -⟩ := hI.config t i win hpc
  intro t' win' h
  rcases eq_or_ne t' t with rfl | htt
  · rw [setPc_self] at h
    cases h
  · rw [setPc_of_ne htt] at h
    exact htt (honly t' win' h)

/-- An area gets a locked BAR that nobody else holds, with its register written. -/
theorem WindowInv.hold (hI : WindowInv s) (a : HeldArea) (hslot : a.bar ∈ barSlots)
    (hlock : (s.user.bar a.bar).lock = true) (hpc : ∀ t win, s.pc t ≠ .config a.bar win)
    (hareas : ∀ b ∈ s.areas, b.bar ≠ a.bar) :
    WindowInv { s with
      regs := Function.update s.regs (s.user.csr a.bar) a.cfg, areas := s.areas ++ [a] } where
  index := hI.index
  slots := hI.slots
  config t j win h := by
    obtain ⟨hlock', hself, honly, hothers⟩ := hI.config t j win h
    refine ⟨hlock', hself, honly, ?_⟩
    intro b hb
    rcases List.mem_append.mp hb with hb | hb
    · exact hothers b hb
    · obtain rfl := List.mem_singleton.mp hb
      rintro rfl
      exact hpc t win h
  area b hb := by
    rcases List.mem_append.mp hb with hb | hb
    · obtain ⟨hslot', hlock', hreg⟩ := hI.area b hb
      -- another slot's register
      have hcsr : s.user.csr b.bar ≠ s.user.csr a.bar :=
        fun h => hareas b hb (hI.csr_inj hslot' hslot h)
      exact ⟨hslot', hlock', (Function.update_of_ne hcsr _ _).trans hreg⟩
    · obtain rfl := List.mem_singleton.mp hb
      exact ⟨hslot, hlock, Function.update_self _ _ _⟩
  distinct := by
    refine List.pairwise_append.mpr ⟨hI.distinct, List.pairwise_singleton _ _, ?_⟩
    intro b hb c hc
    rw [List.mem_singleton.mp hc]
    exact hareas b hb

/-- Areas that are given up. -/
theorem WindowInv.erase (hI : WindowInv s) (a : HeldArea) :
    WindowInv { s with areas := s.areas.erase a } where
  index := hI.index
  slots := hI.slots
  config t i win h := by
    obtain ⟨hlock, hpc, honly, hareas⟩ := hI.config t i win h
    exact ⟨hlock, hpc, honly, fun b hb => hareas b (List.mem_of_mem_erase hb)⟩
  area b hb := hI.area b (List.mem_of_mem_erase hb)
  distinct := hI.distinct.sublist List.erase_sublist

/-- Unlocking the BAR of an area that is given up. -/
theorem WindowInv.release (hI : WindowInv s) (ha : a ∈ s.areas) :
    WindowInv { s with user := s.user.setLock a.bar false, areas := s.areas.erase a } := by
  have hrest := hI.erase a
  -- the areas that stay have other BARs
  have hnodup : s.areas.Nodup := hI.distinct.imp fun h heq => h (congrArg HeldArea.bar heq)
  have hne : ∀ b ∈ s.areas.erase a, b.bar ≠ a.bar := by
    intro b hb
    obtain ⟨hba, hb⟩ := hnodup.mem_erase_iff.mp hb
    have : Std.Symm fun a b : HeldArea => a.bar ≠ b.bar := ⟨fun _ _ h => h.symm⟩
    exact hI.distinct.forall hb ha hba
  refine ⟨?_, hrest.slots, ?_, ?_, hrest.distinct⟩
  · intro i hi
    rw [NfpPcieUser.setLock_index]
    exact hI.index i hi
  · intro t i win h
    obtain ⟨hlock, hpc, honly, hareas⟩ := hI.config t i win h
    refine ⟨?_, hpc, honly, (hrest.config t i win h).2.2.2⟩
    rw [NfpPcieUser.setLock_bar_of_ne _ _ (hareas a ha).symm]
    exact hlock
  · intro b hb
    obtain ⟨hslot, hlock, hreg⟩ := hrest.area b hb
    refine ⟨hslot, ?_, ?_⟩
    · rw [NfpPcieUser.setLock_bar_of_ne _ _ (hne b hb)]
      exact hlock
    · rw [NfpPcieUser.setLock_csr]
      exact hreg

/-- Programming an explicit BAR that is not locked. -/
theorem WindowInv.enable (hI : WindowInv s) {csr : UInt64}
    (hfree : ∀ i ∈ barSlots, s.user.csr i = csr → (s.user.bar i).lock = false)
    (v : UInt32) (n : ℕ) :
    WindowInv { s with regs := Function.update s.regs csr v, enabled := n } where
  index := hI.index
  slots := hI.slots
  config := hI.config
  area a ha := by
    obtain ⟨hslot, hlock, hreg⟩ := hI.area a ha
    have hcsr : s.user.csr a.bar ≠ csr := by
      intro h
      rw [hfree a.bar hslot h] at hlock
      cases hlock
    exact ⟨hslot, hlock, (Function.update_of_ne hcsr _ _).trans hreg⟩
  distinct := hI.distinct

/-- `nfp_reconfigure_bar` for the holder of a BAR: the window is refused, or it is the new
area's. -/
theorem WindowInv.configured (hI : WindowInv s) (hpc : s.pc t = .config i win)
    (hs : s.next (.config t) = some s') : WindowInv s' := by
  obtain ⟨hlock, -, -, hareas⟩ := hI.config t i win hpc
  have hi : i ∈ barSlots := hI.slots t i (by rw [hpc]; exact List.mem_singleton.mpr rfl)
  -- the thread is done with the BAR, so that nobody configures it
  have hfree := hI.not_config_idle hpc
  have hidle : WindowInv (s.setPc t .idle) :=
    hI.setPc (List.forall_mem_nil _) fun _ _ h => by cases h
  -- what the call does to the slots and to the registers
  have hsame : s.user.SameSlots (s.reconfigure i win).2.1 := (nfpReconfigureBar_cases ..).1
  have hstore : (s.reconfigure i win).1 < 0 ∧ (s.reconfigure i win).2.2 = s.regs ∨
      ¬(s.reconfigure i win).1 < 0 ∧ (s.reconfigure i win).2.2 =
        Function.update s.regs (s.user.csr i) ((s.reconfigure i win).2.1.bar i).barcfg :=
    nfpReconfigureBar_store ..
  simp only [UserState.next, hpc, Option.some.injEq] at hs
  subst hs
  rcases hstore with ⟨hneg, hregs⟩ | ⟨hok, hregs⟩
  · rw [if_pos hneg, hregs]
    exact hidle.sameSlots hsame
  · rw [if_neg hok, hregs]
    exact (hidle.hold ⟨t, i, _⟩ hi hlock hfree hareas).sameSlots hsame

/-- A guarded step keeps every window where it is. -/
theorem WindowInv.step (hI : WindowInv s) (hs : s.next l = some s') (hg : Exclusive s l) :
    WindowInv s' := by
  cases l with
  | begin t win =>
    -- a scan looks at slots, it holds none
    simp only [UserState.next] at hs
    split at hs
    · cases hs
    · split at hs
      · cases hs
        exact hI.setPc (fun _ h => h) fun _ _ h => by cases h
      · cases hs
  | scan t =>
    have hslots := hI.slots t
    simp only [UserState.next] at hs
    split at hs
    next =>
      cases hs
      exact hI.setPc (List.forall_mem_nil _) fun _ _ h => by cases h
    next i rest win hpc =>
      rw [hpc] at hslots
      obtain ⟨hi, hrest⟩ := List.forall_mem_cons.mp hslots
      -- a slot that is locked is passed over
      split at hs <;> cases hs
      · exact hI.setPc hrest fun _ _ h => by cases h
      · exact hI.setPc (List.forall_mem_singleton.mpr hi) fun _ _ h => by cases h
    next => cases hs
  | take t =>
    simp only [UserState.next] at hs
    split at hs
    next i win hpc =>
      -- the guard: the slot is still free when its lock is set
      cases hs
      exact hI.take hpc (hg i win hpc)
    next => cases hs
  | config t =>
    cases hpc : s.pc t with
    | config i win => exact hI.configured hpc hs
    | idle => simp [UserState.next, hpc] at hs
    | scan rest win => simp [UserState.next, hpc] at hs
    | take i win => simp [UserState.next, hpc] at hs
  | release a =>
    simp only [UserState.next] at hs
    split at hs
    next ha =>
      cases hs
      exact hI.release ha
    next => cases hs
  | drop a =>
    simp only [UserState.next] at hs
    split at hs
    next ha =>
      cases hs
      exact hI.erase a
    next => cases hs
  | enable =>
    simp only [UserState.next] at hs
    split at hs
    next =>
      cases hs
      exact hI.enable hg _ _
    next => cases hs

/-- The register of a locked BAR: only its holder's `nfp_reconfigure_bar` writes it. -/
theorem WindowInv.by_holder (hI : WindowInv s) (hg : Exclusive s l) (hi : i ∈ barSlots)
    (hlock : (s.user.bar i).lock = true) (hw : s.registerWrite l = some (s.user.csr i)) :
    ∃ th, l = .config th ∧ SoleHolder s th i := by
  cases l with
  | config t =>
    -- the slot it configures has the register, so that it is the slot itself
    refine ⟨t, rfl, ?_⟩
    simp only [UserState.registerWrite] at hw
    split at hw
    next j win hpc =>
      split at hw
      · cases hw
      · have hj : j ∈ barSlots := hI.slots t j (by rw [hpc]; exact List.mem_singleton.mpr rfl)
        obtain rfl := hI.csr_inj hj hi (Option.some.inj hw)
        exact (hI.config t j win hpc).2
    next => cases hw
  | enable =>
    have hfree := hg i hi (Option.some.inj hw).symm
    rw [hlock] at hfree
    cases hfree
  | begin t win => cases hw
  | scan t => cases hw
  | take t => cases hw
  | release a => cases hw
  | drop a => cases hw

end

/-- `nfp_enable_bars` of the transport gives the slots their indices. -/
theorem nfpEnableBars_index (nfp : NfpPcieUser) {i : Fin nfpBarMax} (hi : i ∈ barSlots) :
    ((nfpEnableBars nfp).bar i).index = i.val.toUInt32 + 1 := by
  simp only [barSlots, List.mem_cons, List.not_mem_nil, or_false] at hi
  rcases hi with rfl | rfl | rfl <;>
    simp [nfpEnableBars, barSlots, nfpEnableBar, NfpPcieUser.setBar]

/-- No BAR is locked when the threads start. -/
theorem WindowInv.initial {s : UserState} (h : userSystem.init s) : WindowInv s := by
  obtain ⟨hindex, hidle, hareas, -⟩ := h
  refine ⟨hindex, ?_, ?_, ?_, ?_⟩
  -- no thread has begun, and there is no area
  · intro t
    rw [hidle t]
    exact List.forall_mem_nil _
  · intro t i win hpc
    rw [hidle t] at hpc
    cases hpc
  · rw [hareas]
    exact List.forall_mem_nil _
  · rw [hareas]
    exact .nil

/-- **A BAR in use keeps its window.** In every run whose steps all meet `Exclusive`, whatever
the order of the threads. -/
theorem barWindows_safe {h : List (Transition UserState UserLabel)} {s : UserState}
    (he : Exec userSystem h s) (hg : ∀ t ∈ h, Exclusive t.src t.label) : ∀ t ∈ h, BarSafe t := by
  refine he.forall_of_guard (fun s hs => WindowInv.initial hs)
    (fun s l s' hI hs hg => WindowInv.step hI hs hg) ?_ hg
  intro s l s' hI hs hg
  have hI' : WindowInv s' := hI.step hs hg
  exact ⟨fun i hi hlock hw => hI.by_holder hg hi hlock hw, fun a ha => (hI'.area a ha).2.2⟩

/-! ### The start of the threads -/

/-- Two threads that have not begun, and a bank of idle BARs. -/
def startState : UserState where
  user := nfpEnableBars ⟨fun _ => ⟨0, 0, 0, 0, 0, false, 0⟩, 24, 0x10000000⟩
  regs _ := 0
  pc _ := .idle
  areas := []
  enabled := 0

/-- A state that a process can start in. -/
theorem startState_init : userSystem.init startState :=
  ⟨fun _ hi => nfpEnableBars_index _ hi, fun _ => rfl, rfl, rfl⟩

/-- The server enables its BARs, then the worker maps its metadata through slot 3 and keeps it.
A command of the server finds slot 3 locked, takes slot 2 and gives it back. -/
theorem barWindows_safe_held : ∃ h s, Exec userSystem h s ∧
    s.areas = [⟨.worker, 3, 0x2b800000⟩] ∧ (s.user.bar 3).lock = true ∧
    (s.user.bar 2).lock = false ∧ (∀ t ∈ h, BarSafe t) := by
  have hrun : (runLabels (guarded UserState.next Exclusive) startState
      [.enable, .enable,
        .begin .worker ⟨7, 0, 0, 0, 64, 8⟩, .scan .worker, .take .worker, .config .worker,
        .begin .server ⟨7, 0, 0, 0x1000000, 64, 8⟩, .scan .server, .scan .server, .take .server,
        .config .server, .release ⟨.server, 2, 0x2b800020⟩]).map
      (fun s => (s.areas, (s.user.bar 3).lock, (s.user.bar 2).lock)) =
      some ([⟨.worker, 3, 0x2b800000⟩], true, false) := by decide
  obtain ⟨h, s, he, -, hexclusive, hs⟩ := Exec.exists_of_guarded_run _ _ startState_init hrun
  obtain ⟨hareas, hlocks⟩ := Prod.mk.inj hs
  obtain ⟨hlock, hfree⟩ := Prod.mk.inj hlocks
  exact ⟨h, s, he, hareas, hlock, hfree, barWindows_safe he hexclusive⟩

/-- The worker maps its metadata first. -/
theorem barWindows_clash : ¬ ∀ h s, Exec userSystem h s → ∀ t ∈ h, BarSafe t := by
  intro hall
  let labels : List UserLabel :=
    [.begin .worker ⟨7, 0, 0, 0, 64, 8⟩, .scan .worker, .take .worker, .config .worker]
  have hrun : (runLabels UserState.next startState labels).map
      (fun s => ((s.user.bar 3).lock, decide (s.user.csr 3 = s.explicitCsr), s.enabled)) =
      some (true, true, 0) := by decide
  obtain ⟨s, ⟨h, he⟩, hview⟩ := System.Reachable.of_run _ _ startState_init hrun
  obtain ⟨hlock, hview⟩ := Prod.mk.inj hview
  obtain ⟨hcsr, henabled⟩ := Prod.mk.inj hview
  -- the main thread programs its first explicit BAR
  have hstep : s.next .enable = some { s with
      regs := regBus.store32 s.explicitCsr (barcfgExplicit s.enabled) s.regs
      enabled := s.enabled + 1 } := by
    simp only [UserState.next, henabled]
    rfl
  have hsafe := hall _ _ (he.snoc hstep) _ (List.mem_append_right _ (List.mem_singleton.mpr rfl))
  have hwrite : s.registerWrite .enable = some (s.user.csr 3) := by
    rw [of_decide_eq_true hcsr]
    rfl
  obtain ⟨th, hth, -⟩ := hsafe.by_holder 3 (by decide) hlock hwrite
  cases hth

end NfpUdpEcho
