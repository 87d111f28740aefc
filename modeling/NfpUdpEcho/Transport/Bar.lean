import Mathlib.Data.Fintype.Basic
import Mathlib.Data.UInt
import NfpUdpEcho.Errno

/-!
# The BARs of the PCIe transport

The transport (`user/nfpcore/nfp_cpp_pcie_ops.c`) reaches the device through the slots of its
PCIe BARs. A slot is locked by the area that uses it, and its PCIe-to-CPP expansion register
says which CPP addresses appear in it.

`rte_eal_process_type()` is the constant `RTE_PROC_PRIMARY` in this program, so of the two
ranges of slots only the primary process's is used. Pointers are addresses, with zero for
`NULL`.

Later proofs see the slots through two relations only: which of them are locked (`locked`), and
whether two states have the same slots up to their windows (`SameSlots`), which is all that
programming a register can change. Nothing behind this module unfolds `nfpBarWrite` or the search
for a free slot; `nfpBarWrite_cases` and `nfpAllocBar_cases` say what they do.
-/

namespace NfpUdpEcho

open Errno

/-! ### The expansion register -/

def pcie2cppActionBaseAddress (x : UInt32) : UInt32 := (x &&& 0x1f) <<< 16
def pcie2cppLengthSelect (x : UInt32) : UInt32 := (x &&& 0x3) <<< 27
def pcie2cppMaptype (x : UInt32) : UInt32 := (x &&& 0x7) <<< 29
def pcie2cppMaptypeOf (x : UInt32) : UInt32 := (x >>> 29) &&& 0x7
def pcie2cppTargetBaseAddress (x : UInt32) : UInt32 := (x &&& 0xf) <<< 23
def pcie2cppTokenBaseAddress (x : UInt32) : UInt32 := (x &&& 0x3) <<< 21

def lengthSelect32Bit : UInt32 := 0
def lengthSelect64Bit : UInt32 := 1
def lengthSelect0Byte : UInt32 := 3

def maptypeFixed : UInt32 := 0
def maptypeBulk : UInt32 := 1
def maptypeGeneral : UInt32 := 3

def nfpCppActionRW : UInt32 := 32

/-- An `int` where the code needs 64 bits. -/
def signExtend (x : UInt32) : UInt64 := x.toInt32.toInt64.toUInt64

/-- `~(NFP_PCIE_P2C_FIXED_SIZE(bar) - 1)`, the same for bulk. -/
def p2cMask (bitsize : UInt32) : UInt64 := signExtend (~~~((1 <<< bitsize) - 1))

/-- `nfp_compute_bar`: the register value and the base of the window, if the BAR can show
`size` bytes at `offset`. -/
def nfpComputeBar (bitsize : UInt32) (tgt act tok : Int32) (offset size : UInt64)
    (width : Int32) : Except ℤ (UInt32 × UInt64) :=
  if tgt ≥ 16 then .error (-EINVAL)
  else
    let lengthSelect : Option UInt32 :=
      if width = 8 then some lengthSelect64Bit
      else if width = 4 then some lengthSelect32Bit
      else if width = 0 then some lengthSelect0Byte
      else none
    match lengthSelect with
    | none => .error (-EINVAL)
    | some select =>
      let newcfg := pcie2cppLengthSelect select
      let mask := p2cMask bitsize
      if act.toUInt32 ≠ nfpCppActionRW ∧ act ≠ 0 then
        -- fixed CPP mapping with specific action
        let newcfg := newcfg ||| pcie2cppMaptype maptypeFixed
          ||| pcie2cppTargetBaseAddress tgt.toUInt32
          ||| pcie2cppActionBaseAddress act.toUInt32 ||| pcie2cppTokenBaseAddress tok.toUInt32
        if offset &&& mask ≠ (offset + size - 1) &&& mask then .error (-EINVAL)
        else if bitsize < 40 - 16 then .error (-EINVAL)
        else .ok (newcfg ||| ((offset &&& mask) >>> (40 - 16)).toUInt32, offset &&& mask)
      else
        -- bulk mapping
        let newcfg := newcfg ||| pcie2cppMaptype maptypeBulk
          ||| pcie2cppTargetBaseAddress tgt.toUInt32 ||| pcie2cppTokenBaseAddress tok.toUInt32
        if offset &&& mask ≠ (offset + size - 1) &&& mask then .error (-EINVAL)
        else if bitsize < 40 - 21 then .error (-EINVAL)
        else .ok (newcfg ||| ((offset &&& mask) >>> (40 - 21)).toUInt32, offset &&& mask)

/-! ### The slots -/

/-- `struct nfp_bar`, without the pointer to its register, which is `NfpPcieUser.csr`. -/
structure NfpBar where
  barcfg : UInt32
  base : UInt64
  mask : UInt64
  bitsize : UInt32
  index : UInt32
  lock : Bool
  iomem : UInt64

abbrev nfpBarMax : ℕ := 7

/-- `struct nfp_pcie_user`: what area operations read and write of it. -/
structure NfpPcieUser where
  bar : Fin nfpBarMax → NfpBar
  barsz : UInt32
  cfg : UInt64

/-- Accesses to the mapped device, by address. -/
structure Bus (δ : Type) where
  load32 : UInt64 → δ → UInt32 × δ
  load64 : UInt64 → δ → UInt64 × δ
  store32 : UInt64 → UInt32 → δ → δ
  store64 : UInt64 → UInt64 → δ → δ

namespace NfpPcieUser

def setBar (nfp : NfpPcieUser) (i : Fin nfpBarMax) (bar : NfpBar) : NfpPcieUser :=
  { nfp with bar := Function.update nfp.bar i bar }

def setLock (nfp : NfpPcieUser) (i : Fin nfpBarMax) (lock : Bool) : NfpPcieUser :=
  nfp.setBar i { nfp.bar i with lock := lock }

/-- The BARs in use. -/
def locked (nfp : NfpPcieUser) : Finset (Fin nfpBarMax) :=
  Finset.univ.filter fun i => (nfp.bar i).lock = true

end NfpPcieUser

/-- The slots of the primary process, in the order of `for (x = 4; x > 1; x--)`; the loops use
`bar[x - 1]`. -/
def barSlots : List (Fin nfpBarMax) := [3, 2, 1]

def nfpPcieCfgBarPcieToCppExpBar (bar slot : UInt32) : UInt64 :=
  (0x30000 + (bar * 8 + slot) * 4).toUInt64

/-- `nfp_enable_bars`, for one slot. -/
def nfpEnableBar (nfp : NfpPcieUser) (i : Fin nfpBarMax) : NfpPcieUser :=
  let index : UInt32 := i.val.toUInt32 + 1
  nfp.setBar i
    { barcfg := 0
      index := index
      mask := signExtend ((1 <<< (nfp.barsz - 3)) - 1)
      bitsize := nfp.barsz - 3
      base := 0
      lock := false
      iomem := nfp.cfg + signExtend (index <<< (nfp.barsz - 3)) }

/-- `nfp_enable_bars`. -/
def nfpEnableBars (nfp : NfpPcieUser) : NfpPcieUser := barSlots.foldl nfpEnableBar nfp

/-- The loop of `nfp_alloc_bar`. -/
def allocBarFrom : List (Fin nfpBarMax) → NfpPcieUser → Option (Fin nfpBarMax) × NfpPcieUser
  | [], nfp => (none, nfp)
  | i :: rest, nfp =>
    if (nfp.bar i).lock then allocBarFrom rest nfp else (some i, nfp.setLock i true)

/-- `nfp_alloc_bar`. -/
def nfpAllocBar (nfp : NfpPcieUser) : Option (Fin nfpBarMax) × NfpPcieUser :=
  allocBarFrom barSlots nfp

variable {δ : Type}

/-- Where the expansion register of a slot is mapped: `bar->csr`. -/
def NfpPcieUser.csr (nfp : NfpPcieUser) (i : Fin nfpBarMax) : UInt64 :=
  nfp.cfg + nfpPcieCfgBarPcieToCppExpBar ((nfp.bar i).index >>> 3) ((nfp.bar i).index &&& 7)

/-- `nfp_bar_write`. -/
def nfpBarWrite (bus : Bus δ) (nfp : NfpPcieUser) (i : Fin nfpBarMax) (newcfg : UInt32) (dev : δ) :
    ℤ × NfpPcieUser × δ :=
  if nfp.cfg = 0 then (-ENOMEM, nfp, dev)
  else (0, nfp.setBar i { nfp.bar i with barcfg := newcfg }, bus.store32 (nfp.csr i) newcfg dev)

/-- `nfp_reconfigure_bar`. -/
def nfpReconfigureBar (bus : Bus δ) (nfp : NfpPcieUser) (i : Fin nfpBarMax) (tgt act tok : Int32)
    (offset size : UInt64) (width : Int32) (dev : δ) : ℤ × NfpPcieUser × δ :=
  match nfpComputeBar (nfp.bar i).bitsize tgt act tok offset size width with
  | .error err => (err, nfp, dev)
  | .ok (newcfg, newbase) =>
    let nfp := nfp.setBar i { nfp.bar i with base := newbase }
    nfpBarWrite bus nfp i newcfg dev

/-! ### Locks

Setting a lock, reading it back, and what it leaves as it was. -/

namespace NfpPcieUser

/-- The set of the locked slots, read back. -/
@[simp] theorem mem_locked {nfp : NfpPcieUser} {i : Fin nfpBarMax} :
    i ∈ nfp.locked ↔ (nfp.bar i).lock = true := by
  simp [locked]

@[simp] theorem setBar_bar_self (nfp : NfpPcieUser) (i : Fin nfpBarMax) (bar : NfpBar) :
    (nfp.setBar i bar).bar i = bar := by
  simp [setBar]

@[simp] theorem setBar_bar_of_ne (nfp : NfpPcieUser) (bar : NfpBar) {i j : Fin nfpBarMax}
    (h : j ≠ i) : (nfp.setBar i bar).bar j = nfp.bar j := by
  simp [setBar, h]

/-- The same slots, up to the windows they show. -/
structure SameSlots (nfp nfp' : NfpPcieUser) : Prop where
  lock : ∀ j, (nfp'.bar j).lock = (nfp.bar j).lock
  iomem : ∀ j, (nfp'.bar j).iomem = (nfp.bar j).iomem
  index : ∀ j, (nfp'.bar j).index = (nfp.bar j).index
  cfg : nfp'.cfg = nfp.cfg

/-- Nothing was done. -/
theorem SameSlots.refl (nfp : NfpPcieUser) : SameSlots nfp nfp :=
  ⟨fun _ => rfl, fun _ => rfl, fun _ => rfl, rfl⟩

/-- One register after the other. -/
theorem SameSlots.trans {a b c : NfpPcieUser} (h : SameSlots a b) (h' : SameSlots b c) :
    SameSlots a c where
  lock j := (h'.lock j).trans (h.lock j)
  iomem j := (h'.iomem j).trans (h.iomem j)
  index j := (h'.index j).trans (h.index j)
  cfg := h'.cfg.trans h.cfg

/-- The same slots are locked. -/
theorem SameSlots.locked {nfp nfp' : NfpPcieUser} (h : SameSlots nfp nfp') :
    nfp'.locked = nfp.locked := by
  ext j
  rw [mem_locked, mem_locked, h.lock]

/-- The registers are where they were. -/
theorem SameSlots.csr {nfp nfp' : NfpPcieUser} (h : SameSlots nfp nfp') (i : Fin nfpBarMax) :
    nfp'.csr i = nfp.csr i := by
  rw [NfpPcieUser.csr, NfpPcieUser.csr, h.cfg, h.index]

/-- A slot whose window alone changes. -/
theorem SameSlots.setBar (nfp : NfpPcieUser) (i : Fin nfpBarMax) (base : UInt64)
    (barcfg : UInt32) :
    SameSlots nfp (nfp.setBar i { nfp.bar i with base := base, barcfg := barcfg }) := by
  refine ⟨?_, ?_, ?_, rfl⟩ <;> intro j <;> rcases eq_or_ne j i with rfl | hne
  all_goals first
    | rw [setBar_bar_self]
    | rw [setBar_bar_of_ne nfp _ hne]

@[simp] theorem setLock_lock_self (nfp : NfpPcieUser) (i : Fin nfpBarMax) (lock : Bool) :
    ((nfp.setLock i lock).bar i).lock = lock := by
  rw [setLock, setBar_bar_self]

@[simp] theorem setLock_bar_of_ne (nfp : NfpPcieUser) {i j : Fin nfpBarMax} (lock : Bool)
    (h : j ≠ i) : (nfp.setLock i lock).bar j = nfp.bar j :=
  setBar_bar_of_ne nfp _ h

@[simp] theorem setLock_index (nfp : NfpPcieUser) (i j : Fin nfpBarMax) (lock : Bool) :
    ((nfp.setLock i lock).bar j).index = (nfp.bar j).index := by
  rcases eq_or_ne j i with rfl | hne
  · rw [setLock, setBar_bar_self]
  · rw [setLock_bar_of_ne nfp lock hne]

@[simp] theorem setLock_csr (nfp : NfpPcieUser) (i j : Fin nfpBarMax) (lock : Bool) :
    (nfp.setLock i lock).csr j = nfp.csr j := by
  rw [csr, csr, setLock_index]
  rfl

/-- Locking a slot. -/
theorem locked_setLock_true (nfp : NfpPcieUser) (i : Fin nfpBarMax) :
    (nfp.setLock i true).locked = insert i nfp.locked := by
  ext j
  rw [Finset.mem_insert, mem_locked, mem_locked, setLock]
  rcases eq_or_ne j i with rfl | hne
  · simp
  · simp [hne]

/-- Unlocking a slot. -/
theorem locked_setLock_false (nfp : NfpPcieUser) (i : Fin nfpBarMax) :
    (nfp.setLock i false).locked = nfp.locked.erase i := by
  ext j
  rw [Finset.mem_erase, mem_locked, mem_locked, setLock]
  rcases eq_or_ne j i with rfl | hne
  · simp
  · simp [hne]

theorem setBar_cfg (nfp : NfpPcieUser) (i : Fin nfpBarMax) (bar : NfpBar) :
    (nfp.setBar i bar).cfg = nfp.cfg := rfl

end NfpPcieUser

/-- An allocation locks a slot that was free, if there is one. -/
theorem allocBarFrom_cases (slots : List (Fin nfpBarMax)) (nfp : NfpPcieUser) :
    (∃ i, i ∉ nfp.locked ∧ allocBarFrom slots nfp = (some i, nfp.setLock i true)) ∨
      allocBarFrom slots nfp = (none, nfp) := by
  induction slots with
  | nil => exact .inr rfl
  | cons i rest ih =>
    rw [allocBarFrom]
    by_cases hlock : (nfp.bar i).lock = true
    · rw [if_pos hlock]
      exact ih
    · rw [if_neg hlock]
      exact .inl ⟨i, by rwa [NfpPcieUser.mem_locked], rfl⟩

/-- The first slot that is free is locked, or none is. -/
theorem nfpAllocBar_cases (nfp : NfpPcieUser) :
    (∃ i, i ∉ nfp.locked ∧ nfpAllocBar nfp = (some i, nfp.setLock i true)) ∨
      nfpAllocBar nfp = (none, nfp) :=
  allocBarFrom_cases barSlots nfp

/-- An error of the computation is negative. -/
theorem nfpComputeBar_neg {bitsize : UInt32} {tgt act tok width : Int32} {offset size : UInt64}
    {err : ℤ} (h : nfpComputeBar bitsize tgt act tok offset size width = .error err) :
    err < 0 := by
  have hneg : -EINVAL < 0 := by decide
  simp only [nfpComputeBar] at h
  repeat' split at h
  all_goals first
    | exact Except.error.inj h ▸ hneg
    | cases h

theorem nfpBarWrite_cases (bus : Bus δ) (nfp : NfpPcieUser) (i : Fin nfpBarMax) (newcfg : UInt32)
    (dev : δ) :
    nfp.SameSlots (nfpBarWrite bus nfp i newcfg dev).2.1 ∧
      ((nfpBarWrite bus nfp i newcfg dev).1 < 0 ↔ nfp.cfg = 0) := by
  unfold nfpBarWrite
  by_cases hcfg : nfp.cfg = 0
  · rw [if_pos hcfg]
    exact ⟨.refl nfp, iff_of_true (show -ENOMEM < 0 by decide) hcfg⟩
  · rw [if_neg hcfg]
    exact ⟨.setBar nfp i (nfp.bar i).base newcfg, iff_of_false (lt_irrefl 0) hcfg⟩

/-- Pointing a BAR at a window changes no lock. It fails when the window does not fit or the
registers are not mapped. -/
theorem nfpReconfigureBar_cases (bus : Bus δ) (nfp : NfpPcieUser) (i : Fin nfpBarMax)
    (tgt act tok : Int32) (offset size : UInt64) (width : Int32) (dev : δ) :
    nfp.SameSlots (nfpReconfigureBar bus nfp i tgt act tok offset size width dev).2.1 ∧
      ((nfpReconfigureBar bus nfp i tgt act tok offset size width dev).1 < 0 ↔
        nfp.cfg = 0 ∨
          ∃ err, nfpComputeBar (nfp.bar i).bitsize tgt act tok offset size width = .error err) := by
  unfold nfpReconfigureBar
  cases hcompute : nfpComputeBar (nfp.bar i).bitsize tgt act tok offset size width with
  | error err => exact ⟨.refl nfp, iff_of_true (nfpComputeBar_neg hcompute) (.inr ⟨err, rfl⟩)⟩
  | ok p =>
    obtain ⟨newcfg, newbase⟩ := p
    have hbase : nfp.SameSlots (nfp.setBar i { nfp.bar i with base := newbase }) :=
      .setBar nfp i newbase (nfp.bar i).barcfg
    obtain ⟨hsame, hneg⟩ :=
      nfpBarWrite_cases bus (nfp.setBar i { nfp.bar i with base := newbase }) i newcfg dev
    refine ⟨hbase.trans hsame, ?_⟩
    rw [hneg, NfpPcieUser.setBar_cfg]
    simp

/-- It writes the register of its own slot, and `barcfg` keeps what it wrote. -/
theorem nfpReconfigureBar_store (bus : Bus δ) (nfp : NfpPcieUser) (i : Fin nfpBarMax)
    (tgt act tok : Int32) (offset size : UInt64) (width : Int32) (dev : δ) :
    let q := nfpReconfigureBar bus nfp i tgt act tok offset size width dev
    (q.1 < 0 ∧ q.2.2 = dev) ∨
      (¬q.1 < 0 ∧ q.2.2 = bus.store32 (nfp.csr i) (q.2.1.bar i).barcfg dev) := by
  simp only [nfpReconfigureBar]
  cases hcompute : nfpComputeBar (nfp.bar i).bitsize tgt act tok offset size width with
  | error err => exact .inl ⟨nfpComputeBar_neg hcompute, rfl⟩
  | ok p =>
    obtain ⟨newcfg, newbase⟩ := p
    have hcsr := (NfpPcieUser.SameSlots.setBar nfp i newbase (nfp.bar i).barcfg).csr i
    simp only [nfpBarWrite]
    split
    · exact .inl ⟨show -ENOMEM < 0 by decide, rfl⟩
    · refine .inr ⟨lt_irrefl 0, ?_⟩
      simp only [NfpPcieUser.setBar_bar_self]
      exact congrArg (bus.store32 · newcfg dev) hcsr

end NfpUdpEcho
