import Mathlib.Data.Nat.Size
import NfpUdpEcho.Errno
import NfpUdpEcho.Host.PciAddr

/-!
# Setting up the BARs of the device server

`nfp_enable_bars` (`user/nfpcore/nfp_cpp_dev.c`) fills the table of BAR slots with a cursor that it
steps back where a resource is missing. The cursor is behind the last entry when the loop is done,
and the lines after it use the entry that it points to, which nobody has filled. What they make of
it is what was in the memory that `malloc` returned.

`data` is that memory, and the entry behind the array lies over the pointers that follow it there.
An address that cannot be accessed ends the process (`none`).

The first loop is described exactly (`Filled`): which entries it has filled and that the memory from
the cursor on is untouched. Of everything after it two facts are enough, that the number of entries
stays and that accesses are only added to the record (`Grows`), because one access is bad already:
the one at the cursor. It is there in every set-up that succeeds, so the law fails there
(`not_barsOk`). For the other direction of the condition a memory is given with which the set-up
does succeed; that nothing stops it is `Ready`, carried through the second loop.
-/

namespace NfpUdpEcho.BarSetup

open Errno Pci

/-- A pointer to an entry of `mem_resource`, or whatever else the memory holds. -/
inductive ResourcePtr where
  | table (i : Fin 6)
  | stray (addr : UInt64)

/-- `struct nfp_bar`. -/
structure NfpBar where
  barcfg : UInt32
  base : UInt64
  mask : UInt64
  bitsize : UInt32
  index : ℤ
  iomem : UInt64
  resource : ResourcePtr

/-- `NFP_PCI_BAR_MAX`. -/
def nfpPciBarMax : ℕ := 24

/-- `expl.group` of the device data. -/
structure ExplGroup where
  addr : UInt64
  bitsize : UInt32
  free : Fin 4 → ℤ

/-- What `nfp_enable_bars` works on of `struct nfp_cpp_dev_data`. -/
structure CppDevData where
  bars : ℤ
  bar : ℤ → NfpBar
  csr : UInt64
  em : UInt64
  expl : Fin 4 → UInt64
  masterId : UInt8
  signalRef : UInt8
  explData : UInt64
  group : Fin 4 → ExplGroup

/-- What is read at `bar[k]`: the entry behind the array lies over `iomem`. -/
def CppDevData.entry (data : CppDevData) (k : ℤ) : NfpBar :=
  if k = nfpPciBarMax then
    ⟨data.csr.toUInt32, data.em, data.expl 0, (data.expl 1).toUInt32,
      (data.expl 1 >>> 32).toUInt32.toBitVec.toInt, data.expl 2, .stray (data.expl 3)⟩
  else data.bar k

/-- The assignment of `bar[k].iomem`. -/
def CppDevData.setIomem (data : CppDevData) (k : ℤ) (iomem : UInt64) : CppDevData :=
  if k = nfpPciBarMax then { data with expl := Function.update data.expl 2 iomem }
  else { data with bar := Function.update data.bar k { data.bar k with iomem := iomem } }

/-- The assignments of `expl.data`, `iomem.csr` and `iomem.em`. -/
def CppDevData.setPointers (data : CppDevData) (explData csr em : UInt64) : CppDevData :=
  { data with explData := explData, csr := csr, em := em }

@[simp]
theorem setPointers_bars (data : CppDevData) (explData csr em : UInt64) :
    (data.setPointers explData csr em).bars = data.bars := rfl

@[simp]
theorem setPointers_bar (data : CppDevData) (explData csr em : UInt64) :
    (data.setPointers explData csr em).bar = data.bar := rfl

@[simp]
theorem setPointers_csr (data : CppDevData) (explData csr em : UInt64) :
    (data.setPointers explData csr em).csr = csr := rfl

/-- The process and the device: the field `addr` of what lies at an address, the addresses that
can be accessed, and what `rte_pci_write_config` returns. -/
structure Host where
  resourceAddr : UInt64 → Option UInt64
  access : UInt64 → Bool
  writeConfig : ℤ → UInt32 → ℤ

/-- The device data, the entry that `bar` points to, the entries that were read or written, and
those that the first loop has filled. -/
structure SetupState where
  data : CppDevData
  cursor : ℤ
  accessed : List ℤ
  filled : List ℤ

/-- `NFP_PCI_MIN_MAP_SIZE`. -/
def nfpPciMinMapSize : UInt64 := 0x080000

/-- `NFP_PCIE_BAR(0)`. -/
def nfpPcieBar0 : UInt64 := 0x30000

def nfpPcieEm : UInt64 := 0x020000

def nfpPcieSram : UInt64 := 0x000000

/-- `NFP_PCIE_BAR_PCIE2CPP_MapType` of the types `EXPLICIT0` to `EXPLICIT3`. -/
def barcfgExplicit (i : Fin 4) : UInt32 := ((UInt32.ofNat (4 + i)) &&& 0x7) <<< 29

/-- `rte_fls_u64`. -/
def rteFlsU64 (x : UInt64) : UInt32 := UInt32.ofNat x.toNat.size

/-- The resource of BAR slot `i`. -/
def slotResource (i : ℕ) : Fin 6 := Fin.ofNat 6 (i / 8 * 2)

/-- The entry that the first loop makes for slot `i`. -/
def slotBar (dev : Fin 6 → RteMemResource) (i : ℕ) : NfpBar :=
  let mask := (dev (slotResource i)).len / 8 - 1
  ⟨0, 0, mask, rteFlsU64 mask, i, 0, .table (slotResource i)⟩

def SetupState.setBar (s : SetupState) (k : ℤ) (bar : NfpBar) : SetupState :=
  { s with
    data := { s.data with bar := Function.update s.data.bar k bar }
    accessed := s.accessed ++ [k] }

/-- What is set for group `i` when its entry is. -/
def SetupState.setGroup (s : SetupState) (i : Fin 4) (bar : NfpBar) : SetupState :=
  { s with
    data := { s.data with
      group := Function.update s.data.group i ⟨bar.iomem, bar.bitsize, fun _ => 1⟩
      expl := Function.update s.data.expl i bar.iomem } }

/-! ### The functions -/

/-- `nfp_bar_resource_start`. -/
def nfpBarResourceStart (dev : Fin 6 → RteMemResource) (host : Host) (bar : NfpBar) :
    Option UInt64 :=
  let start :=
    match bar.resource with
    | .table i => some (dev i).addr
    | .stray addr => host.resourceAddr addr
  start.map fun addr => addr + (bar.mask + 1) * UInt64.ofNat (bar.index % 8).toNat

/-- `nfp_bar_write`. -/
def nfpBarWrite (host : Host) (k : ℤ) (newcfg : UInt32) (s : SetupState) :
    Option (ℤ × SetupState) :=
  let bar := s.data.bar k
  -- where the slot is in the registers of the expansion BARs
  let xbar := (bar.index / 8 * 8 + bar.index % 8) * 4
  if s.data.csr ≠ 0 then
    -- written and read back
    if host.access (s.data.csr + UInt64.ofInt xbar) then
      some (0, s.setBar k { bar with barcfg := newcfg })
    else none
  -- without a mapping the slot is written in the configuration space
  else if host.writeConfig (0x400 + xbar) newcfg < 0 then
    some (-1, { s with accessed := s.accessed ++ [k] })
  else some (0, s.setBar k { bar with barcfg := newcfg })

/-- One round of the first loop: fill an entry, or step the cursor back. -/
def fillBar (dev : Fin 6 → RteMemResource) (s : SetupState) (i : ℕ) : SetupState :=
  let res := dev (slotResource i)
  let s :=
    -- `bar--`, which the step of the loop takes back
    if res.physAddr = 0 then { s with cursor := s.cursor - 1 }
    else { s.setBar s.cursor (slotBar dev i) with filled := s.filled ++ [s.cursor] }
  { s with cursor := s.cursor + 1 }

/-- The first loop of `nfp_enable_bars`. -/
def fillBars (dev : Fin 6 → RteMemResource) (data : CppDevData) : SetupState :=
  (List.range nfpPciBarMax).foldl (fillBar dev) ⟨data, 0, [], []⟩

/-- `bar_cmp`. -/
def barCmp (a b : NfpBar) : ℤ :=
  if a.bitsize = b.bitsize then a.index - b.index
  else (a.bitsize.toNat : ℤ) - b.bitsize.toNat

/-- `qsort` of the entries below `bars`. -/
def sortBars (s : SetupState) : SetupState :=
  let entries := List.range s.data.bars.toNat
  let sorted := (entries.map fun k => s.data.bar k).mergeSort fun a b => barCmp a b ≤ 0
  { s with
    data := { s.data with
      bar := fun k => if 0 ≤ k then sorted.getD k.toNat (s.data.bar k) else s.data.bar k }
    accessed := s.accessed ++ entries.map Int.ofNat }

/-- One round of the second loop. -/
def setupExplicit (dev : Fin 6 → RteMemResource) (host : Host) (s : SetupState) (i : Fin 4) :
    Option SetupState :=
  -- only two of the four groups have an entry
  if i.val ≥ 2 then
    some { s with
      data := { s.data with
        group := Function.update s.data.group i { s.data.group i with bitsize := 0 } } }
  else do
    let k : ℤ := 4 + i
    let start ← nfpBarResourceStart dev host (s.data.bar k)
    let s := s.setBar k { s.data.bar k with iomem := start }
    let (_, s) ← nfpBarWrite host k (barcfgExplicit i) s
    return s.setGroup i (s.data.bar k)

/-- Between the loops, `bar` is the cursor: the entry behind the last one is mapped when it is
large enough. -/
def mapCursor (dev : Fin 6 → RteMemResource) (host : Host) (s : SetupState) : Option CppDevData :=
  let bar := s.data.entry s.cursor
  if bar.mask + 1 ≥ nfpPciMinMapSize then
    (nfpBarResourceStart dev host bar).map (s.data.setIomem s.cursor)
  else some s.data

/-- The pointers that are made of `bar->iomem`. -/
def setupPointers (dev : Fin 6 → RteMemResource) (host : Host) (s : SetupState) :
    Option SetupState :=
  (mapCursor dev host s).map fun data =>
    let iomem := (data.entry s.cursor).iomem
    { s with
      data := data.setPointers (iomem + nfpPcieSram + 0x1000) (iomem + nfpPcieBar0)
        (iomem + nfpPcieEm)
      accessed := s.accessed ++ [s.cursor] }

/-- `nfp_enable_bars`; `interface` is what `nfp_cpp_interface` returns. -/
def nfpEnableBars (dev : Fin 6 → RteMemResource) (host : Host) (interface : UInt32)
    (data : CppDevData) : Option (ℤ × SetupState) :=
  let s := fillBars dev data
  let s := { s with data := { s.data with bars := s.cursor } }
  if s.data.bars < 8 then some (-EINVAL, s)
  else do
    let s ← setupPointers dev host { s with
      data := { s.data with
        masterId := (((interface >>> 8 &&& 0xf) &&& 3).toUInt8 + 4) <<< 4
        signalRef := 0x10 } }
    let s ← (List.finRange 4).foldlM (setupExplicit dev host) s
    return (0, sortBars s)

/-! ### The law of the set-up -/

variable {dev : Fin 6 → RteMemResource} {host : Host} {interface : UInt32} {data : CppDevData}
  {s s' : SetupState} {i : ℕ}

/-- The resource of a slot is there. -/
def present (dev : Fin 6 → RteMemResource) (i : ℕ) : Bool := (dev (slotResource i)).physAddr ≠ 0

/-- The slots of the resources that are there, among the first `n`. -/
def slots (dev : Fin 6 → RteMemResource) (n : ℕ) : List ℕ := (List.range n).filter (present dev)

/-- The pointer lies in what is mapped of a BAR that is there. -/
def InAperture (dev : Fin 6 → RteMemResource) (p : UInt64) : Prop :=
  ∃ i, (i = 0 ∨ i = 2 ∨ i = 4) ∧ (dev i).physAddr ≠ 0 ∧ (dev i).addr.toNat ≤ p.toNat ∧
    p.toNat < (dev i).addr.toNat + (dev i).len.toNat

/-- Only BARs that exist are used. -/
structure BarsOk (dev : Fin 6 → RteMemResource) (data : CppDevData) (s : SetupState) : Prop where
  accessed : ∀ k ∈ s.accessed, 0 ≤ k ∧ k < s.data.bars ∧ k ∈ s.filled
  entries : (List.range s.data.bars.toNat).map (fun k : ℕ => (fillBars dev data).data.bar k) =
    (slots dev nfpPciBarMax).map (slotBar dev)
  csr : InAperture dev s.data.csr
  em : InAperture dev s.data.em
  explData : InAperture dev s.data.explData

/-! ### The first loop

By induction on the rounds; the cursor counts the slots whose resource is there. -/

/-- A round for a resource that is not there takes its step of the cursor back. -/
theorem fillBar_absent (h : present dev i = false) : fillBar dev s i = s := by
  have hphys : (dev (slotResource i)).physAddr = 0 := by simpa [present] using h
  simp only [fillBar, if_pos hphys, sub_add_cancel]

/-- A round for a resource that is there fills the entry at the cursor. -/
theorem fillBar_present (h : present dev i = true) :
    fillBar dev s i =
      { data := { s.data with bar := Function.update s.data.bar s.cursor (slotBar dev i) }
        cursor := s.cursor + 1
        accessed := s.accessed ++ [s.cursor]
        filled := s.filled ++ [s.cursor] } := by
  have hphys : (dev (slotResource i)).physAddr ≠ 0 := by simpa [present] using h
  simp only [fillBar, if_neg hphys, SetupState.setBar]

/-- The slots of one more round. -/
theorem slots_succ (dev : Fin 6 → RteMemResource) (n : ℕ) :
    slots dev (n + 1) = slots dev n ++ if present dev n then [n] else [] := by
  rw [slots, slots, List.range_succ, List.filter_append, List.filter_singleton]
  cases present dev n <;> rfl

/-- The state after `i` rounds: the entries below the cursor are those of the slots that are there,
and the memory from the cursor on is as it was. -/
structure Filled (dev : Fin 6 → RteMemResource) (data : CppDevData) (i : ℕ) (s : SetupState) :
    Prop where
  cursor : s.cursor = (slots dev i).length
  filled : s.filled = (List.range (slots dev i).length).map Int.ofNat
  accessed : s.accessed = s.filled
  entries : (List.range (slots dev i).length).map (fun k : ℕ => s.data.bar k) =
    (slots dev i).map (slotBar dev)
  rest : ∀ k : ℤ, (slots dev i).length ≤ k → s.data.bar k = data.bar k
  others : s.data = { data with bar := s.data.bar }

/-- One round. -/
theorem Filled.step (h : Filled dev data i s) : Filled dev data (i + 1) (fillBar dev s i) := by
  cases hpresent : present dev i with
  | false =>
    have hslots : slots dev (i + 1) = slots dev i := by simp [slots_succ, hpresent]
    rw [fillBar_absent hpresent]
    exact { h with
      cursor := hslots ▸ h.cursor
      filled := hslots ▸ h.filled
      entries := hslots ▸ h.entries
      rest := hslots ▸ h.rest }
  | true =>
    have hslots : slots dev (i + 1) = slots dev i ++ [i] := by simp [slots_succ, hpresent]
    have hlength : (slots dev (i + 1)).length = (slots dev i).length + 1 := by simp [hslots]
    rw [fillBar_present hpresent]
    refine ⟨?_, ?_, ?_, ?_, fun k hk => ?_, ?_⟩
    · rw [hlength, h.cursor]
      norm_cast
    · rw [hlength, List.range_succ, List.map_append, ← h.filled, h.cursor]
      rfl
    · rw [h.accessed]
    · rw [hlength, List.range_succ, List.map_append, hslots, List.map_append, ← h.entries, h.cursor]
      congr 1
      · refine List.map_congr_left fun k hk => Function.update_of_ne ?_ _ _
        exact_mod_cast (List.mem_range.mp hk).ne
      · exact congrArg (fun bar => [bar]) (Function.update_self _ _ _)
    · rw [hlength] at hk
      have hne : k ≠ s.cursor := by
        rw [h.cursor]
        omega
      exact (Function.update_of_ne hne _ _).trans (h.rest k (by omega))
    · rw [h.others]

/-- The whole loop. -/
theorem filled_fillBars (dev : Fin 6 → RteMemResource) (data : CppDevData) :
    Filled dev data nfpPciBarMax (fillBars dev data) := by
  have hrun : ∀ n, Filled dev data n ((List.range n).foldl (fillBar dev) ⟨data, 0, [], []⟩) := by
    intro n
    induction n with
    | zero => exact ⟨rfl, rfl, rfl, rfl, fun _ _ => rfl, rfl⟩
    | succ n ih =>
      rw [List.range_succ, List.foldl_append]
      exact ih.step
  exact hrun nfpPciBarMax

/-- Each resource that is there has eight slots. -/
theorem length_slots (dev : Fin 6 → RteMemResource) :
    (slots dev nfpPciBarMax).length =
      8 * ((present dev 0).toNat + (present dev 8).toNat + (present dev 16).toNat) := by
  -- slots 0 to 7 are those of resource 0, and so on
  have hcount : ∀ a b c : Bool, ((List.range nfpPciBarMax).filter fun j =>
      if j / 8 = 0 then a else if j / 8 = 1 then b else c).length =
      8 * (a.toNat + b.toNat + c.toNat) := by decide
  rw [← hcount]
  rfl

theorem toNat_present {r : Fin 6} (hr : slotResource i = r) :
    (present dev i).toNat = if (dev r).physAddr = 0 then 0 else 1 := by
  rw [present, hr]
  by_cases h : (dev r).physAddr = 0
  · rw [if_pos h, decide_eq_false (not_not.mpr h), Bool.toNat_false]
  · rw [if_neg h, decide_eq_true h, Bool.toNat_true]

/-- Without a resource no entry is filled, and with one there are eight or more. -/
theorem length_slots_cases (dev : Fin 6 → RteMemResource) :
    ((dev 0).physAddr = 0 ∧ (dev 2).physAddr = 0 ∧ (dev 4).physAddr = 0 ∧
      (slots dev nfpPciBarMax).length = 0) ∨
    (¬((dev 0).physAddr = 0 ∧ (dev 2).physAddr = 0 ∧ (dev 4).physAddr = 0) ∧
      8 ≤ (slots dev nfpPciBarMax).length) := by
  have h0 : (present dev 0).toNat = if (dev 0).physAddr = 0 then 0 else 1 := toNat_present rfl
  have h2 : (present dev 8).toNat = if (dev 2).physAddr = 0 then 0 else 1 := toNat_present rfl
  have h4 : (present dev 16).toNat = if (dev 4).physAddr = 0 then 0 else 1 := toNat_present rfl
  rw [length_slots, h0, h2, h4]
  by_cases hnone : (dev 0).physAddr = 0 ∧ (dev 2).physAddr = 0 ∧ (dev 4).physAddr = 0
  · obtain ⟨e0, e2, e4⟩ := hnone
    rw [if_pos e0, if_pos e2, if_pos e4]
    exact .inl ⟨e0, e2, e4, rfl⟩
  · refine .inr ⟨hnone, ?_⟩
    split_ifs with e0 e2 e4
    · exact absurd ⟨e0, e2, e4⟩ hnone
    -- one resource is enough
    all_goals decide

/-! ### The second loop

Each of its functions only adds to what has been accessed. -/

/-- The number of entries stays, and what was accessed stays accessed. -/
structure Grows (s s' : SetupState) : Prop where
  bars : s'.data.bars = s.data.bars
  accessed : s.accessed ⊆ s'.accessed

theorem Grows.refl (s : SetupState) : Grows s s := ⟨rfl, List.Subset.refl _⟩

theorem Grows.trans {s₁ s₂ s₃ : SetupState} (h : Grows s₁ s₂) (h' : Grows s₂ s₃) : Grows s₁ s₃ :=
  ⟨h'.bars.trans h.bars, List.Subset.trans h.accessed h'.accessed⟩

theorem setBar_bar (s : SetupState) (k j : ℤ) (bar : NfpBar) :
    (s.setBar k bar).data.bar j = if j = k then bar else s.data.bar j :=
  Function.update_apply ..

/-- Writing an entry accesses it. -/
theorem grows_setBar (s : SetupState) (k : ℤ) (bar : NfpBar) : Grows s (s.setBar k bar) :=
  ⟨rfl, List.subset_append_left _ _⟩

/-- Programming a register may access one more entry. -/
theorem nfpBarWrite_grows {k ret : ℤ} {newcfg : UInt32}
    (h : nfpBarWrite host k newcfg s = some (ret, s')) : Grows s s' := by
  unfold nfpBarWrite at h
  dsimp only at h
  split at h
  · split at h
    · obtain ⟨-, rfl⟩ := Prod.mk.inj (Option.some.inj h)
      exact grows_setBar s k _
    · cases h
  · split at h
    · obtain ⟨-, rfl⟩ := Prod.mk.inj (Option.some.inj h)
      exact ⟨rfl, List.subset_append_left _ _⟩
    · obtain ⟨-, rfl⟩ := Prod.mk.inj (Option.some.inj h)
      exact grows_setBar s k _

/-- One group of explicit windows. -/
theorem setupExplicit_grows {i : Fin 4} (h : setupExplicit dev host s i = some s') :
    Grows s s' := by
  unfold setupExplicit at h
  split at h
  · obtain rfl := Option.some.inj h
    exact ⟨rfl, List.Subset.refl _⟩
  · obtain ⟨start, -, h⟩ := Option.bind_eq_some_iff.mp h
    obtain ⟨⟨ret, s₁⟩, hwrite, h⟩ := Option.bind_eq_some_iff.mp h
    obtain rfl := Option.some.inj h
    have hgrows := (grows_setBar s _ _).trans (nfpBarWrite_grows hwrite)
    exact ⟨hgrows.bars, hgrows.accessed⟩

/-- All of them, in their order. -/
theorem setupExplicits_grows {groups : List (Fin 4)} :
    ∀ {s}, groups.foldlM (setupExplicit dev host) s = some s' → Grows s s' := by
  induction groups with
  | nil =>
    intro s h
    obtain rfl := Option.some.inj h
    exact Grows.refl _
  | cons i groups ih =>
    intro s h
    obtain ⟨s₁, hstep, h⟩ := Option.bind_eq_some_iff.mp h
    exact (setupExplicit_grows hstep).trans (ih h)

theorem mapCursor_bars (h : mapCursor dev host s = some data) : data.bars = s.data.bars := by
  unfold mapCursor at h
  dsimp only at h
  split at h
  · obtain ⟨start, -, rfl⟩ := Option.map_eq_some_iff.mp h
    unfold CppDevData.setIomem
    split <;> rfl
  · rw [Option.some.inj h]

/-- The pointers are taken from the entry at the cursor, so that it is accessed. -/
theorem setupPointers_grows (h : setupPointers dev host s = some s') :
    Grows s s' ∧ s.cursor ∈ s'.accessed := by
  obtain ⟨data, hdata, rfl⟩ := Option.map_eq_some_iff.mp h
  have hbars := mapCursor_bars hdata
  exact ⟨⟨(setPointers_bars ..).trans hbars, List.subset_append_left _ _⟩,
    List.mem_append_right _ (List.mem_singleton_self _)⟩

/-- **The entry behind the last one is used** whenever the set-up succeeds. -/
theorem bars_accessed (h : nfpEnableBars dev host interface data = some (0, s)) :
    s.data.bars = (fillBars dev data).cursor ∧ s.data.bars ∈ s.accessed := by
  unfold nfpEnableBars at h
  dsimp only at h
  split at h
  · cases h
  · obtain ⟨s₁, hpointers, h⟩ := Option.bind_eq_some_iff.mp h
    obtain ⟨s₂, hgroups, h⟩ := Option.bind_eq_some_iff.mp h
    obtain ⟨-, rfl⟩ := Prod.mk.inj (Option.some.inj h)
    obtain ⟨hgrows, hcursor⟩ := setupPointers_grows hpointers
    -- the groups leave the count, and take no access back
    have hlater := setupExplicits_grows hgroups
    have hbars : s₂.data.bars = (fillBars dev data).cursor := hlater.bars.trans hgrows.bars
    refine ⟨hbars, List.mem_append_left _ ?_⟩
    show s₂.data.bars ∈ s₂.accessed
    rw [hbars]
    exact hlater.accessed hcursor

/-- So no set-up that succeeds keeps to the BARs that exist. -/
theorem not_barsOk (h : nfpEnableBars dev host interface data = some (0, s)) :
    ¬BarsOk dev data s := by
  intro hok
  have hlast := hok.accessed s.data.bars (bars_accessed h).2
  exact lt_irrefl _ hlast.2.1

/-- The entries themselves are right whenever the set-up succeeds. -/
theorem enableBars_entries (h : nfpEnableBars dev host interface data = some (0, s)) :
    (List.range s.data.bars.toNat).map (fun k : ℕ => (fillBars dev data).data.bar k) =
      (slots dev nfpPciBarMax).map (slotBar dev) := by
  have hfilled := filled_fillBars dev data
  rw [(bars_accessed h).1, hfilled.cursor, Int.toNat_natCast]
  exact hfilled.entries

/-! ### What the memory can make of it -/

/-- No register is mapped, and the entries of the second loop are those of resources. -/
structure Ready (s : SetupState) : Prop where
  csr : s.data.csr = 0
  resource : ∀ k : ℤ, 0 ≤ k → k < 8 → ∃ r, (s.data.bar k).resource = .table r

theorem Ready.setBar {k : ℤ} {bar : NfpBar} (h : Ready s)
    (hbar : bar.resource = (s.data.bar k).resource) : Ready (s.setBar k bar) := by
  refine ⟨h.csr, fun j hj hj' => ?_⟩
  rw [setBar_bar]
  split
  next hjk =>
    rw [hbar, ← hjk]
    exact h.resource j hj hj'
  · exact h.resource j hj hj'

/-- Without mapped registers programming one goes over the configuration space. -/
theorem nfpBarWrite_ready (h : Ready s) (k : ℤ) (newcfg : UInt32) :
    ∃ ret s', nfpBarWrite host k newcfg s = some (ret, s') ∧ Ready s' := by
  unfold nfpBarWrite
  dsimp only
  rw [if_neg (not_not.mpr h.csr)]
  split
  · exact ⟨_, _, rfl, h.csr, h.resource⟩
  · exact ⟨_, _, rfl, h.setBar rfl⟩

theorem setupExplicit_ready (h : Ready s) (i : Fin 4) :
    ∃ s', setupExplicit dev host s i = some s' ∧ Ready s' := by
  unfold setupExplicit
  split
  · exact ⟨_, rfl, h.csr, h.resource⟩
  next hi =>
    obtain ⟨r, hr⟩ := h.resource (4 + i) (by omega) (by omega)
    obtain ⟨start, hstart⟩ : ∃ start,
        nfpBarResourceStart dev host (s.data.bar (4 + i)) = some start := by
      rw [nfpBarResourceStart, hr]
      exact ⟨_, rfl⟩
    have hset : Ready (s.setBar (4 + i) { s.data.bar (4 + i) with iomem := start }) := h.setBar rfl
    obtain ⟨ret, s₁, hwrite, hready⟩ := nfpBarWrite_ready hset (4 + i) (barcfgExplicit i)
    refine ⟨s₁.setGroup i (s₁.data.bar (4 + i)), ?_, hready.csr, hready.resource⟩
    exact Option.bind_eq_some_iff.mpr
      ⟨start, hstart, Option.bind_eq_some_iff.mpr ⟨(ret, s₁), hwrite, rfl⟩⟩

theorem setupExplicits_ready (groups : List (Fin 4)) :
    ∀ {s}, Ready s → ∃ s', groups.foldlM (setupExplicit dev host) s = some s' ∧ Ready s' := by
  induction groups with
  | nil => exact fun h => ⟨_, rfl, h⟩
  | cons i groups ih =>
    intro s h
    obtain ⟨s₁, hstep, hready⟩ := setupExplicit_ready h i
    obtain ⟨s₂, hrun, hready'⟩ := ih hready
    exact ⟨s₂, Option.bind_eq_some_iff.mpr ⟨s₁, hstep, hrun⟩, hready'⟩

/-- Memory in which the entry behind the last one is small, and mapped where its `csr` is zero. -/
def smallEntries : CppDevData where
  bars := 0
  bar _ := ⟨0, 0, 0, 0, 0, 0 - nfpPcieBar0, .table 0⟩
  csr := 0
  em := 0
  expl i := if i = 2 then 0 - nfpPcieBar0 else 0
  masterId := 0
  signalRef := 0
  explData := 0
  group _ := ⟨0, 0, fun _ => 0⟩

theorem entry_smallEntries {k : ℤ} (hexpl : data.expl = smallEntries.expl)
    (hbar : data.bar k = smallEntries.bar k) :
    (data.entry k).mask = 0 ∧ (data.entry k).iomem = 0 - nfpPcieBar0 := by
  rw [CppDevData.entry]
  split
  · rw [hexpl]
    exact ⟨rfl, rfl⟩
  · rw [hbar]
    exact ⟨rfl, rfl⟩

/-- An entry that was filled points to a resource. -/
theorem Filled.resource (h : Filled dev data i s) {k : ℤ} (hk : 0 ≤ k)
    (hlt : k < (slots dev i).length) : ∃ r, (s.data.bar k).resource = .table r := by
  have hmem : s.data.bar k ∈ (slots dev i).map (slotBar dev) := by
    rw [← h.entries]
    exact List.mem_map.mpr ⟨k.toNat, List.mem_range.mpr (by omega), by rw [Int.toNat_of_nonneg hk]⟩
  obtain ⟨j, -, hj⟩ := List.mem_map.mp hmem
  rw [← hj]
  exact ⟨_, rfl⟩

/-- With a resource, there is memory for which the set-up succeeds, and takes the null pointer for
that of the registers. -/
theorem enableBars_smallEntries (dev : Fin 6 → RteMemResource) (host : Host) (interface : UInt32)
    (h : 8 ≤ (slots dev nfpPciBarMax).length) :
    ∃ s, nfpEnableBars dev host interface smallEntries = some (0, s) ∧ s.data.csr = 0 := by
  have hfilled := filled_fillBars dev smallEntries
  unfold nfpEnableBars
  dsimp only
  -- the first loop leaves the entry behind its last one as it is in the memory
  generalize fillBars dev smallEntries = s₀ at hfilled
  rw [if_neg (by rw [hfilled.cursor]; omega)]
  generalize hs : (SetupState.mk _ _ _ _ : SetupState) = s₁
  have hexpl : s₁.data.expl = smallEntries.expl := by
    rw [← hs]
    show s₀.data.expl = smallEntries.expl
    rw [hfilled.others]
  have hbar : s₁.data.bar = s₀.data.bar := by rw [← hs]
  have hcursor : s₁.cursor = (slots dev nfpPciBarMax).length := by rw [← hs, ← hfilled.cursor]
  have hentry := entry_smallEntries hexpl
    (by rw [hbar]; exact hfilled.rest s₁.cursor hcursor.ge)
  -- a small entry is not mapped
  have hmap : mapCursor dev host s₁ = some s₁.data := by
    rw [mapCursor, hentry.1]
    exact if_neg (by decide)
  -- its `iomem` makes the null pointer of `csr`
  have hready : Ready { s₁ with
      data := s₁.data.setPointers ((s₁.data.entry s₁.cursor).iomem + nfpPcieSram + 0x1000)
        ((s₁.data.entry s₁.cursor).iomem + nfpPcieBar0)
        ((s₁.data.entry s₁.cursor).iomem + nfpPcieEm)
      accessed := s₁.accessed ++ [s₁.cursor] } := by
    refine ⟨?_, fun k hk hlt => ?_⟩
    · rw [setPointers_csr, hentry.2, UInt64.sub_add_cancel]
    · rw [setPointers_bar, hbar]
      exact hfilled.resource hk (by omega)
  obtain ⟨s₂, hgroups, hready'⟩ :=
    setupExplicits_ready (List.finRange 4) hready
  refine ⟨sortBars s₂, ?_, hready'.csr⟩
  refine Option.bind_eq_some_iff.mpr ⟨_, ?_, Option.bind_eq_some_iff.mpr ⟨s₂, hgroups, rfl⟩⟩
  rw [setupPointers, hmap]
  rfl

/-- **The exact condition**: the set-up keeps to the BARs that exist, whatever the memory, when
there is none. -/
theorem barsOk_iff (dev : Fin 6 → RteMemResource) (host : Host) (interface : UInt32) :
    (∀ data s, nfpEnableBars dev host interface data = some (0, s) → BarsOk dev data s) ↔
      (dev 0).physAddr = 0 ∧ (dev 2).physAddr = 0 ∧ (dev 4).physAddr = 0 := by
  rcases length_slots_cases dev with ⟨h0, h2, h4, hlength⟩ | ⟨hsome, hlength⟩
  · refine ⟨fun _ => ⟨h0, h2, h4⟩, fun _ data s h => ?_⟩
    have hcursor := (filled_fillBars dev data).cursor
    unfold nfpEnableBars at h
    dsimp only at h
    rw [if_pos (by rw [hcursor, hlength]; decide)] at h
    cases h
  · refine ⟨fun hok => ?_, fun hnone => absurd hnone hsome⟩
    obtain ⟨s, hs, -⟩ := enableBars_smallEntries dev host interface hlength
    exact absurd (hok smallEntries s hs) (not_barsOk hs)

/-- One BAR, of 16 MiB. -/
def oneBar (i : Fin 6) : RteMemResource :=
  if i = 0 then ⟨0xf0000000, 0x1000000, 0x7f0000000000⟩ else ⟨0, 0, 0⟩

def quietHost : Host := ⟨fun _ => none, fun _ => false, fun _ _ => 0⟩

theorem barsOk_false :
    ∃ s, nfpEnableBars oneBar quietHost 0 smallEntries = some (0, s) ∧
      ¬InAperture oneBar s.data.csr ∧ ¬BarsOk oneBar smallEntries s := by
  obtain ⟨s, hs, hcsr⟩ := enableBars_smallEntries oneBar quietHost 0
    (by rw [length_slots]; decide)
  have hout : ¬InAperture oneBar s.data.csr := by
    rw [hcsr]
    rintro ⟨i, -, hphys, hle, -⟩
    by_cases hi : i = 0
    · rw [hi] at hle
      exact absurd hle (by decide)
    · exact hphys (congrArg RteMemResource.physAddr (if_neg hi))
  exact ⟨s, hs, hout, fun hok => hout hok.csr⟩

end NfpUdpEcho.BarSetup
