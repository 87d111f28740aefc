import NfpUdpEcho.Framework.ByteMem
import NfpUdpEcho.Server.Transfer
import NfpUdpEcho.Transport.Bar
import NfpUdpEcho.Transport.Target

/-!
# CPP areas over the PCIe transport

An area is allocated through `nfp_cpp_area_alloc_with_name` (`user/nfpcore/nfp_cppcore.c`),
which checks and translates the address and has the transport initialise the area:
`nfp6000_area_init` (`nfp_cpp_pcie_ops.c`) takes a BAR and points it at the area. Acquiring an
area only computes where in the BAR it is. Releasing it unlocks the BAR; freeing it does not.

`nfpCppOps` is the library as the device server sees it.

`nfpCppAreaAlloc_cases` says what an allocation can do, in terms of the BAR that the transport would
choose: it is refused, or the BAR is locked and points at the area. The functions that use an area
have one lemma each for what they do to the user's BARs, which is what the proofs about BARs need of
them. The last part is about the caller's buffer alone: what an access reads of it and what it
leaves in it, for any memory behind the BAR.
-/

namespace NfpUdpEcho

open Errno ByteMem

/-- The widths of an area: of reads, of writes and of its BAR. -/
structure AreaWidth where
  read : Int32
  write : Int32
  bar : Int32

/-- `struct nfp6000_area_priv`. -/
structure Nfp6000AreaPriv where
  bar : Option (Fin nfpBarMax)
  barOffset : UInt32
  target : UInt32
  action : UInt32
  token : UInt32
  offset : UInt64
  width : AreaWidth
  size : UInt64
  iomem : UInt64

/-- `struct nfp_cpp_area`, without its name. -/
structure NfpCppArea where
  offset : UInt64
  size : UInt64
  priv : Nfp6000AreaPriv

/-- What the library is given: the tables of `struct nfp_cpp` and the device's bus, and
whether the `n`-th allocation of memory succeeds. -/
structure NfpCpp (δ : Type) where
  imbCatTable : UInt32 → UInt32
  addrEncode : AddrEncode
  bus : Bus δ
  calloc : ℕ → Bool

/-- What it changes: the transport's BARs, the device, and the count of allocations. -/
structure NfpWorld (δ : Type) where
  user : NfpPcieUser
  dev : δ
  callocs : ℕ

variable {δ : Type} (cpp : NfpCpp δ)

/-! ### Allocation -/

/-- The first part of `nfp6000_area_init`: the widths of the accesses. -/
def areaWidths (target action token : UInt32) (address : UInt64) : Except ℤ AreaWidth :=
  match nfp6000TargetPushpull (nfpCppId target action token) address with
  | none => .error (-1)
  | some pp =>
    let read := pushWidth pp
    let write := pullWidth pp
    if read > 0 ∧ write > 0 ∧ read ≠ write then .error (-EINVAL)
    else .ok ⟨read, write, if read > 0 then read else write⟩

/-- `nfp6000_area_init`. A failure after `nfp_alloc_bar` leaves the BAR locked. -/
def nfp6000AreaInit (dest : UInt32) (address size : UInt64) (w : NfpWorld δ) :
    Except ℤ Nfp6000AreaPriv × NfpWorld δ :=
  let target := cppIdTargetOf dest
  let action := cppIdActionOf dest
  let token := cppIdTokenOf dest
  match areaWidths target action token address with
  | .error err => (.error err, w)
  | .ok width =>
    match nfpAllocBar w.user with
    | (none, user) => (.error (-ENOMEM), { w with user := user })
    | (some i, user) =>
      let (ret, user, dev) := nfpReconfigureBar cpp.bus user i target.toInt32 action.toInt32
        token.toInt32 address size width.bar w.dev
      let w := { w with user := user, dev := dev }
      if ret < 0 then (.error ret, w)
      else (.ok ⟨some i, 0, target, action, token, address, width, size, 0⟩, w)

/-- `nfp_cpp_area_alloc_with_name`. -/
def nfpCppAreaAlloc (dest : UInt32) (address size : UInt64) (w : NfpWorld δ) :
    Option NfpCppArea × NfpWorld δ :=
  -- CPP bus uses only a 40-bit address
  if address + size > (1 : UInt64) <<< 40 then (none, w)
  else
    let (err, dest, address) := nfpTargetCpp cpp.addrEncode cpp.imbCatTable dest address
    if err < 0 then (none, w)
    else
      let calloc := cpp.calloc w.callocs
      let w := { w with callocs := w.callocs + 1 }
      if calloc then
        match nfp6000AreaInit cpp dest address size w with
        | (.error _, w) => (none, w)
        | (.ok priv, w) => (some ⟨address, size, priv⟩, w)
      else (none, w)

/-! ### Use -/

/-- `nfp6000_area_acquire`. Every area acquired has just been allocated, so it has a BAR. -/
def nfp6000AreaAcquire (priv : Nfp6000AreaPriv) (w : NfpWorld δ) : ℤ × Nfp6000AreaPriv :=
  match priv.bar with
  | none => (-EFAULT, priv)
  | some i =>
    let bar := w.user.bar i
    let barOffset : UInt32 :=
      if pcie2cppMaptypeOf bar.barcfg = maptypeGeneral then
        (priv.offset &&& signExtend ((1 <<< (bar.bitsize - 4)) - 1)).toUInt32
          + (priv.target <<< (bar.bitsize - 2)) + (priv.token <<< (bar.bitsize - 4))
      else (priv.offset &&& bar.mask).toUInt32
    if bar.iomem = 0 then (-ENOMEM, { priv with barOffset := barOffset })
    else (0, { priv with barOffset := barOffset, iomem := bar.iomem + barOffset.toUInt64 })

/-- `nfp_cpp_area_acquire`. -/
def nfpCppAreaAcquire (area : NfpCppArea) (w : NfpWorld δ) : ℤ × NfpCppArea × NfpWorld δ :=
  let (err, priv) := nfp6000AreaAcquire area.priv w
  (if err < 0 then -1 else 0, { area with priv := priv }, w)

/-- `nfp_cpp_area_release`. -/
def nfpCppAreaRelease (area : NfpCppArea) (w : NfpWorld δ) : NfpCppArea × NfpWorld δ :=
  match area.priv.bar with
  | none => (area, w)
  | some i =>
    ({ area with priv := { area.priv with bar := none, iomem := 0 } },
      { w with user := w.user.setLock i false })

/-- `nfp_cpp_area_free`; the transport has no `area_cleanup`. -/
def nfpCppAreaFree (_area : NfpCppArea) (w : NfpWorld δ) : NfpWorld δ := w

/-! ### Access -/

/-- The bytes of a word, lowest first. -/
def wordBytes (w : UInt64) : Mem := fun j => (w >>> (8 * j.toUInt64)).toUInt8

/-- The word whose bytes, lowest first, are at `off`. -/
def bytesWord (m : Mem) (off size : ℕ) : UInt64 :=
  (List.range size).foldr (fun j acc => (acc <<< 8) ||| (m (off + j)).toUInt64) 0

/-- The copy loop of `nfp6000_area_read`, for `n` words of `size` bytes. -/
def readWords (load : UInt64 → δ → UInt64 × δ) (size : ℕ) :
    ℕ → UInt64 → ℕ → Mem → δ → Mem × δ
  | 0, _, _, mem, dev => (mem, dev)
  | n + 1, rdptr, wrptr, mem, dev =>
    let (word, dev) := load rdptr dev
    readWords load size n (rdptr + size.toUInt64) (wrptr + size)
      (mem.copy wrptr (wordBytes word) 0 size) dev

/-- The copy loop of `nfp6000_area_write`. -/
def writeWords (store : UInt64 → UInt64 → δ → δ) (size : ℕ) : ℕ → UInt64 → ℕ → Mem → δ → δ
  | 0, _, _, _, dev => dev
  | n + 1, wrptr, rdptr, mem, dev =>
    writeWords store size n (wrptr + size.toUInt64) (rdptr + size) mem
      (store wrptr (bytesWord mem rdptr size) dev)

/-- The checks of `nfp6000_area_read` and `nfp6000_area_write`, which differ in the width:
whether to copy 64-bit words. -/
def accessChecks (priv : Nfp6000AreaPriv) (width : Int32) (offset : UInt64) (length : UInt32) :
    Except ℤ Bool :=
  if offset + length.toUInt64 > priv.size then .error (-EFAULT)
  else if width ≤ 0 then .error (-EINVAL)
  else if (priv.offset + offset) &&& (width - 1).toInt64.toUInt64 ≠ 0 then .error (-EINVAL)
  else
    -- MU accesses through a BAR support 32-bit lengths
    let is64 := width = 8 ∧ ¬(priv.target = 0x1f &&& cppTgtMu ∧ priv.action = nfpCppActionRW)
    let size : UInt32 := if is64 then 8 else 4
    if offset % size.toUInt64 ≠ 0 ∨ length % size ≠ 0 then .error (-EINVAL)
    else if priv.bar.isNone then .error (-EFAULT)
    else .ok is64

/-- `nfp_cpp_area_read`, which returns the length as an `int`. -/
def nfpCppAreaRead (area : NfpCppArea) (offset : UInt64) (kernelVaddr : Mem) (length : UInt32)
    (w : NfpWorld δ) : ℤ × Mem × NfpWorld δ :=
  if offset + length.toUInt64 > area.size then (-1, kernelVaddr, w)
  else
    match accessChecks area.priv area.priv.width.read offset length with
    | .error err => (err, kernelVaddr, w)
    | .ok is64 =>
      let (mem, dev) :=
        if is64 then
          readWords cpp.bus.load64 8 (length.toNat / 8) (area.priv.iomem + offset) 0 kernelVaddr
            w.dev
        else
          readWords (fun a dev => ((cpp.bus.load32 a dev).1.toUInt64, (cpp.bus.load32 a dev).2)) 4
            (length.toNat / 4) (area.priv.iomem + offset) 0 kernelVaddr w.dev
      (length.toInt32.toInt, mem, { w with dev := dev })

/-- `nfp_cpp_area_write`. -/
def nfpCppAreaWrite (area : NfpCppArea) (offset : UInt64) (kernelVaddr : Mem) (length : UInt32)
    (w : NfpWorld δ) : ℤ × NfpWorld δ :=
  if offset + length.toUInt64 > area.size then (-1, w)
  else
    match accessChecks area.priv area.priv.width.write offset length with
    | .error err => (err, w)
    | .ok is64 =>
      let dev :=
        if is64 then
          writeWords cpp.bus.store64 8 (length.toNat / 8) (area.priv.iomem + offset) 0 kernelVaddr
            w.dev
        else
          writeWords (fun a v => cpp.bus.store32 a v.toUInt32) 4 (length.toNat / 4)
            (area.priv.iomem + offset) 0 kernelVaddr w.dev
      (length.toInt32.toInt, { w with dev := dev })

/-- The CPP library over the PCIe transport. -/
def nfpCppOps : CppOps (NfpWorld δ) NfpCppArea where
  areaAlloc := nfpCppAreaAlloc cpp
  areaAcquire := nfpCppAreaAcquire
  areaRead := nfpCppAreaRead cpp
  areaWrite := nfpCppAreaWrite cpp
  areaRelease := nfpCppAreaRelease
  areaFree := nfpCppAreaFree

/-! ### The BAR of an area -/

/-- The BAR an allocation takes and the window it is to show. -/
structure BarWindow where
  bar : Fin nfpBarMax
  dest : UInt32
  address : UInt64
  width : AreaWidth

/-- The checks made before a BAR is taken, and the BAR there is. -/
def barWindow (dest : UInt32) (address size : UInt64) (w : NfpWorld δ) : Option BarWindow :=
  if address + size > (1 : UInt64) <<< 40 then none
  else
    let (err, dest, address) := nfpTargetCpp cpp.addrEncode cpp.imbCatTable dest address
    if err < 0 ∨ cpp.calloc w.callocs = false then none
    else
      match areaWidths (cppIdTargetOf dest) (cppIdActionOf dest) (cppIdTokenOf dest) address with
      | .error _ => none
      | .ok width => (nfpAllocBar w.user).1.map (⟨·, dest, address, width⟩)

/-- The BAR cannot show the window, or the registers are not mapped. -/
def BarWindow.Refused (b : BarWindow) (size : UInt64) (nfp : NfpPcieUser) : Prop :=
  nfp.cfg = 0 ∨
    ∃ err, nfpComputeBar (nfp.bar b.bar).bitsize (cppIdTargetOf b.dest).toInt32
      (cppIdActionOf b.dest).toInt32 (cppIdTokenOf b.dest).toInt32 b.address size b.width.bar =
        .error err

variable {cpp} {dest : UInt32} {address size : UInt64} {w : NfpWorld δ}

/-- **An allocation, by its outcome.** It fails without a BAR, or takes a BAR that was free;
then it fails, and leaves the BAR locked, exactly when the BAR refuses the window. -/
theorem nfpCppAreaAlloc_cases (cpp : NfpCpp δ) (dest : UInt32) (address size : UInt64)
    (w : NfpWorld δ) :
    (barWindow cpp dest address size w = none ∧
      (nfpCppAreaAlloc cpp dest address size w).1 = none ∧
      (nfpCppAreaAlloc cpp dest address size w).2.user = w.user) ∨
    ∃ b, barWindow cpp dest address size w = some b ∧ b.bar ∉ w.user.locked ∧
      (nfpCppAreaAlloc cpp dest address size w).2.user.locked = insert b.bar w.user.locked ∧
      ((b.Refused size w.user ∧ (nfpCppAreaAlloc cpp dest address size w).1 = none) ∨
        (¬b.Refused size w.user ∧
          ∃ area, (nfpCppAreaAlloc cpp dest address size w).1 = some area ∧
            area.priv.bar = some b.bar ∧
            ((nfpCppAreaAlloc cpp dest address size w).2.user.bar b.bar).iomem =
              (w.user.bar b.bar).iomem)) := by
  -- the checks in the order of the source: range, target, memory, widths, a free BAR
  unfold barWindow nfpCppAreaAlloc
  by_cases hrange : address + size > (1 : UInt64) <<< 40
  · rw [if_pos hrange, if_pos hrange]
    exact .inl ⟨rfl, rfl, rfl⟩
  rw [if_neg hrange, if_neg hrange]
  cases htarget : nfpTargetCpp cpp.addrEncode cpp.imbCatTable dest address with
  | mk err p =>
  obtain ⟨dest', address'⟩ := p
  simp only
  by_cases herr : err < 0
  · rw [if_pos (.inl herr), if_pos herr]
    exact .inl ⟨rfl, rfl, rfl⟩
  rw [if_neg herr]
  cases hcalloc : cpp.calloc w.callocs with
  | false => exact .inl ⟨if_pos (.inr rfl), rfl, rfl⟩
  | true =>
  rw [if_neg (by simp [herr])]
  simp only [if_true, nfp6000AreaInit]
  cases hwidth : areaWidths (cppIdTargetOf dest') (cppIdActionOf dest') (cppIdTokenOf dest')
      address' with
  | error err => exact .inl ⟨rfl, rfl, rfl⟩
  | ok width =>
  rcases nfpAllocBar_cases w.user with ⟨i, hfree, halloc⟩ | halloc
  · simp only [halloc]
    -- the window is asked of the BAR just locked
    obtain ⟨hsame, hneg⟩ := nfpReconfigureBar_cases cpp.bus (w.user.setLock i true) i
      (cppIdTargetOf dest').toInt32 (cppIdActionOf dest').toInt32 (cppIdTokenOf dest').toInt32
      address' size width.bar w.dev
    have hlocked := hsame.locked.trans (NfpPcieUser.locked_setLock_true w.user i)
    have hiomem := hsame.iomem i
    set q := nfpReconfigureBar cpp.bus (w.user.setLock i true) i (cppIdTargetOf dest').toInt32
      (cppIdActionOf dest').toInt32 (cppIdTokenOf dest').toInt32 address' size width.bar w.dev
    refine .inr ⟨⟨i, dest', address', width⟩, rfl, hfree, ?_⟩
    simp only [NfpPcieUser.setLock, NfpPcieUser.setBar_cfg, NfpPcieUser.setBar_bar_self]
      at hneg hiomem
    by_cases hfail : q.1 < 0
    · -- the error path frees the area, not the BAR
      rw [if_pos hfail]
      exact ⟨hlocked, .inl ⟨hneg.mp hfail, rfl⟩⟩
    · rw [if_neg hfail]
      exact ⟨hlocked, .inr ⟨fun hrefused => hfail (hneg.mpr hrefused), _, rfl, rfl, hiomem⟩⟩
  · simp only [halloc]
    exact .inl ⟨rfl, trivial, trivial⟩

/-- Acquiring fails where the BAR is not mapped, and moves nothing. -/
theorem nfp6000AreaAcquire_cases {priv : Nfp6000AreaPriv} {i : Fin nfpBarMax}
    (hbar : priv.bar = some i) :
    (nfp6000AreaAcquire priv w).2.bar = some i ∧
      ((nfp6000AreaAcquire priv w).1 < 0 ↔ (w.user.bar i).iomem = 0) := by
  simp only [nfp6000AreaAcquire, hbar]
  by_cases hio : (w.user.bar i).iomem = 0
  · rw [if_pos hio]
    exact ⟨rfl, iff_of_true (show -ENOMEM < 0 by decide) hio⟩
  · rw [if_neg hio]
    exact ⟨rfl, iff_of_false (lt_irrefl 0) hio⟩

/-- The same for the function that the server calls. -/
theorem nfpCppAreaAcquire_cases {area : NfpCppArea} {i : Fin nfpBarMax}
    (hbar : area.priv.bar = some i) :
    (nfpCppAreaAcquire area w).2.2 = w ∧ (nfpCppAreaAcquire area w).2.1.priv.bar = some i ∧
      ((nfpCppAreaAcquire area w).1 < 0 ↔ (w.user.bar i).iomem = 0) := by
  obtain ⟨hbar', hneg⟩ := nfp6000AreaAcquire_cases (w := w) hbar
  refine ⟨rfl, hbar', ?_⟩
  rw [← hneg, nfpCppAreaAcquire]
  simp only
  split
  · next h => exact iff_of_true (by decide) h
  · next h => exact iff_of_false (lt_irrefl 0) h

/-- A release unlocks the BAR of its area. -/
theorem nfpCppAreaRelease_locked {area : NfpCppArea} {i : Fin nfpBarMax}
    (hbar : area.priv.bar = some i) :
    (nfpCppAreaRelease area w).2.user.locked = w.user.locked.erase i := by
  unfold nfpCppAreaRelease
  rw [hbar]
  exact NfpPcieUser.locked_setLock_false w.user i

/-- A read leaves the BARs as they are. -/
theorem nfpCppAreaRead_user (cpp : NfpCpp δ) (area : NfpCppArea) (offset : UInt64) (m : Mem)
    (length : UInt32) (w : NfpWorld δ) :
    (nfpCppAreaRead cpp area offset m length w).2.2.user = w.user := by
  unfold nfpCppAreaRead
  split
  · rfl
  · split <;> rfl

/-- So does a write. -/
theorem nfpCppAreaWrite_user (cpp : NfpCpp δ) (area : NfpCppArea) (offset : UInt64) (m : Mem)
    (length : UInt32) (w : NfpWorld δ) :
    (nfpCppAreaWrite cpp area offset m length w).2.user = w.user := by
  unfold nfpCppAreaWrite
  split
  · rfl
  · split <;> rfl

/-! ### What an access makes of the buffer -/

/-- The loop fills what it passes, whatever was there. -/
theorem readWords_agree (load : UInt64 → δ → UInt64 × δ) (size n : ℕ) :
    ∀ (rdptr : UInt64) {wrptr : ℕ} {mem mem' : Mem} (dev : δ), Agree wrptr mem mem' →
      Agree (wrptr + n * size) (readWords load size n rdptr wrptr mem dev).1
        (readWords load size n rdptr wrptr mem' dev).1 ∧
      (readWords load size n rdptr wrptr mem dev).2 =
        (readWords load size n rdptr wrptr mem' dev).2 := by
  induction n with
  | zero =>
    intro rdptr wrptr mem mem' dev h
    rw [Nat.zero_mul, Nat.add_zero]
    exact ⟨h, rfl⟩
  | succ n ih =>
    intro rdptr wrptr mem mem' dev h
    have hword := h.copy (Agree.refl size (wordBytes (load rdptr dev).1))
    rw [Nat.succ_mul, Nat.add_comm (n * size), ← Nat.add_assoc]
    exact ih _ _ hword

/-- A word is read of its own bytes. -/
theorem bytesWord_congr {mem mem' : Mem} {off size : ℕ} (h : Agree (off + size) mem mem') :
    bytesWord mem off size = bytesWord mem' off size := by
  refine List.foldr_ext _ _ _ fun j hj acc => ?_
  have hlt := List.mem_range.mp hj
  rw [h (off + j) (by omega)]

/-- The loop looks at what it passes and at nothing else. -/
theorem writeWords_congr (store : UInt64 → UInt64 → δ → δ) (size n : ℕ) {mem mem' : Mem} :
    ∀ (wrptr : UInt64) (rdptr : ℕ) (dev : δ), Agree (rdptr + n * size) mem mem' →
      writeWords store size n wrptr rdptr mem dev =
        writeWords store size n wrptr rdptr mem' dev := by
  induction n with
  | zero => exact fun _ _ _ _ => rfl
  | succ n ih =>
    intro wrptr rdptr dev h
    rw [Nat.succ_mul, Nat.add_comm (n * size), ← Nat.add_assoc] at h
    have hword := bytesWord_congr (h.mono (Nat.le_add_right (rdptr + size) (n * size)))
    rw [writeWords, writeWords, hword]
    exact ih _ _ _ h

/-- An access that passes the checks is one of whole words. -/
theorem accessChecks_words {priv : Nfp6000AreaPriv} {width : Int32} {offset : UInt64}
    {length : UInt32} {is64 : Bool} (h : accessChecks priv width offset length = .ok is64) :
    length.toNat / (if is64 then 8 else 4) * (if is64 then 8 else 4) = length.toNat := by
  unfold accessChecks at h
  dsimp only at h
  split at h
  · cases h
  split at h
  · cases h
  split at h
  · cases h
  -- by the size of a word
  split at h
  next h64 =>
    split at h
    · cases h
    next hmod =>
    split at h
    · cases h
    obtain rfl := Except.ok.inj h
    rw [decide_eq_true h64]
    have hnat := congrArg UInt32.toNat (not_ne_iff.mp (not_or.mp hmod).2)
    rw [UInt32.toNat_mod] at hnat
    exact Nat.div_mul_cancel (Nat.dvd_of_mod_eq_zero hnat)
  next h32 =>
    split at h
    · cases h
    next hmod =>
    split at h
    · cases h
    obtain rfl := Except.ok.inj h
    rw [decide_eq_false h32]
    have hnat := congrArg UInt32.toNat (not_ne_iff.mp (not_or.mp hmod).2)
    rw [UInt32.toNat_mod] at hnat
    exact Nat.div_mul_cancel (Nat.dvd_of_mod_eq_zero hnat)

/-- An access is refused with one of two errors. -/
theorem accessChecks_error {priv : Nfp6000AreaPriv} {width : Int32} {offset : UInt64}
    {length : UInt32} {err : ℤ} (h : accessChecks priv width offset length = .error err) :
    err = -EFAULT ∨ err = -EINVAL := by
  unfold accessChecks at h
  dsimp only at h
  split_ifs at h
  all_goals
    cases h
    first
    | exact .inl rfl
    | exact .inr rfl

/-- **A read fills the buffer**: what was there reaches neither the result nor the device. -/
theorem nfpCppAreaRead_fills (cpp : NfpCpp δ) (area : NfpCppArea) (offset : UInt64) (mem mem' : Mem)
    (length : UInt32) (w : NfpWorld δ) :
    (nfpCppAreaRead cpp area offset mem length w).1 =
        (nfpCppAreaRead cpp area offset mem' length w).1 ∧
      (nfpCppAreaRead cpp area offset mem length w).2.2 =
        (nfpCppAreaRead cpp area offset mem' length w).2.2 ∧
      (0 ≤ (nfpCppAreaRead cpp area offset mem length w).1 →
        Agree length.toNat (nfpCppAreaRead cpp area offset mem length w).2.1
          (nfpCppAreaRead cpp area offset mem' length w).2.1) := by
  unfold nfpCppAreaRead
  split
  · exact ⟨rfl, rfl, fun h => absurd h (show ¬(0 : ℤ) ≤ -1 by decide)⟩
  · cases hchecks : accessChecks area.priv area.priv.width.read offset length with
    | error err =>
      refine ⟨rfl, rfl, fun h => absurd h (not_le.mpr ?_)⟩
      rcases accessChecks_error hchecks with rfl | rfl
      · exact show -EFAULT < 0 by decide
      · exact show -EINVAL < 0 by decide
    | ok is64 =>
      have hwords := accessChecks_words hchecks
      have hempty : Agree 0 mem mem' := fun k hk => absurd hk (Nat.not_lt_zero k)
      cases is64 with
      | true =>
        obtain ⟨hmem, hdev⟩ := readWords_agree cpp.bus.load64 8 (length.toNat / 8)
          (area.priv.iomem + offset) w.dev hempty
        rw [Nat.zero_add] at hmem
        refine ⟨rfl, congrArg (fun dev => { w with dev := dev }) hdev, fun _ => ?_⟩
        exact hmem.mono hwords.ge
      | false =>
        obtain ⟨hmem, hdev⟩ := readWords_agree
          (fun a dev => ((cpp.bus.load32 a dev).1.toUInt64, (cpp.bus.load32 a dev).2)) 4
          (length.toNat / 4) (area.priv.iomem + offset) w.dev hempty
        rw [Nat.zero_add] at hmem
        refine ⟨rfl, congrArg (fun dev => { w with dev := dev }) hdev, fun _ => ?_⟩
        exact hmem.mono hwords.ge

/-- **A write looks at its bytes alone.** -/
theorem nfpCppAreaWrite_congr (cpp : NfpCpp δ) (area : NfpCppArea) (offset : UInt64)
    {mem mem' : Mem} {length : UInt32} (w : NfpWorld δ) (h : Agree length.toNat mem mem') :
    nfpCppAreaWrite cpp area offset mem length w =
      nfpCppAreaWrite cpp area offset mem' length w := by
  unfold nfpCppAreaWrite
  split
  · rfl
  · cases hchecks : accessChecks area.priv area.priv.width.write offset length with
    | error err => rfl
    | ok is64 =>
      have hwords := accessChecks_words hchecks
      cases is64 with
      | true =>
        have hdev := writeWords_congr cpp.bus.store64 8 (length.toNat / 8)
          (area.priv.iomem + offset) 0 w.dev
          (h.mono (by rw [Nat.zero_add]; exact hwords.le))
        simp only [if_true, hdev]
      | false =>
        have hdev := writeWords_congr (fun a v => cpp.bus.store32 a v.toUInt32) 4
          (length.toNat / 4) (area.priv.iomem + offset) 0 w.dev
          (h.mono (by rw [Nat.zero_add]; exact hwords.le))
        simp only [Bool.false_eq_true, if_false, hdev]

end NfpUdpEcho
