import Mathlib.Data.Finset.Card
import Mathlib.Data.Fintype.Basic
import NfpUdpEcho.Framework.LittleEndian
import NfpUdpEcho.Framework.Numerals

/-!
# Memory zones

`memzone_reserve` (`user/lib/memzone.c`) takes a free slot of the table `_mz`, maps a file of
huge pages for it and looks the physical address of the mapping up in `/proc/self/pagemap`.
`memzone_free` unmaps a zone and gives its slot back.

The system calls may come out in any way (`ReserveCalls`). What they do to the process are its
open descriptors and its memory mappings.
-/

namespace NfpUdpEcho.MemZone

open LittleEndian

def maxMemzones : ℕ := 1024

/-- `MEMZONE_HANDLE_INVALID`. -/
def handleInvalid : UInt16 := 1025

/-- `MEMZONE_BAD_IOVA`. -/
def badIova : UInt64 := -1

/-- `PAGE_SIZE` of `config.h`. -/
def pageSize : UInt64 := (1 : UInt64) <<< 12

def hugePageSize : UInt64 := (1 : UInt64) <<< 21

/-- The frame number in an entry of the pagemap. -/
def pfnMask : UInt64 := 0x7fffffffffffff

/-- `ALIGN_FLOOR`. -/
def alignFloor (val align : UInt64) : UInt64 := val &&& ~~~(align - 1)

/-- `ALIGN_CEIL`. -/
def alignCeil (val align : UInt64) : UInt64 := alignFloor (val + (align - 1)) align

/-- `struct memzone`. -/
structure Memzone where
  iova : UInt64
  addr : UInt64
  len : UInt64
  flags : UInt16
  handle : UInt16
  deriving DecidableEq

/-- `_mz` and `_free_mz`, and of the process the open descriptors and the mappings, with their
lengths. -/
structure ZoneState where
  mz : Fin maxMemzones → Memzone
  freeMz : UInt16
  fds : Finset ℕ
  mappings : Finset (UInt64 × UInt64)

/-- How the system calls of `memzone_reserve` come out; `none` is the failure of a call. -/
structure ReserveCalls where
  openFile : List Char → Option ℕ
  mmap : UInt64 → Option UInt64
  openPagemap : Option ℕ
  lseek : UInt64 → Bool
  /-- The bytes that `read` returns at a position of the pagemap, eight at most. -/
  read : UInt64 → Option (List UInt8)

variable {s : ZoneState} {i j : Fin maxMemzones}

def ZoneState.setZone (s : ZoneState) (i : Fin maxMemzones) (mz : Memzone) : ZoneState :=
  { s with mz := Function.update s.mz i mz }

def ZoneState.setHandle (s : ZoneState) (i : Fin maxMemzones) (handle : UInt16) : ZoneState :=
  s.setZone i { s.mz i with handle := handle }

def ZoneState.openFd (s : ZoneState) (fd : ℕ) : ZoneState := { s with fds := insert fd s.fds }

def ZoneState.closeFd (s : ZoneState) (fd : ℕ) : ZoneState := { s with fds := s.fds.erase fd }

def ZoneState.map (s : ZoneState) (addr len : UInt64) : ZoneState :=
  { s with mappings := insert (addr, len) s.mappings }

/-! ### The functions -/

/-- The entry of the pagemap for a page, or an error. -/
def pagemapEntry (calls : ReserveCalls) (virtaddr : UInt64) : Option UInt64 :=
  let offset := 8 * (virtaddr / pageSize)
  if calls.lseek offset then
    match calls.read offset with
    | none => none
    -- an entry that comes short is an error
    | some bytes => if bytes.length ≠ 8 then none else some (u64OfBytes bytes)
  else none

/-- `mem_virt2phy`. -/
def memVirt2phy (calls : ReserveCalls) (virtaddr : UInt64) (s : ZoneState) :
    UInt64 × ZoneState :=
  match calls.openPagemap with
  | none => (badIova, s)
  | some fd =>
    -- the file is closed on every path
    let s := (s.openFd fd).closeFd fd
    match pagemapEntry calls virtaddr with
    | none => (badIova, s)
    | some page =>
      if page &&& pfnMask = 0 then (badIova, s)
      else ((page &&& pfnMask) * pageSize + virtaddr % pageSize, s)

/-- The loop of `alloc_memzone`. -/
def firstFree (mz : Fin maxMemzones → Memzone) : Option (Fin maxMemzones) :=
  (List.finRange maxMemzones).find? fun i => (mz i).handle = handleInvalid

/-- `alloc_memzone`. -/
def allocMemzone (s : ZoneState) : Option (Fin maxMemzones) × ZoneState :=
  if s.freeMz = 0 then (none, s)
  else
    match firstFree s.mz with
    -- the count says that there is one: never taken when both agree
    | none => (none, s)
    | some idx =>
      (some idx, { s.setHandle idx (UInt16.ofNat idx) with freeMz := s.freeMz - 1 })

/-- `free_memzone`, of NULL or of a pointer to a slot. -/
def freeMemzone (mz : Option (Fin maxMemzones)) (s : ZoneState) : ZoneState :=
  match mz with
  | none => s
  | some i =>
    let idx := (s.mz i).handle
    -- a slot that is free, or a pointer that is not that of its handle, is left alone
    if idx.toNat ≥ maxMemzones then s
    else if idx.toNat ≠ i then s
    else { s.setHandle i handleInvalid with freeMz := s.freeMz + 1 }

/-- The file behind a zone, as `snprintf` writes it into 64 bytes. -/
def zoneFile (handle : UInt16) : List Char :=
  ("/mnt/huge/memzone-".toList ++ Numeral.text (Numeral.padded 1 10 handle.toNat)).take 63

/-- `memzone_reserve`. -/
def memzoneReserve (calls : ReserveCalls) (len : UInt64) (s : ZoneState) :
    Option (Fin maxMemzones) × ZoneState :=
  let len := alignCeil len hugePageSize
  match allocMemzone s with
  | (none, s) => (none, s)
  | (some i, s) =>
    match calls.openFile (zoneFile (s.mz i).handle) with
    | none => (none, freeMemzone (some i) s)
    | some fd =>
      let s := s.openFd fd
      match calls.mmap len with
      -- `close` comes before the check
      | none => (none, freeMemzone (some i) (s.closeFd fd))
      | some addr =>
        let s := (s.map addr len).closeFd fd
        let (phyaddr, s) := memVirt2phy calls addr s
        -- the mapping stays when there is no address for the device
        if phyaddr = badIova then (none, freeMemzone (some i) s)
        else
          (some i, s.setZone i
            { s.mz i with addr := addr, len := len, iova := phyaddr, flags := 0 })

/-- `memzone_free`; `munmap` is what the call returns and leaves mapped. -/
def memzoneFree (munmap : UInt64 → UInt64 → Finset (UInt64 × UInt64) → ℤ × Finset (UInt64 × UInt64))
    (mz : Option (Fin maxMemzones)) (s : ZoneState) : ℤ × ZoneState :=
  match mz with
  | none => (0, s)
  | some i =>
    let (ret, mappings) := munmap (s.mz i).addr (s.mz i).len s.mappings
    -- the slot is freed even when the memory could not be
    (ret, freeMemzone (some i) { s with mappings := mappings })

/-- `memzone_init`. -/
def memzoneInit (s : ZoneState) : ZoneState :=
  { s with
    mz := fun i => { s.mz i with handle := handleInvalid }
    freeMz := UInt16.ofNat maxMemzones }

/-! ### Slots -/

/-- The slots that are free. -/
def ZoneState.freeSlots (s : ZoneState) : Finset (Fin maxMemzones) :=
  Finset.univ.filter fun i => (s.mz i).handle = handleInvalid

@[simp] theorem mem_freeSlots : i ∈ s.freeSlots ↔ (s.mz i).handle = handleInvalid := by
  rw [ZoneState.freeSlots, Finset.mem_filter]
  exact and_iff_right (Finset.mem_univ i)

@[simp] theorem setZone_self (s : ZoneState) (i : Fin maxMemzones) (mz : Memzone) :
    (s.setZone i mz).mz i = mz := Function.update_self ..

theorem setZone_of_ne (s : ZoneState) (mz : Memzone) (h : j ≠ i) :
    (s.setZone i mz).mz j = s.mz j := Function.update_of_ne h _ _

theorem setHandle_handle_self (s : ZoneState) (i : Fin maxMemzones) (handle : UInt16) :
    ((s.setHandle i handle).mz i).handle = handle :=
  congrArg Memzone.handle (setZone_self s i _)

/-- Writing the other fields of a zone. -/
theorem setZone_handle (s : ZoneState) {mz : Memzone} (h : mz.handle = (s.mz i).handle)
    (j : Fin maxMemzones) : ((s.setZone i mz).mz j).handle = (s.mz j).handle := by
  rcases eq_or_ne j i with rfl | hne
  · rw [setZone_self, h]
  · rw [setZone_of_ne s mz hne]

/-- The handle of a slot in use. -/
theorem toNat_ofNat_slot (i : Fin maxMemzones) : (UInt16.ofNat i).toNat = i := by
  have hlt : (i : ℕ) < 1024 := i.isLt
  rw [UInt16.toNat_ofNat', Nat.mod_eq_of_lt (by omega)]

theorem ofNat_slot_ne (i : Fin maxMemzones) : UInt16.ofNat i ≠ handleInvalid := by
  intro h
  have hnat := congrArg UInt16.toNat h
  rw [toNat_ofNat_slot] at hnat
  have hlt : (i : ℕ) < 1024 := i.isLt
  -- the invalid handle is beyond every index
  have hinv : handleInvalid.toNat = 1025 := rfl
  omega

theorem firstFree_free (h : firstFree s.mz = some i) : (s.mz i).handle = handleInvalid :=
  of_decide_eq_true (List.find?_some h :)

theorem firstFree_none (h : firstFree s.mz = none) : s.freeSlots = ∅ := by
  refine Finset.eq_empty_of_forall_notMem fun i hi => ?_
  have hnot := List.find?_eq_none.mp h i (List.mem_finRange i)
  exact hnot (decide_eq_true (mem_freeSlots.mp hi))

/-- **`alloc_memzone`.** It takes the first free slot, or there is none, or the count says so. -/
theorem allocMemzone_cases (s : ZoneState) :
    ((s.freeMz = 0 ∨ firstFree s.mz = none) ∧ allocMemzone s = (none, s)) ∨
    ∃ i, s.freeMz ≠ 0 ∧ firstFree s.mz = some i ∧ allocMemzone s =
      (some i, { s.setHandle i (UInt16.ofNat i) with freeMz := s.freeMz - 1 }) := by
  unfold allocMemzone
  by_cases hzero : s.freeMz = 0
  · rw [if_pos hzero]
    exact .inl ⟨.inl hzero, rfl⟩
  · rw [if_neg hzero]
    cases hfind : firstFree s.mz with
    | none => exact .inl ⟨.inr rfl, rfl⟩
    | some i => exact .inr ⟨i, hzero, rfl, rfl⟩

/-- `free_memzone` of a slot in use. -/
theorem freeMemzone_used (h : (s.mz i).handle.toNat = i) : freeMemzone (some i) s =
    { s.setHandle i handleInvalid with freeMz := s.freeMz + 1 } := by
  have hlt : (s.mz i).handle.toNat < maxMemzones := h ▸ i.isLt
  simp only [freeMemzone, if_neg (not_le.mpr hlt), if_neg (not_not.mpr h)]

/-- `free_memzone` of a slot that is free already. -/
theorem freeMemzone_free (h : (s.mz i).handle = handleInvalid) : freeMemzone (some i) s = s := by
  have hge : (s.mz i).handle.toNat ≥ maxMemzones := by
    rw [h]
    decide
  simp only [freeMemzone, if_pos hge]

theorem memVirt2phy_state (calls : ReserveCalls) (virtaddr : UInt64) (s : ZoneState) :
    (memVirt2phy calls virtaddr s).2 =
      { s with fds := (memVirt2phy calls virtaddr s).2.fds } := by
  unfold memVirt2phy
  split
  · rfl
  · split
    · rfl
    · split <;> rfl

end NfpUdpEcho.MemZone
