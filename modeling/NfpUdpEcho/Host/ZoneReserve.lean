import NfpUdpEcho.Host.MemZone

/-!
# What `memzone_reserve` does to the process

A reservation acquires a slot, a descriptor and a mapping, and may fail after any of them. The
paths that fail before the mapping is there undo what they have done; the path on which the
physical address cannot be found gives the slot back and forgets the mapping. `MapLost` says that
the call comes to that path, and is the exact condition for it to be neither done nor undone
(`allOrNothing_iff`).

The states are compared as a whole. A path that undoes what it has done ends in the very state it
has started from (`memzoneReserve_refused`), because opening and closing a descriptor, or taking a
slot and giving it back, restores every field; the path that forgets the mapping differs from it by
that mapping and nothing else. `memzoneReserve_cases` lists the three ways a reservation can end,
and the condition is read off it.
-/

namespace NfpUdpEcho.MemZone

variable {s : ZoneState} {calls : ReserveCalls} {len addr : UInt64} {i : Fin maxMemzones}

/-- What the kernel promises: `open` returns a descriptor that is not open, and `mmap` memory
that is not mapped, from a page on. -/
structure ReserveCalls.Possible (calls : ReserveCalls) (len : UInt64) (s : ZoneState) : Prop where
  file : ∀ name fd, calls.openFile name = some fd → fd ∉ s.fds
  pagemap : ∀ fd, calls.openPagemap = some fd → fd ∉ s.fds
  mapped : ∀ addr, calls.mmap (alignCeil len hugePageSize) = some addr →
    (addr, alignCeil len hugePageSize) ∉ s.mappings
  aligned : ∀ addr, calls.mmap (alignCeil len hugePageSize) = some addr → addr % pageSize = 0

/-- The call returned `ret` and left the process in `s'`: it has failed and changed nothing, or
has reserved one zone. -/
structure AllOrNothing (s : ZoneState) (ret : Option (Fin maxMemzones)) (s' : ZoneState) :
    Prop where
  nothing : ret = none → (∀ j, (s'.mz j).handle = (s.mz j).handle) ∧ s'.freeMz = s.freeMz ∧
    s'.mappings = s.mappings ∧ s'.fds = s.fds
  zone : ∀ i, ret = some i → (s.mz i).handle = handleInvalid ∧ (s'.mz i).handle.toNat = i ∧
    (∀ j, j ≠ i → (s'.mz j).handle = (s.mz j).handle) ∧
    s'.freeMz.toNat + 1 = s.freeMz.toNat ∧
    ((s'.mz i).addr, (s'.mz i).len) ∉ s.mappings ∧
    s'.mappings = insert ((s'.mz i).addr, (s'.mz i).len) s.mappings ∧ s'.fds = s.fds

/-- There is no physical address in the pagemap: `open`, `lseek` or `read` fails, the entry comes
short, or its frame number is zero. -/
def Untranslated (calls : ReserveCalls) (addr : UInt64) : Prop :=
  calls.openPagemap = none ∨ ∀ page, pagemapEntry calls addr = some page → page &&& pfnMask = 0

/-- There is no slot, no file or no memory for the zone. -/
def Refused (calls : ReserveCalls) (len : UInt64) (s : ZoneState) : Prop :=
  s.freeMz = 0 ∨ firstFree s.mz = none ∨
    (∃ i, firstFree s.mz = some i ∧ calls.openFile (zoneFile (UInt16.ofNat i)) = none) ∨
    calls.mmap (alignCeil len hugePageSize) = none

/-- The zone gets a slot, a file and memory, but no physical address. -/
def MapLost (calls : ReserveCalls) (len : UInt64) (s : ZoneState) : Prop :=
  s.freeMz ≠ 0 ∧ ∃ i, firstFree s.mz = some i ∧ calls.openFile (zoneFile (UInt16.ofNat i)) ≠ none ∧
    ∃ addr, calls.mmap (alignCeil len hugePageSize) = some addr ∧ Untranslated calls addr

/-- A call that is made for the zone in slot `i` fails, or finds no physical address. -/
def CallsFail (calls : ReserveCalls) (len : UInt64) (i : Fin maxMemzones) : Prop :=
  calls.openFile (zoneFile (UInt16.ofNat i)) = none ∨
    calls.mmap (alignCeil len hugePageSize) = none ∨
    ∃ addr, calls.mmap (alignCeil len hugePageSize) = some addr ∧ Untranslated calls addr

/-! ### The physical address -/

/-- A descriptor that was new leaves no trace when it is closed. -/
theorem open_close {fd : ℕ} (h : fd ∉ s.fds) : (s.openFd fd).closeFd fd = s := by
  rw [ZoneState.closeFd, ZoneState.openFd]
  dsimp only
  rw [Finset.erase_insert h]

/-- The address of a page is not the error. -/
theorem frame_ne_badIova (page : UInt64) (h : addr % pageSize = 0) :
    (page &&& pfnMask) * pageSize + addr % pageSize ≠ badIova := by
  rw [h]
  intro heq
  have hnat := congrArg (fun x => UInt64.toNat x % 2) heq
  -- the address of a page is even, and the error is -1
  have hbad : badIova.toNat % 2 = 1 := by decide
  simp only [hbad, UInt64.toNat_add, UInt64.toNat_mul, UInt64.toNat_zero,
    show pageSize.toNat = 4096 from by decide] at hnat
  omega

/-- **`mem_virt2phy`**, when its descriptor is fresh. -/
theorem memVirt2phy_cases (hfd : ∀ fd, calls.openPagemap = some fd → fd ∉ s.fds)
    (haddr : addr % pageSize = 0) :
    (Untranslated calls addr ∧ memVirt2phy calls addr s = (badIova, s)) ∨
    ∃ page, ¬Untranslated calls addr ∧ pagemapEntry calls addr = some page ∧
      page &&& pfnMask ≠ 0 ∧
      memVirt2phy calls addr s = ((page &&& pfnMask) * pageSize + addr % pageSize, s) ∧
      (page &&& pfnMask) * pageSize + addr % pageSize ≠ badIova := by
  unfold memVirt2phy Untranslated
  cases hopen : calls.openPagemap with
  | none => exact .inl ⟨.inl rfl, rfl⟩
  | some fd =>
    -- opened and closed again, whatever the entry is
    simp only [open_close (hfd fd hopen)]
    cases hentry : pagemapEntry calls addr with
    | none => exact .inl ⟨.inr fun page hpage => (by cases hpage), rfl⟩
    | some page =>
      by_cases hzero : page &&& pfnMask = 0
      · refine .inl ⟨.inr ?_, if_pos hzero⟩
        rintro page' ⟨⟩
        exact hzero
      · refine .inr ⟨page, ?_, rfl, hzero, if_neg hzero, frame_ne_badIova page haddr⟩
        rintro (hnone | hall)
        · cases hnone
        · exact hzero (hall page rfl)

/-- Only a page that has no address is reported as one. -/
theorem memVirt2phy_bad_iff (haddr : addr % pageSize = 0) :
    (memVirt2phy calls addr s).1 = badIova ↔ Untranslated calls addr := by
  unfold memVirt2phy Untranslated
  cases calls.openPagemap with
  | none => exact iff_of_true rfl (.inl rfl)
  | some fd =>
    cases pagemapEntry calls addr with
    | none => exact iff_of_true rfl (.inr fun page hpage => (by cases hpage))
    | some page =>
      dsimp only
      by_cases hzero : page &&& pfnMask = 0
      · rw [if_pos hzero]
        exact iff_of_true rfl (.inr fun _ hpage => Option.some.inj hpage ▸ hzero)
      · rw [if_neg hzero]
        refine iff_of_false (frame_ne_badIova page haddr) ?_
        rintro (hnone | hall)
        · cases hnone
        · exact hzero (hall page rfl)

/-! ### The slot -/

/-- What `alloc_memzone` has done, `free_memzone` undoes, whatever has become of the rest of the
process. -/
theorem freeMemzone_alloc (hfree : (s.mz i).handle = handleInvalid) (fds : Finset ℕ)
    (mappings : Finset (UInt64 × UInt64)) :
    freeMemzone (some i) { s.setHandle i (UInt16.ofNat i) with
      freeMz := s.freeMz - 1, fds := fds, mappings := mappings } =
      { s with fds := fds, mappings := mappings } := by
  have hused := toNat_ofNat_slot i
  rw [← setHandle_handle_self s i (UInt16.ofNat i)] at hused
  -- the handle was the invalid one before, and the count comes back also around zero
  have hself : { s.mz i with handle := handleInvalid } = s.mz i := by rw [← hfree]
  refine (freeMemzone_used (s := { s.setHandle i (UInt16.ofNat i) with
    freeMz := s.freeMz - 1, fds := fds, mappings := mappings }) hused).trans ?_
  simp only [ZoneState.setHandle, ZoneState.setZone, Function.update_self,
    Function.update_idem, hself, Function.update_eq_self, UInt16.sub_add_cancel]

/-! ### The call -/

/-- A call that is refused never comes to a mapping. -/
theorem Refused.not_mapLost (h : Refused calls len s) : ¬MapLost calls len s := by
  rintro ⟨hcount, i, hfirst, hfile, addr, haddr, -⟩
  rcases h with hzero | hnone | ⟨j, hj, hnofile⟩ | hnomem
  · exact hcount hzero
  · rw [hnone] at hfirst
    cases hfirst
  · rw [hfirst] at hj
    cases hj
    exact hfile hnofile
  · rw [hnomem] at haddr
    cases haddr

/-- **No zone.** `memzone_reserve` returns NULL when it finds no slot, or when a call fails that
it makes for the slot it has found. -/
theorem memzoneReserve_none_iff
    (haligned : ∀ addr, calls.mmap (alignCeil len hugePageSize) = some addr → addr % pageSize = 0) :
    (memzoneReserve calls len s).1 = none ↔ (s.freeMz = 0 ∨ firstFree s.mz = none) ∨
      ∃ i, firstFree s.mz = some i ∧ CallsFail calls len i := by
  unfold memzoneReserve
  dsimp only
  obtain ⟨hno, halloc⟩ | ⟨i, hcount, hfirst, halloc⟩ := allocMemzone_cases s
  · rw [halloc]
    exact iff_of_true rfl (.inl hno)
  -- with a slot, what is left are the calls
  have hslot : ¬(s.freeMz = 0 ∨ firstFree s.mz = none) := by
    rw [hfirst]
    exact not_or.mpr ⟨hcount, Option.some_ne_none i⟩
  have hcalls : (∃ j, firstFree s.mz = some j ∧ CallsFail calls len j) ↔ CallsFail calls len i := by
    rw [hfirst]
    exact ⟨fun ⟨j, hj, hfail⟩ => Option.some.inj hj ▸ hfail, fun hfail => ⟨i, rfl, hfail⟩⟩
  rw [or_iff_right hslot, hcalls, halloc, CallsFail]
  dsimp only
  rw [setHandle_handle_self]
  cases calls.openFile (zoneFile (UInt16.ofNat i)) with
  | none => exact iff_of_true rfl (.inl rfl)
  | some fd =>
    dsimp only
    cases hmmap : calls.mmap (alignCeil len hugePageSize) with
    | none => exact iff_of_true rfl (.inr (.inl rfl))
    | some addr =>
      dsimp only
      -- the physical address decides
      have hphys (s) : (memVirt2phy calls addr s).1 = badIova ↔ Untranslated calls addr :=
        memVirt2phy_bad_iff (haligned addr hmmap)
      have hfail : (∃ addr', some addr = some addr' ∧ Untranslated calls addr') ↔
          Untranslated calls addr :=
        ⟨fun ⟨_, heq, hlost⟩ => Option.some.inj heq ▸ hlost, fun hlost => ⟨addr, rfl, hlost⟩⟩
      rw [or_iff_right (Option.some_ne_none fd), or_iff_right (Option.some_ne_none addr), hfail]
      split
      · exact iff_of_true rfl ((hphys _).mp ‹_›)
      · exact iff_of_false (Option.some_ne_none i) fun hlost => ‹¬_› ((hphys _).mpr hlost)

/-- What has been acquired before the mapping is given back. -/
theorem memzoneReserve_refused (hp : calls.Possible len s) (h : Refused calls len s) :
    memzoneReserve calls len s = (none, s) := by
  unfold memzoneReserve
  dsimp only
  obtain ⟨-, halloc⟩ | ⟨i, hcount, hfirst, halloc⟩ := allocMemzone_cases s
  · rw [halloc]
  rw [halloc]
  dsimp only
  have hback := freeMemzone_alloc (firstFree_free hfirst) s.fds s.mappings
  rw [setHandle_handle_self]
  cases hopen : calls.openFile (zoneFile (UInt16.ofNat i)) with
  | none => exact congrArg (Prod.mk none) hback
  | some fd =>
    -- there is a slot and a file, so the memory was refused
    have hnomem : calls.mmap (alignCeil len hugePageSize) = none := by
      rcases h with hzero | hnone | ⟨j, hj, hnofile⟩ | hnomem
      · exact absurd hzero hcount
      · cases hnone.symm.trans hfirst
      · cases hj.symm.trans hfirst
        cases hopen.symm.trans hnofile
      · exact hnomem
    dsimp only
    rw [hnomem]
    dsimp only
    -- `t` is the process with the slot taken
    generalize ht : ({ s.setHandle i (UInt16.ofNat i) with freeMz := s.freeMz - 1 } : ZoneState)
      = t
    have hfd : fd ∉ t.fds := by
      rw [← ht]
      exact hp.file _ _ hopen
    -- the file has been closed, and the slot is given back
    rw [open_close hfd, ← ht]
    exact congrArg (Prod.mk none) hback

/-- Once the memory is mapped, the physical address decides. -/
theorem memzoneReserve_mapped {fd : ℕ} (hp : calls.Possible len s) (hcount : s.freeMz ≠ 0)
    (hfirst : firstFree s.mz = some i)
    (hopen : calls.openFile (zoneFile (UInt16.ofNat i)) = some fd)
    (hmmap : calls.mmap (alignCeil len hugePageSize) = some addr) :
    (Untranslated calls addr ∧
      memzoneReserve calls len s = (none, s.map addr (alignCeil len hugePageSize))) ∨
    ∃ page, ¬Untranslated calls addr ∧ pagemapEntry calls addr = some page ∧
      page &&& pfnMask ≠ 0 ∧
      memzoneReserve calls len s =
        (some i, { (s.map addr (alignCeil len hugePageSize)).setZone i
            ⟨(page &&& pfnMask) * pageSize + addr % pageSize, addr,
              alignCeil len hugePageSize, 0, UInt16.ofNat i⟩ with freeMz := s.freeMz - 1 }) := by
  have hfree := firstFree_free hfirst
  obtain ⟨hno, -⟩ | ⟨j, -, hj, halloc⟩ := allocMemzone_cases s
  · rcases hno with hzero | hnone
    · exact absurd hzero hcount
    · cases hnone.symm.trans hfirst
  cases hj.symm.trans hfirst
  unfold memzoneReserve
  dsimp only
  rw [halloc]
  dsimp only
  rw [setHandle_handle_self, hopen]
  dsimp only
  rw [hmmap]
  dsimp only
  -- `t` is the process with the slot taken
  generalize ht : ({ s.setHandle i (UInt16.ofNat i) with freeMz := s.freeMz - 1 } : ZoneState) = t
  have hfd : fd ∉ t.fds := by
    rw [← ht]
    exact hp.file _ _ hopen
  -- the descriptor of the file is closed before the pagemap is opened
  have hclose : ((t.openFd fd).map addr (alignCeil len hugePageSize)).closeFd fd =
      t.map addr (alignCeil len hugePageSize) :=
    open_close (s := t.map addr (alignCeil len hugePageSize)) hfd
  -- so the pagemap's own is a fresh one, too
  have hpage : ∀ fd, calls.openPagemap = some fd →
      fd ∉ (t.map addr (alignCeil len hugePageSize)).fds := by
    rw [← ht]
    exact hp.pagemap
  rw [hclose]
  obtain ⟨hlost, hphys⟩ | ⟨page, hkept, hentry, hzero, hphys, hok⟩ :=
    memVirt2phy_cases hpage (hp.aligned addr hmmap)
  · rw [hphys]
    dsimp only
    rw [if_pos rfl, ← ht]
    -- the slot is given back, and the mapping is not
    exact .inl ⟨hlost, congrArg (Prod.mk none) (freeMemzone_alloc hfree s.fds
      (insert (addr, alignCeil len hugePageSize) s.mappings))⟩
  · rw [hphys]
    dsimp only
    -- the zone is made of the slot
    rw [if_neg hok, ← ht]
    refine .inr ⟨page, hkept, hentry, hzero, ?_⟩
    simp only [ZoneState.map, ZoneState.setHandle, ZoneState.setZone, Function.update_self,
      Function.update_idem]

/-- **`memzone_reserve`, by its outcome.** -/
theorem memzoneReserve_cases (hp : calls.Possible len s) :
    (Refused calls len s ∧ memzoneReserve calls len s = (none, s)) ∨
    (∃ addr, MapLost calls len s ∧ (addr, alignCeil len hugePageSize) ∉ s.mappings ∧
      memzoneReserve calls len s = (none, s.map addr (alignCeil len hugePageSize))) ∨
    ∃ i addr page, ¬MapLost calls len s ∧ s.freeMz ≠ 0 ∧ (s.mz i).handle = handleInvalid ∧
      calls.mmap (alignCeil len hugePageSize) = some addr ∧
      pagemapEntry calls addr = some page ∧ page &&& pfnMask ≠ 0 ∧
      memzoneReserve calls len s =
        (some i, { (s.map addr (alignCeil len hugePageSize)).setZone i
            ⟨(page &&& pfnMask) * pageSize + addr % pageSize, addr,
              alignCeil len hugePageSize, 0, UInt16.ofNat i⟩ with freeMz := s.freeMz - 1 }) := by
  by_cases hno : Refused calls len s
  · exact .inl ⟨hno, memzoneReserve_refused hp hno⟩
  -- there is a slot, a file and memory
  simp only [Refused, not_or, not_exists, not_and, ← ne_eq] at hno
  obtain ⟨hcount, hsome, hfile, hmem⟩ := hno
  obtain ⟨i, hfirst⟩ := Option.ne_none_iff_exists'.mp hsome
  obtain ⟨fd, hopen⟩ := Option.ne_none_iff_exists'.mp (hfile i hfirst)
  obtain ⟨addr, hmmap⟩ := Option.ne_none_iff_exists'.mp hmem
  obtain ⟨hlost, hres⟩ | ⟨page, hkept, hentry, hzero, hres⟩ :=
    memzoneReserve_mapped hp hcount hfirst hopen hmmap
  · exact .inr (.inl ⟨addr, ⟨hcount, i, hfirst, hfile i hfirst, addr, hmmap, hlost⟩,
      hp.mapped addr hmmap, hres⟩)
  · refine .inr (.inr ⟨i, addr, page, ?_, hcount, firstFree_free hfirst, hmmap, hentry, hzero,
      hres⟩)
    rintro ⟨-, -, -, -, addr', haddr', hlost⟩
    cases haddr'.symm.trans hmmap
    exact hkept hlost

/-- A call that changes nothing may return no zone. -/
theorem AllOrNothing.unchanged (s : ZoneState) : AllOrNothing s none s where
  nothing _ := ⟨fun _ => rfl, rfl, rfl, rfl⟩
  zone _ h := by cases h

/-- A mapping that nobody knows of is neither nothing nor a zone. -/
theorem not_allOrNothing_map (h : (addr, len) ∉ s.mappings) :
    ¬AllOrNothing s none (s.map addr len) := by
  intro hall
  have hmaps : insert (addr, len) s.mappings = s.mappings := (hall.nothing rfl).2.2.1
  rw [← hmaps] at h
  exact h (Finset.mem_insert_self _ _)

/-- The zone that a reservation leaves. -/
theorem AllOrNothing.zone_of (hcount : s.freeMz ≠ 0) (hfree : (s.mz i).handle = handleInvalid)
    (hnew : (addr, len) ∉ s.mappings) (iova : UInt64) :
    AllOrNothing s (some i) { (s.map addr len).setZone i ⟨iova, addr, len, 0, UInt16.ofNat i⟩ with
      freeMz := s.freeMz - 1 } where
  nothing h := by cases h
  zone := by
    rintro _ ⟨⟩
    have hself : ((s.map addr len).setZone i ⟨iova, addr, len, 0, UInt16.ofNat i⟩).mz i = _ :=
      setZone_self ..
    -- the count does not wrap: it was not zero
    have hpos : s.freeMz.toNat ≠ 0 := fun h => hcount (UInt16.toNat_inj.mp h)
    dsimp only
    rw [hself]
    refine ⟨hfree, toNat_ofNat_slot i, fun j hj => ?_, ?_, hnew, rfl, rfl⟩
    · rw [setZone_of_ne _ _ hj]
      rfl
    · have hle : (1 : UInt16) ≤ s.freeMz := UInt16.le_iff_toNat_le.mpr (by
        change 1 ≤ s.freeMz.toNat
        omega)
      rw [UInt16.toNat_sub_of_le _ _ hle]
      change s.freeMz.toNat - 1 + 1 = s.freeMz.toNat
      omega

/-- The call that comes to the forgotten mapping. -/
theorem not_allOrNothing_of_mapLost (hp : calls.Possible len s) (hlost : MapLost calls len s) :
    ¬AllOrNothing s (memzoneReserve calls len s).1 (memzoneReserve calls len s).2 := by
  obtain ⟨hno, -⟩ | ⟨addr, -, hnew, hres⟩ | ⟨i, addr, page, hkept, -⟩ := memzoneReserve_cases hp
  · exact absurd hlost hno.not_mapLost
  · rw [hres]
    exact not_allOrNothing_map hnew
  · exact absurd hlost hkept

/-- **Reservation.** `memzone_reserve` is all or nothing, but where the memory is mapped and its
physical address cannot be found. -/
theorem allOrNothing_iff (calls : ReserveCalls) (len : UInt64) (s : ZoneState)
    (hp : calls.Possible len s) :
    AllOrNothing s (memzoneReserve calls len s).1 (memzoneReserve calls len s).2 ↔
      ¬MapLost calls len s := by
  refine ⟨fun hall hlost => not_allOrNothing_of_mapLost hp hlost hall, fun hkept => ?_⟩
  obtain ⟨-, hres⟩ | ⟨addr, hlost, -⟩ | ⟨i, addr, page, -, hcount, hfree, hmmap, -, -, hres⟩ :=
    memzoneReserve_cases hp
  · rw [hres]
    exact AllOrNothing.unchanged s
  · exact absurd hlost hkept
  · rw [hres]
    exact AllOrNothing.zone_of hcount hfree (hp.mapped addr hmmap) _

/-! ### A process that may not read frame numbers -/

/-- A process with no zones, and no descriptor or mapping of its own. -/
def noZones : ZoneState := memzoneInit ⟨fun _ => ⟨0, 0, 0, 0, 0⟩, 0, ∅, ∅⟩

/-- Calls that come out well, with an entry of the pagemap. -/
def callsAt (addr : UInt64) (entry : UInt64 → List UInt8) : ReserveCalls where
  openFile _ := some 3
  mmap len := if len = 0 then none else some addr
  openPagemap := some 3
  lseek _ := true
  read offset := some (entry offset)

theorem firstFree_noZones : ∃ i, firstFree noZones.mz = some i := by
  cases hfirst : firstFree noZones.mz with
  | some i => exact ⟨i, rfl⟩
  | none =>
    have hmem : (⟨0, by decide⟩ : Fin maxMemzones) ∈ noZones.freeSlots := mem_freeSlots.mpr rfl
    rw [firstFree_none hfirst] at hmem
    exact absurd hmem (Finset.notMem_empty _)

/-- The kernel maps at one address only. -/
theorem callsAt_mmap {addr' : UInt64} {entry : UInt64 → List UInt8}
    (h : (callsAt addr entry).mmap len = some addr') : addr' = addr := by
  rw [callsAt] at h
  dsimp only at h
  split at h
  · cases h
  · exact (Option.some.inj h).symm

/-- Such answers are answers that a kernel can give. -/
theorem callsAt_possible (addr : UInt64) (h : addr % pageSize = 0)
    (entry : UInt64 → List UInt8) (len : UInt64) :
    (callsAt addr entry).Possible len noZones where
  file _ _ _ := Finset.notMem_empty _
  pagemap _ _ := Finset.notMem_empty _
  mapped _ _ := Finset.notMem_empty _
  aligned addr' hmmap := by
    rw [callsAt_mmap hmmap]
    exact h

theorem allOrNothing_reserved :
    let calls := callsAt 0x200000 fun _ => [0, 2, 0, 0, 0, 0, 0, 0]
    AllOrNothing noZones (memzoneReserve calls 1 noZones).1 (memzoneReserve calls 1 noZones).2 := by
  refine (allOrNothing_iff _ 1 noZones (callsAt_possible 0x200000 (by decide) _ 1)).mpr ?_
  rintro ⟨-, i, -, -, addr, hmmap, hlost⟩
  rw [callsAt_mmap hmmap] at hlost
  rcases hlost with hnone | hzero
  · cases hnone
  · exact absurd (hzero 512 (by decide)) (by decide)

/-- An entry with frame number zero is all that a process without privilege reads. -/
theorem allOrNothing_false : ¬∀ (calls : ReserveCalls) (len : UInt64) (s : ZoneState),
    calls.Possible len s →
      AllOrNothing s (memzoneReserve calls len s).1 (memzoneReserve calls len s).2 := by
  intro hall
  have hp := callsAt_possible 0x200000 (by decide) (fun _ => List.replicate 8 0) 1
  obtain ⟨i, hfirst⟩ := firstFree_noZones
  refine not_allOrNothing_of_mapLost hp ⟨by decide, i, hfirst, fun h => (by cases h),
    0x200000, by decide, .inr fun page hpage => ?_⟩ (hall _ _ _ hp)
  have hentry : pagemapEntry (callsAt 0x200000 fun _ => List.replicate 8 0) 0x200000 = some 0 := by
    decide
  rw [hentry] at hpage
  cases hpage
  rfl

end NfpUdpEcho.MemZone
