import NfpUdpEcho.Framework.System
import NfpUdpEcho.Host.ZoneReserve

/-!
# The slots of the zone table

A process calls `memzone_init`, and then `memzone_reserve` and `memzone_free` in any order, with
any outcome of the system calls and with any pointer to a slot, freed before or not. `live` is the
set of zones that the calls have returned and that were not freed since. The table and its count
say the same in every state of a run (`slots_ok`).

A handle says what a slot is: the invalid handle marks a free one, and a slot in use holds its own
index, so `free_memzone` can tell a slot that was freed before from one that is in use. A call
either leaves every handle and the count as they were (`SameSlots`) or takes one slot (`Takes`).
Neither relation speaks of descriptors, mappings or the zone's other fields, which is why
`memzone_reserve` needs one lemma only, however many of its system calls fail: what has taken a slot
and gives it back has left the table alone (`Takes.back`).
-/

namespace NfpUdpEcho.MemZone

open LTS

variable {s s' : ZoneState} {i j : Fin maxMemzones} {calls : ReserveCalls} {len : UInt64}

/-- A call, with what the system answers to it. -/
inductive ZoneCall where
  | reserve (len : UInt64) (calls : ReserveCalls)
  | free (mz : Option (Fin maxMemzones))
    (munmap : UInt64 → UInt64 → Finset (UInt64 × UInt64) → ℤ × Finset (UInt64 × UInt64))

/-- The state after a call; what it returns is read off by `liveStep`. -/
def ZoneCall.apply (s : ZoneState) : ZoneCall → ZoneState
  | .reserve len calls => (memzoneReserve calls len s).2
  | .free mz munmap => (memzoneFree munmap mz s).2

/-- A process that works with zones. -/
def zoneSystem : System ZoneState ZoneCall where
  init s := ∃ s₀, s = memzoneInit s₀
  step s l s' := s' = l.apply s

/-- What a call does to the zones that the process holds. -/
def liveStep (live : Finset (Fin maxMemzones)) (t : Transition ZoneState ZoneCall) :
    Finset (Fin maxMemzones) :=
  match t.label with
  | .reserve len calls =>
    match (memzoneReserve calls len t.src).1 with
    | none => live
    | some i => insert i live
  | .free none _ => live
  | .free (some i) _ => live.erase i

/-- The zones that were returned and not freed since. -/
def live (h : List (Transition ZoneState ZoneCall)) : Finset (Fin maxMemzones) := h.foldl liveStep ∅

/-- The count is that of the free slots, and every other slot holds its own index. -/
structure SlotsOk (s : ZoneState) : Prop where
  count : s.freeMz.toNat = s.freeSlots.card
  handle : ∀ i, (s.mz i).handle = handleInvalid ∨ (s.mz i).handle = UInt16.ofNat i

/-- Two states with the same slots. -/
structure SameSlots (s s' : ZoneState) : Prop where
  handle : ∀ i, (s'.mz i).handle = (s.mz i).handle
  count : s'.freeMz = s.freeMz

/-- The slot `i` of `s` is taken in `s'`. -/
structure Takes (i : Fin maxMemzones) (s s' : ZoneState) : Prop where
  free : (s.mz i).handle = handleInvalid
  taken : (s'.mz i).handle = UInt16.ofNat i
  other : ∀ j, j ≠ i → (s'.mz j).handle = (s.mz j).handle
  count : s.freeMz ≠ 0 ∧ s'.freeMz = s.freeMz - 1

/-! ### What the calls do to the slots

First what the two relations say of the set of free slots and of the count, then which of them each
function of the table satisfies. -/

/-- A slot is free by its handle alone, so the same handles leave the same slots free. -/
theorem SameSlots.freeSlots (h : SameSlots s s') : s'.freeSlots = s.freeSlots := by
  ext i
  rw [mem_freeSlots, mem_freeSlots, h.handle]

/-- A call that leaves the slots alone keeps what is known of them. -/
theorem SameSlots.ok (h : SameSlots s s') (hok : SlotsOk s) : SlotsOk s' where
  count := by rw [h.count, h.freeSlots, hok.count]
  handle i := by
    rw [h.handle]
    exact hok.handle i

/-- The slot that is taken is no longer free, and no other has changed. -/
theorem Takes.freeSlots (h : Takes i s s') : s'.freeSlots = s.freeSlots.erase i := by
  ext j
  rw [Finset.mem_erase, mem_freeSlots, mem_freeSlots]
  rcases eq_or_ne j i with rfl | hne
  · -- the slot itself: its index is not the invalid handle
    rw [h.taken]
    exact iff_of_false (ofNat_slot_ne j) fun hmem => hmem.1 rfl
  · rw [h.other j hne]
    exact (and_iff_right hne).symm

/-- A call that takes a slot keeps the count in step with the table. -/
theorem Takes.ok (h : Takes i s s') (hok : SlotsOk s) : SlotsOk s' where
  count := by
    -- the allocator checks the count before it takes one off
    have hle : (1 : UInt16) ≤ s.freeMz :=
      UInt16.le_iff_toNat_le.mpr (Nat.pos_of_ne_zero fun hzero =>
        h.count.1 (UInt16.toNat_inj.mp hzero))
    rw [h.count.2, h.freeSlots, Finset.card_erase_of_mem (mem_freeSlots.mpr h.free), ← hok.count,
      UInt16.toNat_sub_of_le _ _ hle]
    rfl
  handle j := by
    rcases eq_or_ne j i with rfl | hne
    · exact .inr h.taken
    · rw [h.other j hne]
      exact hok.handle j

/-- `alloc_memzone` takes a slot, or leaves the table alone when there is none. -/
theorem allocMemzone_slots (s : ZoneState) :
    ((s.freeMz = 0 ∨ s.freeSlots = ∅) ∧ allocMemzone s = (none, s)) ∨
    ∃ i, (allocMemzone s).1 = some i ∧ Takes i s (allocMemzone s).2 := by
  obtain ⟨hno, halloc⟩ | ⟨i, hcount, hfirst, halloc⟩ := allocMemzone_cases s
  · exact .inl ⟨hno.imp_right firstFree_none, halloc⟩
  · refine .inr ⟨i, congrArg Prod.fst halloc, ?_⟩
    rw [halloc]
    exact ⟨firstFree_free hfirst, setHandle_handle_self s i _,
      fun j hj => congrArg Memzone.handle (setZone_of_ne s _ hj), hcount, rfl⟩

/-- What is given back after an allocation leaves the slots as they were. -/
theorem Takes.back (h : Takes i s s') : SameSlots s (freeMemzone (some i) s') := by
  have hused : (s'.mz i).handle.toNat = i := by rw [h.taken, toNat_ofNat_slot]
  rw [freeMemzone_used hused]
  constructor
  · intro j
    change ((s'.setHandle i handleInvalid).mz j).handle = _
    rcases eq_or_ne j i with rfl | hne
    · rw [setHandle_handle_self, h.free]
    · rw [ZoneState.setHandle, setZone_of_ne _ _ hne, h.other j hne]
  · change s'.freeMz + 1 = s.freeMz
    rw [h.count.2, UInt16.sub_add_cancel]

/-- Work on descriptors and mappings may follow the allocation. -/
theorem Takes.trans {s'' : ZoneState} (h : Takes i s s') (hsame : SameSlots s' s'') :
    Takes i s s'' where
  free := h.free
  taken := by rw [hsame.handle, h.taken]
  other j hj := by rw [hsame.handle, h.other j hj]
  count := by rw [hsame.count]; exact h.count

/-- A call that returns at once has changed nothing. -/
theorem SameSlots.refl (s : ZoneState) : SameSlots s s := ⟨fun _ => rfl, rfl⟩

/-- `mem_virt2phy` works on descriptors only. -/
theorem memVirt2phy_slots (calls : ReserveCalls) (virtaddr : UInt64) (s : ZoneState) :
    SameSlots s (memVirt2phy calls virtaddr s).2 := by
  rw [memVirt2phy_state]
  exact ⟨fun _ => rfl, rfl⟩

/-- **`memzone_reserve`**, with any outcome of the calls: it returns a slot that it has taken, or
the slots are as they were. -/
theorem memzoneReserve_slots (calls : ReserveCalls) (len : UInt64) (s : ZoneState) :
    ((memzoneReserve calls len s).1 = none ∧ SameSlots s (memzoneReserve calls len s).2) ∨
    ∃ i, (memzoneReserve calls len s).1 = some i ∧ Takes i s (memzoneReserve calls len s).2 := by
  unfold memzoneReserve
  dsimp only
  obtain ⟨-, halloc⟩ | ⟨i, hret, htakes⟩ := allocMemzone_slots s
  · rw [halloc]
    exact .inl ⟨rfl, .refl s⟩
  rcases hs : allocMemzone s with ⟨mz, t⟩
  rw [hs] at hret htakes
  obtain rfl : mz = some i := hret
  dsimp only
  cases calls.openFile (zoneFile (t.mz i).handle) with
  -- every path that fails from here on gives the slot back
  | none => exact .inl ⟨rfl, htakes.back⟩
  | some fd =>
    dsimp only
    cases calls.mmap (alignCeil len hugePageSize) with
    | none =>
      -- descriptors and mappings are no slots
      have hclosed : Takes i s ((t.openFd fd).closeFd fd) := htakes.trans ⟨fun _ => rfl, rfl⟩
      exact .inl ⟨rfl, hclosed.back⟩
    | some addr =>
      dsimp only
      generalize hmapped : ((t.openFd fd).map addr (alignCeil len hugePageSize)).closeFd fd = m
      have hm : Takes i s m := htakes.trans (hmapped ▸ ⟨fun _ => rfl, rfl⟩)
      have hphys := hm.trans (memVirt2phy_slots calls addr m)
      split
      · exact .inl ⟨rfl, hphys.back⟩
      · -- the zone's other fields are written, its handle stays
        exact .inr ⟨i, rfl, hphys.trans ⟨setZone_handle _ rfl, rfl⟩⟩

/-- `free_memzone` gives a slot back that is in use, and does nothing to one that is free. -/
theorem freeMemzone_slots (hok : SlotsOk s) (i : Fin maxMemzones) :
    SlotsOk (freeMemzone (some i) s) ∧
      (freeMemzone (some i) s).freeSlots = insert i s.freeSlots := by
  -- a slot that is free already fails the guard on the handle
  rcases hok.handle i with hfree | hslot
  · rw [freeMemzone_free hfree, Finset.insert_eq_of_mem (mem_freeSlots.mpr hfree)]
    exact ⟨hok, rfl⟩
  have hused : (s.mz i).handle.toNat = i := by rw [hslot, toNat_ofNat_slot]
  have hnot : i ∉ s.freeSlots := fun hmem => ofNat_slot_ne i (hslot ▸ mem_freeSlots.mp hmem)
  rw [freeMemzone_used hused]
  have hslots : ZoneState.freeSlots { s.setHandle i handleInvalid with freeMz := s.freeMz + 1 } =
      insert i s.freeSlots := by
    ext j
    rw [Finset.mem_insert, mem_freeSlots, mem_freeSlots]
    change ((s.setHandle i handleInvalid).mz j).handle = _ ↔ _
    rcases eq_or_ne j i with rfl | hne
    · exact iff_of_true (setHandle_handle_self s j _) (.inl rfl)
    · rw [ZoneState.setHandle, setZone_of_ne _ _ hne]
      exact (or_iff_right hne).symm
  refine ⟨⟨?_, fun j => ?_⟩, hslots⟩
  · -- one slot was in use, so the count cannot wrap
    have hcard : (insert i s.freeSlots).card ≤ 1024 := by
      have hle := Finset.card_le_univ (insert i s.freeSlots)
      rwa [Fintype.card_fin] at hle
    rw [hslots, Finset.card_insert_of_notMem hnot] at *
    rw [UInt16.toNat_add, hok.count]
    exact Nat.mod_eq_of_lt (by
      change s.freeSlots.card + 1 < 65536
      omega)
  · change ((s.setHandle i handleInvalid).mz j).handle = _ ∨ _
    rcases eq_or_ne j i with rfl | hne
    · exact .inl (setHandle_handle_self s j _)
    · rw [ZoneState.setHandle, setZone_of_ne _ _ hne]
      exact hok.handle j

/-! ### Runs

The free slots are those that are not live, in every state of a run: `zone_step` is one call,
`run_slots` a whole run. -/

/-- `memzone_init` marks every slot as free and counts them all, whatever memory held. -/
theorem slotsOk_init (s : ZoneState) : SlotsOk (memzoneInit s) where
  count := by
    have hall : (memzoneInit s).freeSlots = Finset.univ :=
      Finset.filter_true_of_mem fun _ _ => rfl
    rw [hall, Finset.card_univ, Fintype.card_fin]
    rfl
  handle _ := .inl rfl

/-- The slots in use are those of the zones the process holds. -/
theorem zone_step (l : ZoneCall) (hok : SlotsOk s) {zones : Finset (Fin maxMemzones)}
    (hzones : s.freeSlots = zonesᶜ) :
    SlotsOk (l.apply s) ∧ (l.apply s).freeSlots = (liveStep zones ⟨s, l, l.apply s⟩)ᶜ := by
  cases l with
  | reserve len calls =>
    dsimp only [ZoneCall.apply, liveStep]
    obtain ⟨hret, hsame⟩ | ⟨i, hret, htakes⟩ := memzoneReserve_slots calls len s
    · rw [hret]
      exact ⟨hsame.ok hok, hsame.freeSlots.trans hzones⟩
    · rw [hret]
      refine ⟨htakes.ok hok, ?_⟩
      rw [htakes.freeSlots, hzones, Finset.compl_insert]
  | free mz munmap =>
    cases mz with
    | none => exact ⟨hok, hzones⟩
    | some i =>
      -- whatever `munmap` does, the slots are those before
      have hsame : ∀ mappings, SameSlots s { s with mappings := mappings } :=
        fun _ => ⟨fun _ => rfl, rfl⟩
      obtain ⟨hok', hslots⟩ := freeMemzone_slots ((hsame _).ok hok) i
      refine ⟨hok', hslots.trans ?_⟩
      rw [(hsame _).freeSlots, hzones]
      exact (Finset.compl_erase).symm

/-- A whole run, by induction on its calls. -/
theorem run_slots {h : List (Transition ZoneState ZoneCall)} (he : Exec zoneSystem h s) :
    SlotsOk s ∧ s.freeSlots = (live h)ᶜ := by
  induction he with
  | init hinit =>
    obtain ⟨s₀, rfl⟩ := hinit
    refine ⟨slotsOk_init s₀, ?_⟩
    ext i
    rw [mem_freeSlots]
    exact iff_of_true rfl (Finset.mem_compl.mpr (Finset.notMem_empty i))
  | @snoc h' s₁ s₂ l _ hstep ih =>
    obtain rfl : s₂ = l.apply s₁ := hstep
    have hnext := zone_step l ih.1 ih.2
    rw [live, List.foldl_append]
    exact hnext

/-- No slot is found exactly when there is none. -/
theorem SlotsOk.noSlot_iff (hok : SlotsOk s) :
    s.freeMz = 0 ∨ firstFree s.mz = none ↔ s.freeSlots = ∅ := by
  constructor
  · rintro (hzero | hnone)
    · -- the count is right
      have hcard : s.freeSlots.card = 0 := by
        rw [← hok.count, hzero]
        rfl
      exact Finset.card_eq_zero.mp hcard
    · exact firstFree_none hnone
  · intro hempty
    refine .inl (UInt16.toNat_inj.mp ?_)
    rw [hok.count, hempty]
    rfl

/-- The names of the files of two slots differ. -/
theorem zoneFile_inj {handle handle' : UInt16} (h : zoneFile handle = zoneFile handle') :
    handle = handle' := by
  have hshort (handle : UInt16) : zoneFile handle = "/mnt/huge/memzone-".toList ++
      Numeral.text (Numeral.padded 1 10 handle.toNat) := by
    -- 18 characters and at most five digits are not cut off
    have hdigits : (Nat.digits 10 handle.toNat).length ≤ 5 := by
      rw [Nat.digits_length_le_iff (by decide)]
      exact handle.toNat_lt.trans (by decide)
    refine List.take_of_length_le ?_
    rw [List.length_append, Numeral.text, List.length_map, Numeral.length_padded]
    change 18 + _ ≤ 63
    omega
  rw [hshort, hshort] at h
  exact UInt16.toNat_inj.mp (Numeral.text_padded_inj (by decide) (by decide)
    (List.append_cancel_left h))

/-- The table after some calls: the count and the handles are right, also between the two halves
of a reservation, a zone in use is not handed out again, nor is its file, and a reservation whose
calls come out well is refused only when all slots are in use. -/
structure ZonesOk (h : List (Transition ZoneState ZoneCall)) (s : ZoneState) : Prop where
  ok : SlotsOk s
  alloc : SlotsOk (allocMemzone s).2
  le : s.freeMz.toNat ≤ maxMemzones
  inUse : ∀ i, i ∈ live h ↔ (s.mz i).handle ≠ handleInvalid
  fresh : ∀ calls len i, (memzoneReserve calls len s).1 = some i → i ∉ live h
  file : ∀ i ∈ live h, ∀ j ∈ live h, zoneFile (s.mz i).handle = zoneFile (s.mz j).handle → i = j
  full : (allocMemzone s).1 = none → live h = Finset.univ
  refused : ∀ calls len,
    (∀ addr, calls.mmap (alignCeil len hugePageSize) = some addr → addr % pageSize = 0) →
    ((memzoneReserve calls len s).1 = none ↔
      live h = Finset.univ ∨ ∃ i, firstFree s.mz = some i ∧ CallsFail calls len i)

/-- **Slots.** -/
theorem slots_ok (h : List (Transition ZoneState ZoneCall)) (s : ZoneState)
    (he : Exec zoneSystem h s) : ZonesOk h s := by
  obtain ⟨hok, hfree⟩ := run_slots he
  have hmem (i) : i ∈ live h ↔ (s.mz i).handle ≠ handleInvalid := by
    rw [← not_iff_not, not_not, ← mem_freeSlots, hfree, Finset.mem_compl]
  -- all slots are in use when none is free
  have hfull : s.freeMz = 0 ∨ firstFree s.mz = none ↔ live h = Finset.univ := by
    rw [hok.noSlot_iff, hfree]
    exact compl_eq_bot
  refine ⟨hok, ?_, ?_, hmem, ?_, ?_, ?_, ?_⟩
  · obtain ⟨-, halloc⟩ | ⟨i, -, htakes⟩ := allocMemzone_slots s
    · rw [halloc]
      exact hok
    · exact htakes.ok hok
  · rw [hok.count]
    exact (Finset.card_le_univ _).trans_eq (Fintype.card_fin _)
  · -- a slot that a reservation returns was free
    intro calls len i hret
    obtain ⟨hnone, -⟩ | ⟨j, hj, htakes⟩ := memzoneReserve_slots calls len s
    · rw [hnone] at hret
      cases hret
    · rw [hj] at hret
      cases hret
      exact fun hlive => (hmem i).mp hlive htakes.free
  · -- the name of the file tells the handle, and the handle the slot
    intro i hi j hj hfile
    have hhandle := zoneFile_inj hfile
    rw [(hok.handle i).resolve_left ((hmem i).mp hi),
      (hok.handle j).resolve_left ((hmem j).mp hj)] at hhandle
    have hnat := congrArg UInt16.toNat hhandle
    rw [toNat_ofNat_slot, toNat_ofNat_slot] at hnat
    exact Fin.ext hnat
  · intro hnone
    obtain ⟨hno, -⟩ | ⟨i, -, -, halloc⟩ := allocMemzone_cases s
    · exact hfull.mp hno
    · rw [halloc] at hnone
      cases hnone
  · intro calls len haligned
    rw [memzoneReserve_none_iff haligned, hfull]

/-- Slot 0 is reserved, and freed twice. -/
theorem slots_ok_freed_twice : ∃ h s, live (h.take 1) = {⟨0, by decide⟩} ∧ h.length = 3 ∧
    live h = ∅ ∧ ZonesOk h s := by
  let reserve := ZoneCall.reserve 1 (callsAt 0x200000 fun _ => [0, 2, 0, 0, 0, 0, 0, 0])
  let free := ZoneCall.free (some ⟨0, by decide⟩) fun addr len maps => (0, maps.erase (addr, len))
  have he : Exec zoneSystem [] noZones := .init ⟨_, rfl⟩
  refine ⟨_, _, ?_, rfl, ?_, slots_ok _ _ (((he.snoc (l := reserve) rfl).snoc (l := free) rfl).snoc
    (l := free) rfl)⟩
  · decide +kernel
  · decide +kernel

end NfpUdpEcho.MemZone
