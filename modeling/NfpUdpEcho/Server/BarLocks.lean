import NfpUdpEcho.Framework.System
import NfpUdpEcho.Server.AreaTable
import NfpUdpEcho.Server.Transfer
import NfpUdpEcho.Transport.Area

/-!
# Which BARs the device server holds

A BAR is locked inside the allocation of an area and unlocked by `nfp_cpp_area_release` alone,
while the server drops areas with `nfp_cpp_area_free` on three paths: after a failed
initialisation, after a failed acquisition, and when a client releases a granted area. On each
of them the BAR stays locked for good. `NoLeak` says of a command that it takes none of them, and
is the exact condition for a command to lock the BAR of the area it grants, to unlock that of the
area it releases and to leave all others as they were (`barsConserved_iff`).

The commands run over the library of the PCIe transport, from any occupancy of the BARs. Inside a
transfer the area is the one user of a BAR beyond those that were locked before it (`HoldsBar`),
and the loops keep that (`LockInv.step`) until a segment leaks. That segment ends the transfer, so
a leak is seen in the BARs after the command, and the condition is necessary as well
(`transfer_locked_iff`).
-/

namespace NfpUdpEcho

open LTS ByteMem

/-- A command of `nfp_cpp_dev_handle_cmd` that uses areas. The buffers are what
`malloc(count)` and the stack hold, for a write the payload; `malloc` is whether an entry of
the table can be allocated. -/
inductive DevCmd where
  | read (count offset : UInt64) (buf tmpbuf : Mem)
  | write (count offset : UInt64) (err : ℤ) (buf tmpbuf : Mem)
  | areaRequest (interface : UInt16) (areaReq : AreaRequest) (malloc : Bool)
  | areaRelease (areaReq : AreaRequest)

/-- The granted areas and the library. -/
structure DevState (δ : Type) where
  list : List (NfpDevCppArea NfpCppArea)
  world : NfpWorld δ

variable {δ : Type} (cpp : NfpCpp δ)

/-- The BARs in use. -/
def DevState.locked (s : DevState δ) : Finset (Fin nfpBarMax) := s.world.user.locked

/-- The area of a request. -/
def requestArea (areaReq : AreaRequest) (w : NfpWorld δ) : Option NfpCppArea × NfpWorld δ :=
  nfpCppAreaAlloc cpp areaReq.cppId areaReq.cppAddr areaReq.size w

/-- A request on the library of the transport. -/
def devAreaRequest (interface : UInt16) (areaReq : AreaRequest) (malloc : Bool) (s : DevState δ) :
    ℤ × DevState δ :=
  let q := doCppAreaRequest malloc (requestArea cpp) interface areaReq s.list s.world
  (q.1, ⟨q.2.2.1, q.2.2.2⟩)

/-- A release on it. -/
def devAreaRelease (areaReq : AreaRequest) (s : DevState δ) : ℤ × DevState δ :=
  let q := doCppAreaRelease nfpCppAreaFree areaReq s.list s.world
  (q.1, ⟨q.2.1, q.2.2⟩)

/-- A command that ends. -/
inductive DevStep : DevState δ → DevCmd → DevState δ → Prop where
  | read {s : DevState δ} {count offset : UInt64} {buf tmpbuf : Mem}
      {r : TransferResult (NfpWorld δ)} :
      Loop.Returns (devRead (nfpCppOps cpp) offset) (readEntry count offset buf tmpbuf s.world) r →
      DevStep s (.read count offset buf tmpbuf) ⟨s.list, r.world⟩
  | write {s : DevState δ} {count offset : UInt64} {err : ℤ} {buf tmpbuf : Mem}
      {r : TransferResult (NfpWorld δ)} :
      Loop.Returns (devWrite (nfpCppOps cpp) offset)
        (writeEntry count offset err buf tmpbuf s.world) r →
      DevStep s (.write count offset err buf tmpbuf) ⟨s.list, r.world⟩
  | areaRequest {s : DevState δ} {interface : UInt16} {areaReq : AreaRequest} {malloc : Bool} :
      DevStep s (.areaRequest interface areaReq malloc)
        (devAreaRequest cpp interface areaReq malloc s).2
  | areaRelease {s : DevState δ} {areaReq : AreaRequest} :
      DevStep s (.areaRelease areaReq) (devAreaRelease areaReq s).2

/-- Commands in any order, from any state of the library, with no area granted yet. -/
def devSystem : System (DevState δ) DevCmd where
  init s := s.list = []
  step := DevStep cpp

/-- After the command the locked BARs are those before it, plus the BAR of the area it
granted, minus the BAR of the area it released. -/
def BarsConserved (t : Transition (DevState δ) DevCmd) : Prop :=
  match t.label with
  | .read .. | .write .. => t.dst.locked = t.src.locked
  | .areaRequest interface areaReq malloc =>
    if (devAreaRequest cpp interface areaReq malloc t.src).1 = 0 then
      ∃ a i, t.dst.list = t.src.list ++ [a] ∧ a.area.priv.bar = some i ∧ i ∉ t.src.locked ∧
        t.dst.locked = insert i t.src.locked
    else t.dst.locked = t.src.locked
  | .areaRelease areaReq =>
    if (devAreaRelease areaReq t.src).1 = 0 then
      ∃ pre a post i, t.src.list = pre ++ a :: post ∧ t.dst.list = pre ++ post ∧
        a.area.priv.bar = some i ∧ i ∈ t.src.locked ∧ t.dst.locked = t.src.locked.erase i
    else t.dst.locked = t.src.locked

/-! ### The condition -/

/-- The allocation takes a BAR that then refuses the window. -/
def AllocLeaks (dest : UInt32) (address size : UInt64) (w : NfpWorld δ) : Prop :=
  ∃ b, barWindow cpp dest address size w = some b ∧ b.Refused size w.user

/-- Opening the segment takes a BAR that then refuses the window, or is not mapped. -/
def SegmentLeaks (dest : UInt32) (address size : UInt64) (w : NfpWorld δ) : Prop :=
  ∃ b, barWindow cpp dest address size w = some b ∧
    (b.Refused size w.user ∨ (w.user.bar b.bar).iomem = 0)

/-- A transfer about to open such a segment. -/
def LeaksAt (cppId : UInt32) (x : Transfer (NfpWorld δ) NfpCppArea) : Prop :=
  x.pc = .segment ∧ x.count > 0 ∧ SegmentLeaks cpp cppId x.nfpOffset x.curlen x.world

/-- The command drops no area whose BAR is locked: no segment a transfer comes to is refused
once it has a BAR, a request whose offset is free is not refused once it has one, and a
release names no granted area. -/
def NoLeak (s : DevState δ) : DevCmd → Prop
  | .read count offset buf tmpbuf =>
    ∀ x,
      Loop.Visits (devRead (nfpCppOps cpp) offset) (readEntry count offset buf tmpbuf s.world) x →
      ¬LeaksAt cpp (offsetCppId offset) x
  | .write count offset err buf tmpbuf =>
    ∀ x, Loop.Visits (devWrite (nfpCppOps cpp) offset)
        (writeEntry count offset err buf tmpbuf s.world) x →
      ¬LeaksAt cpp (offsetCppId offset) x
  | .areaRequest _ areaReq malloc =>
    malloc = true → (offsetTaken s.list areaReq).isSome = true →
      ¬AllocLeaks cpp areaReq.cppId areaReq.cppAddr areaReq.size s.world
  | .areaRelease areaReq => ∀ a ∈ s.list, a.req.offset ≠ areaReq.offset

/-! ### Transfers

A transfer has at most one area open. Where it does, one more BAR is locked than before the
transfer, and that is the BAR of the area. -/

section Transfers

variable {cpp} {cppId : UInt32} {L : Finset (Fin nfpBarMax)} {area : NfpCppArea} {pos : UInt32}
  {w : NfpWorld δ} {x y : Transfer (NfpWorld δ) NfpCppArea} {r : TransferResult (NfpWorld δ)}
  {access : ChunkAccess (NfpWorld δ) NfpCppArea}

/-- The area is the one user of a BAR beyond `L`. -/
def HoldsBar (L : Finset (Fin nfpBarMax)) (area : NfpCppArea) (w : NfpWorld δ) : Prop :=
  ∃ i ∉ L, area.priv.bar = some i ∧ w.user.locked = insert i L

/-- The BARs locked in the course of a transfer that found `L` locked. -/
def LocksAt (L : Finset (Fin nfpBarMax)) (w : NfpWorld δ) : TransferPc NfpCppArea → Prop
  | .segment => w.user.locked = L
  | .chunk area _ => HoldsBar L area w

/-- A step of a transfer that does not leak. -/
def KeepsLocks (L : Finset (Fin nfpBarMax)) :
    Transfer (NfpWorld δ) NfpCppArea ⊕ TransferResult (NfpWorld δ) → Prop
  | .inl y => LocksAt L y.world y.pc
  | .inr r => r.world.user.locked = L

/-- The release of an area unlocks its BAR and no other. -/
theorem HoldsBar.release (h : HoldsBar L area w) :
    (nfpCppAreaRelease area w).2.user.locked = L := by
  obtain ⟨i, hi, hbar, hlocked⟩ := h
  rw [nfpCppAreaRelease_locked hbar, hlocked, Finset.erase_insert hi]

/-- The end of a segment, with an error or without one. -/
theorem HoldsBar.endSegment (h : HoldsBar L area x.world) (pos : UInt32) :
    KeepsLocks L (endSegment (nfpCppOps cpp) area pos x) := by
  have hrelease := h.release
  simp only [NfpUdpEcho.endSegment]
  split
  · exact hrelease
  · exact hrelease

/-- A chunk of a read that fails ends its segment, which releases the area. -/
theorem HoldsBar.readChunk (h : HoldsBar L area x.world) (pos len : UInt32) :
    KeepsLocks L (readChunk (nfpCppOps cpp) area pos len x) := by
  have huser := nfpCppAreaRead_user cpp area pos.toUInt64 x.tmpbuf len x.world
  have h' : HoldsBar L area (nfpCppAreaRead cpp area pos.toUInt64 x.tmpbuf len x.world).2.2 := by
    rw [HoldsBar, huser]
    exact h
  simp only [NfpUdpEcho.readChunk]
  split
  · exact HoldsBar.endSegment h' pos
  · exact h'

/-- A chunk of a write that fails releases the area on its way out. -/
theorem HoldsBar.writeChunk (h : HoldsBar L area x.world) (pos len : UInt32) :
    KeepsLocks L (writeChunk (nfpCppOps cpp) area pos len x) := by
  simp only [NfpUdpEcho.writeChunk]
  set tmpbuf := x.tmpbuf.copy 0 x.buf (x.buff.toNat + pos.toNat) len.toNat
  have huser := nfpCppAreaWrite_user cpp area pos.toUInt64 tmpbuf len x.world
  have h' : HoldsBar L area (nfpCppAreaWrite cpp area pos.toUInt64 tmpbuf len x.world).2 := by
    rw [HoldsBar, huser]
    exact h
  split
  · exact h'.release
  · exact h'

/-- Opening a segment leaks, and ends the transfer, or leaves the area with its BAR. -/
theorem openSegment_locks (hlocked : x.world.user.locked = L) :
    (¬SegmentLeaks cpp cppId x.nfpOffset x.curlen x.world ∧
      KeepsLocks L (openSegment (nfpCppOps cpp) cppId x)) ∨
    (SegmentLeaks cpp cppId x.nfpOffset x.curlen x.world ∧
      ∃ r, openSegment (nfpCppOps cpp) cppId x = .inr r ∧ r.world.user.locked ≠ L) := by
  rcases nfpCppAreaAlloc_cases cpp cppId x.nfpOffset x.curlen x.world with
    ⟨hnone, hres, huser⟩ | ⟨b, hb, hfree, hlocked', hout⟩
  · -- refused before a BAR was taken
    refine .inl ⟨?_, ?_⟩
    · rintro ⟨b, hb, -⟩
      rw [hnone] at hb
      cases hb
    · have hopen : openSegment (nfpCppOps cpp) cppId x = _ := openSegment_none (Prod.ext hres rfl)
      rw [hopen]
      exact (congrArg NfpPcieUser.locked huser).trans hlocked
  -- one BAR more is locked now: either the area keeps it, or it is lost
  rw [hlocked] at hfree hlocked'
  have hne : insert b.bar L ≠ L := fun h => hfree (h ▸ Finset.mem_insert_self b.bar L)
  set w := (nfpCppAreaAlloc cpp cppId x.nfpOffset x.curlen x.world).2
  rcases hout with ⟨hrefused, hres⟩ | ⟨hok, area, hres, hbar, hiomem⟩
  · have hopen : openSegment (nfpCppOps cpp) cppId x = _ :=
      openSegment_none (s := w) (Prod.ext hres rfl)
    exact .inr ⟨⟨b, hb, .inl hrefused⟩, _, hopen, fun h => hne (hlocked'.symm.trans h)⟩
  · obtain ⟨hw, hbar', hneg⟩ := nfpCppAreaAcquire_cases (w := w) hbar
    by_cases hio : (x.world.user.bar b.bar).iomem = 0
    · -- the area is there, but its BAR is not mapped: `acquire` fails
      have hopen : openSegment (nfpCppOps cpp) cppId x = _ :=
        openSegment_refused (s := w) (Prod.ext hres rfl) (hneg.mpr (hiomem.trans hio))
      exact .inr ⟨⟨b, hb, .inr hio⟩, _, hopen, fun h => hne (hlocked'.symm.trans h)⟩
    · refine .inl ⟨?_, ?_⟩
      · rintro ⟨b', hb', hleak⟩
        obtain rfl := Option.some.inj (hb.symm.trans hb')
        exact hleak.elim hok hio
      · have hacq := not_lt.mp fun h => hio (hiomem.symm.trans (hneg.mp h))
        have hopen : openSegment (nfpCppOps cpp) cppId x = _ :=
          openSegment_acquired (s := w) (Prod.ext hres rfl) hacq
        rw [hopen]
        exact ⟨b.bar, hfree, hbar', hlocked'⟩

/-- The invariant of the loops. -/
def LockInv (L : Finset (Fin nfpBarMax)) (x : Transfer (NfpWorld δ) NfpCppArea) : Prop :=
  LocksAt L x.world x.pc

/-- The access keeps the BAR of its area, or gives it back. -/
def AccessKeeps (L : Finset (Fin nfpBarMax))
    (access : ChunkAccess (NfpWorld δ) NfpCppArea) : Prop :=
  ∀ area pos len x, HoldsBar L area x.world → KeepsLocks L (access area pos len x)

/-- **One iteration.** -/
theorem LockInv.step (cpp : NfpCpp δ) (cppId : UInt32) (haccess : AccessKeeps L access)
    (h : LockInv L x) :
    (¬LeaksAt cpp cppId x ∧ KeepsLocks L (transferBody (nfpCppOps cpp) access cppId x)) ∨
    (LeaksAt cpp cppId x ∧ ∃ r, transferBody (nfpCppOps cpp) access cppId x = .inr r ∧
      r.world.user.locked ≠ L) := by
  unfold LeaksAt
  unfold LockInv at h
  rcases transferBody_cases (nfpCppOps cpp) access cppId x with ⟨hpc, hcount, hx⟩ |
    ⟨hpc, hzero, hx⟩ | ⟨area, pos, hpc, -, hx⟩ | ⟨area, pos, hpc, -, hx⟩
  all_goals
    rw [hpc] at h
    rw [hx, hpc]
  · have hleft : x.count > 0 := UInt64.lt_iff_toNat_lt.mpr hcount
    rcases openSegment_locks h with ⟨hgood, hkeeps⟩ | ⟨hleak, hr⟩
    · exact .inl ⟨fun h => hgood h.2.2, hkeeps⟩
    · exact .inr ⟨⟨rfl, hleft, hleak⟩, hr⟩
  · refine .inl ⟨fun hleak => ?_, h⟩
    exact absurd hzero (UInt64.lt_iff_toNat_lt.mp hleak.2.1).ne'
  -- only the opening of a segment leaks
  · exact .inl ⟨fun hleak => (by cases hleak.1), haccess area pos _ x h⟩
  · exact .inl ⟨fun hleak => (by cases hleak.1), HoldsBar.endSegment h pos⟩

/-- **A transfer.** It leaves the BARs locked that it found locked exactly when it comes to no
segment that leaks. -/
theorem transfer_locked_iff (haccess : AccessKeeps L access) (hentry : LockInv L x)
    (h : Loop.Returns (transferBody (nfpCppOps cpp) access cppId) x r) :
    r.world.user.locked = L ↔
      ∀ y, Loop.Visits (transferBody (nfpCppOps cpp) access cppId) x y → ¬LeaksAt cpp cppId y := by
  refine h.visits_iff (LockInv L) (LeaksAt cpp cppId) (fun r => r.world.user.locked = L) ?_ ?_
    hentry
  · intro y z hI hz
    rcases hI.step cpp cppId haccess with ⟨hgood, hkeeps⟩ | ⟨-, r, hr, -⟩
    · rw [hz] at hkeeps
      exact ⟨hkeeps, hgood⟩
    · cases hz.symm.trans hr
  · intro y q hI hq
    rcases hI.step cpp cppId haccess with ⟨hgood, hkeeps⟩ | ⟨hleak, r, hr, hne⟩
    · rw [hq] at hkeeps
      exact iff_of_true hkeeps hgood
    · obtain rfl := Sum.inr.inj (hq.symm.trans hr)
      exact iff_of_false hne (not_not.mpr hleak)

end Transfers

/-! ### Commands

The BAR of a granted area is locked until the area is released, and a transfer leaves the BARs as it
found them. -/

/-- The invariant: every granted area holds a locked BAR. -/
structure DevInv (s : DevState δ) : Prop where
  vma : ∀ a ∈ s.list, a.vma = 0
  holds : ∀ a ∈ s.list, ∃ i ∈ s.locked, a.area.priv.bar = some i

section Commands

variable {cpp} {s s' : DevState δ} {cmd : DevCmd} {interface : UInt16} {areaReq : AreaRequest}
  {malloc : Bool}

/-- A `pread`, whatever the buffers hold. -/
theorem read_locked_iff {count offset : UInt64} {buf tmpbuf : Mem} {w : NfpWorld δ}
    {r : TransferResult (NfpWorld δ)}
    (h : Loop.Returns (devRead (nfpCppOps cpp) offset) (readEntry count offset buf tmpbuf w) r) :
    r.world.user.locked = w.user.locked ↔
      ∀ y, Loop.Visits (devRead (nfpCppOps cpp) offset) (readEntry count offset buf tmpbuf w) y →
        ¬LeaksAt cpp (offsetCppId offset) y := by
  have hentry : LockInv w.user.locked
      (readEntry count offset buf tmpbuf w : Transfer (NfpWorld δ) NfpCppArea) := rfl
  exact transfer_locked_iff (fun _ pos len _ h => h.readChunk pos len) hentry h

/-- A `pwrite`, whatever the buffers hold. -/
theorem write_locked_iff {count offset : UInt64} {err : ℤ} {buf tmpbuf : Mem} {w : NfpWorld δ}
    {r : TransferResult (NfpWorld δ)}
    (h : Loop.Returns (devWrite (nfpCppOps cpp) offset)
      (writeEntry count offset err buf tmpbuf w) r) :
    r.world.user.locked = w.user.locked ↔
      ∀ y, Loop.Visits (devWrite (nfpCppOps cpp) offset)
          (writeEntry count offset err buf tmpbuf w) y →
        ¬LeaksAt cpp (offsetCppId offset) y := by
  have hentry : LockInv w.user.locked
      (writeEntry count offset err buf tmpbuf w : Transfer (NfpWorld δ) NfpCppArea) := rfl
  exact transfer_locked_iff (fun _ pos len _ h => h.writeChunk pos len) hentry h

/-- A request is refused before a BAR is taken, leaks one, or is granted one. -/
theorem devAreaRequest_cases (cpp : NfpCpp δ) (interface : UInt16) (areaReq : AreaRequest)
    (malloc : Bool) (s : DevState δ) :
    (NoLeak cpp s (.areaRequest interface areaReq malloc) ∧
      (devAreaRequest cpp interface areaReq malloc s).1 < 0 ∧
      (devAreaRequest cpp interface areaReq malloc s).2.list = s.list ∧
      (devAreaRequest cpp interface areaReq malloc s).2.locked = s.locked) ∨
    (¬NoLeak cpp s (.areaRequest interface areaReq malloc) ∧
      (devAreaRequest cpp interface areaReq malloc s).1 < 0 ∧
      (devAreaRequest cpp interface areaReq malloc s).2.locked ≠ s.locked) ∨
    (NoLeak cpp s (.areaRequest interface areaReq malloc) ∧
      (devAreaRequest cpp interface areaReq malloc s).1 = 0 ∧
      ∃ a i, (devAreaRequest cpp interface areaReq malloc s).2.list = s.list ++ [a] ∧ a.vma = 0 ∧
        a.area.priv.bar = some i ∧ i ∉ s.locked ∧
        (devAreaRequest cpp interface areaReq malloc s).2.locked = insert i s.locked) := by
  simp only [devAreaRequest, NoLeak]
  rcases doCppAreaRequest_cases malloc (requestArea cpp) interface areaReq s.list s.world with
    ⟨o, ho, heq⟩ | ⟨hnone, hneg, hsame⟩
  · rw [heq, ho]
    cases malloc with
    | false => exact .inl ⟨by simp, show -Errno.ENOMEM < 0 by decide, rfl, rfl⟩
    | true =>
    -- the table has room, so the library decides
    unfold nfpDevCppAreaAlloc requestArea AllocLeaks
    simp only [if_true, Option.isSome_some, forall_const]
    rcases nfpCppAreaAlloc_cases cpp areaReq.cppId areaReq.cppAddr areaReq.size s.world with
      ⟨hnone, hres, huser⟩ | ⟨b, hb, hfree, hlocked, hout⟩
    · cases halloc : nfpCppAreaAlloc cpp areaReq.cppId areaReq.cppAddr areaReq.size s.world with
      | mk area w =>
        rw [halloc] at hres huser
        obtain rfl : area = none := hres
        refine .inl ⟨by simp [hnone], show -Errno.EINVAL < 0 by decide, rfl, ?_⟩
        exact congrArg NfpPcieUser.locked huser
    · have hne : insert b.bar s.locked ≠ s.locked :=
        fun h => hfree (h ▸ Finset.mem_insert_self b.bar s.locked : b.bar ∈ s.locked)
      cases halloc : nfpCppAreaAlloc cpp areaReq.cppId areaReq.cppAddr areaReq.size s.world with
      | mk area w =>
      rw [halloc] at hlocked hout
      rcases hout with ⟨hrefused, hres⟩ | ⟨hok, area', hres, hbar, -⟩
      · -- the BAR refuses the window and stays locked
        obtain rfl : area = none := hres
        refine .inr (.inl ⟨not_not.mpr ⟨b, hb, hrefused⟩, show -Errno.EINVAL < 0 by decide, ?_⟩)
        exact fun h => hne (hlocked.symm.trans h)
      · obtain rfl : area = some area' := hres
        refine .inr (.inr ⟨?_, rfl, _, b.bar, rfl, rfl, hbar, hfree, hlocked⟩)
        rintro ⟨b', hb', hrefused⟩
        obtain rfl := Option.some.inj (hb.symm.trans hb')
        exact hok hrefused
  · -- no offset for it
    refine .inl ⟨?_, hneg, congrArg Prod.fst hsame, ?_⟩
    · rw [hnone]
      simp
    · exact congrArg (fun p => p.2.user.locked) hsame

/-- A release finds no area of the offset, or drops one and leaves its BAR locked. -/
theorem devAreaRelease_cases (cpp : NfpCpp δ) (areaReq : AreaRequest) (hI : DevInv s) :
    (NoLeak cpp s (.areaRelease areaReq) ∧ (devAreaRelease areaReq s).1 ≠ 0 ∧
      (devAreaRelease areaReq s).2 = s) ∨
    (¬NoLeak cpp s (.areaRelease areaReq) ∧ (devAreaRelease areaReq s).1 = 0 ∧
      (devAreaRelease areaReq s).2.locked = s.locked) := by
  simp only [devAreaRelease, NoLeak]
  rcases doCppAreaRelease_cases nfpCppAreaFree areaReq s.list s.world hI.vma with
    ⟨pre, a, post, hlist, ha, -, heq⟩ | ⟨hnone, heq⟩
  · rw [heq]
    refine .inr ⟨fun hall => hall a ?_ ha, rfl, rfl⟩
    rw [hlist]
    exact List.mem_append_right _ List.mem_cons_self
  · rw [heq]
    exact .inl ⟨hnone, show -Errno.ENOENT ≠ 0 by decide, rfl⟩

/-- **Invariant preservation** by a command that does not leak. -/
theorem DevInv.step (hI : DevInv s) (hstep : DevStep cpp s cmd s') (hok : NoLeak cpp s cmd) :
    DevInv s' ∧ BarsConserved cpp ⟨s, cmd, s'⟩ := by
  cases hstep with
  | read hr =>
    have hlocked := (read_locked_iff hr).mpr hok
    refine ⟨⟨hI.vma, fun a ha => ?_⟩, hlocked⟩
    rw [DevState.locked, hlocked]
    exact hI.holds a ha
  | write hr =>
    have hlocked := (write_locked_iff hr).mpr hok
    refine ⟨⟨hI.vma, fun a ha => ?_⟩, hlocked⟩
    rw [DevState.locked, hlocked]
    exact hI.holds a ha
  | @areaRequest interface areaReq malloc =>
    rcases devAreaRequest_cases cpp interface areaReq malloc s with
      ⟨-, hneg, hlist, hlocked⟩ | ⟨hleak, -⟩ | ⟨-, hzero, a, i, hlist, hvma, hbar, hfree, hlocked⟩
    · refine ⟨⟨by rw [hlist]; exact hI.vma, by rw [hlist, hlocked]; exact hI.holds⟩, ?_⟩
      exact (if_neg hneg.ne).mpr hlocked
    · exact absurd hok hleak
    · -- the area granted comes to the others, with a BAR that was free
      refine ⟨⟨?_, ?_⟩, (if_pos hzero).mpr ⟨a, i, hlist, hbar, hfree, hlocked⟩⟩
      · rw [hlist]
        exact List.forall_mem_append.mpr ⟨hI.vma, List.forall_mem_singleton.mpr hvma⟩
      · rw [hlist, hlocked]
        refine List.forall_mem_append.mpr ⟨fun b hb => ?_, List.forall_mem_singleton.mpr ?_⟩
        · obtain ⟨j, hj, hbj⟩ := hI.holds b hb
          exact ⟨j, Finset.mem_insert_of_mem hj, hbj⟩
        · exact ⟨i, Finset.mem_insert_self i _, hbar⟩
  | @areaRelease areaReq =>
    rcases devAreaRelease_cases cpp areaReq hI with ⟨-, hne, hsame⟩ | ⟨hleak, -⟩
    · rw [hsame]
      exact ⟨hI, (if_neg hne).mpr rfl⟩
    · exact absurd hok hleak

/-- A command that leaks breaks the account. -/
theorem DevInv.noLeak_of_conserved (hI : DevInv s) (hstep : DevStep cpp s cmd s')
    (h : BarsConserved cpp ⟨s, cmd, s'⟩) : NoLeak cpp s cmd := by
  cases hstep with
  | read hr => exact (read_locked_iff hr).mp h
  | write hr => exact (write_locked_iff hr).mp h
  | @areaRequest interface areaReq malloc =>
    rcases devAreaRequest_cases cpp interface areaReq malloc s with
      ⟨hok, -⟩ | ⟨-, hneg, hlocked⟩ | ⟨hok, -⟩
    · exact hok
    · exact absurd ((if_neg hneg.ne).mp h) hlocked
    · exact hok
  | @areaRelease areaReq =>
    rcases devAreaRelease_cases cpp areaReq hI with ⟨hok, -⟩ | ⟨-, hzero, hlocked⟩
    · exact hok
    · -- the BAR of the area released is still locked
      obtain ⟨_, _, _, i, -, -, -, hi, herase⟩ := (if_pos hzero).mp h
      have hmem : i ∈ s.locked.erase i := herase ▸ hlocked.symm ▸ hi
      exact absurd hmem (Finset.notMem_erase i _)

end Commands

/-- **When the device server accounts for its BARs.** In a sequence of commands, from any
occupancy, every command leaves locked the BARs before it, plus the one of the area it
granted, minus the one of the area it released, exactly when no command leaks. -/
theorem barsConserved_iff (cpp : NfpCpp δ) {h : List (Transition (DevState δ) DevCmd)}
    {s : DevState δ} (he : Exec (devSystem cpp) h s) :
    (∀ t ∈ h, BarsConserved cpp t) ↔ ∀ t ∈ h, NoLeak cpp t.src t.label := by
  have hinit : ∀ s, (devSystem cpp).init s → DevInv s := by
    intro s hs
    have hnil : s.list = [] := hs
    exact ⟨by simp [hnil], by simp [hnil]⟩
  refine he.exact hinit ?_ ?_ ?_
  · exact fun s cmd s' hI hstep hok => (hI.step hstep hok).1
  · exact fun s cmd s' hI hstep hok => (hI.step hstep hok).2
  · exact fun s cmd s' hI hstep hok => hI.noLeak_of_conserved hstep hok

/-! ### An idle device with BARs of two mebibytes -/

def idleCpp : NfpCpp Unit where
  imbCatTable _ := 0
  addrEncode address _ _ _ _ _ _ := (0, address)
  bus :=
    { load32 := fun _ dev => (0, dev)
      load64 := fun _ dev => (0, dev)
      store32 := fun _ _ dev => dev
      store64 := fun _ _ dev => dev }
  calloc _ := true

def idleState : DevState Unit where
  list := []
  world :=
    { user := nfpEnableBars ⟨fun _ => ⟨0, 0, 0, 0, 0, false, 0⟩, 24, 0x10000000⟩
      dev := ()
      callocs := 0 }

/-- One page granted. -/
theorem barsConserved_iff_one : ∃ h s, Exec (devSystem idleCpp) h s ∧ s.locked = {3} ∧
    ((∀ t ∈ h, BarsConserved idleCpp t) ↔ ∀ t ∈ h, NoLeak idleCpp t.src t.label) := by
  have hstep : (devSystem idleCpp).step idleState
      (.areaRequest 0 ⟨wildcard, 0, 0, pageSize⟩ true)
      (devAreaRequest idleCpp 0 ⟨wildcard, 0, 0, pageSize⟩ true idleState).2 := .areaRequest
  have he := (Exec.init (show (devSystem idleCpp).init idleState from rfl)).snoc hstep
  exact ⟨_, _, he, by decide, barsConserved_iff idleCpp he⟩

/-- A request for no bytes at address zero is refused by the BAR it has taken. -/
theorem barsConserved_request_leaks : ¬ ∀ h s, Exec (devSystem idleCpp) h s →
    ∀ t ∈ h, BarsConserved idleCpp t := by
  intro hall
  have hstep : (devSystem idleCpp).step idleState (.areaRequest 0 ⟨0, 0, 0, 0⟩ true)
      (devAreaRequest idleCpp 0 ⟨0, 0, 0, 0⟩ true idleState).2 := .areaRequest
  have he := (Exec.init (show (devSystem idleCpp).init idleState from rfl)).snoc hstep
  have hcons := hall _ _ he _ (List.mem_append_right _ (List.mem_singleton.mpr rfl))
  have hneg : (devAreaRequest idleCpp 0 ⟨0, 0, 0, 0⟩ true idleState).1 ≠ 0 := by decide
  have hlocked : (devAreaRequest idleCpp 0 ⟨0, 0, 0, 0⟩ true idleState).2.locked =
      idleState.locked := by
    simpa only [BarsConserved, if_neg hneg] using hcons
  exact absurd hlocked (by decide)

end NfpUdpEcho
