import NfpUdpEcho.Framework.Exchange
import NfpUdpEcho.Server.Commands
import NfpUdpEcho.Server.TransferSplit

/-!
# The read loop is exact

`nfp_cpp_dev_read` run over a library that gives access to the memory of a device, but whose
operations may fail in any pattern. Four cursors have to stay in step (`ReadExactInv`); then
the reply is a negative status alone, because an operation of the run has failed, or the count
with exactly the bytes of the device (`nfpCppDevRead_exact`).

An iteration stores to the indices of its chunk and to no others (`devRead_stores`), and the
invariant puts a chunk below the count. So what is behind the count in `buf` is, in every state
that the loops visit, what `malloc` left there.

The areas are followed by a record of what is done with them, each under the number it was
allocated as. An area that is acquired is released and then freed, once, on every path out of
its segment.

* *The invariant* (`ReadExactInv`): `totlen` and `count` add up to the count of the request, `buff`
  and `totlen` are the same number, and `nfp_offset` follows them on the device. `openSegment`,
  `readChunk` and `endSegment` each keep it or end the read, and `transferLeft` gets smaller.
* *The run* (`devRead_exact`): `Loop.exists_returns_visits` turns a step that keeps the invariant
  and decreases a measure into a loop that ends. The step is told that its state is one that the
  loops visit, so that an error is traced to the operation of this run which has failed.
* *The areas* (`devRead_areas`): `OpenAt` is a second invariant, of the record alone; it needs
  nothing of the first.
* *The reply* (`readTail_speaks`): what follows the loops writes one word and, if the read has
  succeeded, the bytes in `buf`.
-/

namespace NfpUdpEcho

open Duplex ByteMem LittleEndian

variable {σ α : Type}

/-! ### The device behind the library -/

/-- The library gives access to a device: `place` is the target and address of an area, and
`mem` the memory of each target. Any access may fail, and only a write changes the memory. -/
structure CppOps.Accesses (ops : CppOps σ α) (place : α → UInt32 × UInt64)
    (mem : σ → UInt32 → Mem) : Prop where
  alloc : ∀ dest address size s area s',
    ops.areaAlloc dest address size s = (some area, s') → place area = (dest, address)
  alloc_mem : ∀ dest address size s, mem (ops.areaAlloc dest address size s).2 = mem s
  acquire : ∀ area s, place (ops.areaAcquire area s).2.1 = place area
  acquire_mem : ∀ area s, mem (ops.areaAcquire area s).2.2 = mem s
  read : ∀ area offset kernelVaddr length s,
    0 ≤ (ops.areaRead area offset kernelVaddr length s).1 → ∀ i < length.toNat,
      (ops.areaRead area offset kernelVaddr length s).2.1 i =
        mem s (place area).1 ((place area).2.toNat + offset.toNat + i)
  read_mem : ∀ area offset kernelVaddr length s,
    mem (ops.areaRead area offset kernelVaddr length s).2.2 = mem s
  release_mem : ∀ area s, mem (ops.areaRelease area s).2 = mem s
  free_mem : ∀ area s, mem (ops.areaFree area s) = mem s

section Exact

variable {ops : CppOps σ α} {place : α → UInt32 × UInt64} {mem : σ → UInt32 → Mem}
  {count offset : UInt64} {buf tmpbuf : Mem} {x entry : Transfer σ α} {area : α} {pos : UInt32}
  {s : σ}

/-- The bytes of a transfer on the device. -/
def deviceAt (mem : UInt32 → Mem) (offset : UInt64) : Mem := fun i =>
  mem (offsetCppId offset) ((offsetAddress offset).toNat + i)

/-- The first `n` bytes of the buffer are those of the device. -/
def Filled (device buf : Mem) (n : ℕ) : Prop := ∀ i < n, buf i = device i

/-- A chunk that is copied behind what is filled. -/
theorem Filled.copy {device buf tmpbuf : Mem} {n len : ℕ} (h : Filled device buf n)
    (htmp : ∀ i < len, tmpbuf i = device (n + i)) :
    Filled device (buf.copy n tmpbuf 0 len) (n + len) := by
  intro i hi
  -- below the chunk, or in it
  by_cases hlt : i < n
  · rw [Mem.copy_of_not buf tmpbuf (.inl hlt)]
    exact h i hlt
  · obtain ⟨k, rfl⟩ := Nat.exists_eq_add_of_le (not_lt.mp hlt)
    rw [Mem.copy_of_lt buf tmpbuf (by omega), Nat.zero_add]
    exact htmp k (by omega)

/-- At the head of the inner loop. -/
structure ChunkExact (place : α → UInt32 × UInt64) (device : Mem) (offset : UInt64)
    (x : Transfer σ α) (area : α) (pos : UInt32) : Prop where
  count_pos : 0 < x.count.toNat
  err : 0 ≤ x.err
  pos_le : pos.toNat ≤ x.curlen.toNat
  place : place area = (offsetCppId offset, x.nfpOffset)
  filled : Filled device x.buf (x.totlen.toNat + pos.toNat)

/-- What is known at the head of either loop. -/
def ExactAt (place : α → UInt32 × UInt64) (device : Mem) (offset : UInt64) (x : Transfer σ α) :
    TransferPc α → Prop
  | .segment => Filled device x.buf x.totlen.toNat
  | .chunk area pos => ChunkExact place device offset x area pos

/-- The cursors of a read: what is done and what is left are the count, the buffer and the
device are followed at the same distance, and a segment is within what is left. -/
structure ReadExactInv (place : α → UInt32 × UInt64) (mem : σ → UInt32 → Mem)
    (memory : UInt32 → Mem) (count offset : UInt64) (x : Transfer σ α) : Prop where
  total : x.totlen.toNat + x.count.toNat = count.toNat
  buff : x.buff = x.totlen
  nfpOffset : x.nfpOffset.toNat = (offsetAddress offset).toNat + x.totlen.toNat
  curlen : 0 < x.count.toNat →
    0 < x.curlen.toNat ∧ x.curlen.toNat ≤ x.count.toNat ∧ x.curlen.toNat ≤ 2 ^ 20
  same_mem : mem x.world = memory
  at_pc : ExactAt place (deviceAt memory offset) offset x x.pc

/-- A read ends with the bytes of the device, or with an error because an operation of the run
from `entry` has failed. -/
structure ReadExactPost (ops : CppOps σ α) (entry : Transfer σ α) (mem : σ → UInt32 → Mem)
    (memory : UInt32 → Mem) (count offset : UInt64) (r : TransferResult σ) : Prop where
  status : match r.status with
    | .ok totlen => totlen = count ∧ Filled (deviceAt memory offset) r.buf count.toNat
    | .error err => IsInt err ∧ err < 0 ∧ ¬NoReadFails ops offset entry
  same_mem : mem r.world = memory

/-- Every iteration of a transfer decreases it. -/
def transferLeft (x : Transfer σ α) : ℕ :=
  match x.pc with
  | .segment => 3 * x.count.toNat + 2
  | .chunk _ pos => 3 * (x.count.toNat - pos.toNat) + if pos.toNat = 0 then 1 else 3

/-- To open a segment is progress. -/
theorem transferLeft_open {x y : Transfer σ α} {area : α} (hpc : x.pc = .segment)
    (hpc' : y.pc = .chunk area 0) (hcount : y.count = x.count) :
    transferLeft y < transferLeft x := by
  simp only [transferLeft, hpc, hpc', hcount]
  simp

/-- So is a chunk that is not empty. -/
theorem transferLeft_chunk {x y : Transfer σ α} {area area' : α} {pos pos' : UInt32}
    (hpc : x.pc = .chunk area pos) (hpc' : y.pc = .chunk area' pos') (hcount : y.count = x.count)
    (hlt : pos.toNat < pos'.toNat) (hle : pos'.toNat ≤ x.count.toNat) :
    transferLeft y < transferLeft x := by
  simp only [transferLeft, hpc, hpc', hcount]
  rw [if_neg (show ¬pos'.toNat = 0 by omega)]
  split
  · omega
  · omega

/-- And so is the end of a segment that was not empty. -/
theorem transferLeft_end {x y : Transfer σ α} {area : α} {pos : UInt32}
    (hpc : x.pc = .chunk area pos) (hpc' : y.pc = .segment)
    (hcount : y.count.toNat = x.count.toNat - pos.toNat) (hpos : 0 < pos.toNat) :
    transferLeft y < transferLeft x := by
  simp only [transferLeft, hpc, hpc', hcount]
  rw [if_neg (by omega)]
  omega

/-- An iteration keeps the cursors in step and makes progress, or ends the read. -/
def ReadExactStep (ops : CppOps σ α) (entry : Transfer σ α) (place : α → UInt32 × UInt64)
    (mem : σ → UInt32 → Mem) (memory : UInt32 → Mem) (count offset : UInt64) (x : Transfer σ α) :
    Transfer σ α ⊕ TransferResult σ → Prop
  | .inl y => ReadExactInv place mem memory count offset y ∧ transferLeft y < transferLeft x
  | .inr r => ReadExactPost ops entry mem memory count offset r

variable {memory : UInt32 → Mem} {dev : CppDev σ α}

/-- A segment is opened for what is left, or the read ends with an error. -/
theorem ReadExactInv.openSegment (hI : ReadExactInv place mem memory count offset x)
    (h : ops.Accesses place mem) (hvisits : Loop.Visits (devRead ops offset) entry x)
    (hpc : x.pc = .segment) (hcount : 0 < x.count.toNat) :
    ReadExactStep ops entry place mem memory count offset x
      (openSegment ops (offsetCppId offset) x) := by
  have hat := hI.at_pc
  rw [hpc] at hat
  have hmem := h.alloc_mem (offsetCppId offset) x.nfpOffset x.curlen x.world
  rcases halloc : ops.areaAlloc (offsetCppId offset) x.nfpOffset x.curlen x.world with
    ⟨_ | area, s⟩
  · -- nothing was allocated: `err_alloc`, with nothing to close
    rw [openSegment_none halloc]
    rw [halloc] at hmem
    refine ⟨⟨ isInt_EIO.1, isInt_EIO.2, fun hok => ?_⟩, hmem.trans hI.same_mem⟩
    obtain ⟨_, _, halloc', -⟩ := iterationOk_segment (hok x hvisits) hpc hcount
    cases halloc.symm.trans halloc'
  · rw [halloc] at hmem
    have hacqmem := (h.acquire_mem area s).trans (hmem.trans hI.same_mem)
    rcases lt_or_ge (ops.areaAcquire area s).1 0 with hacq | hacq
    · -- the area is freed without being released
      rw [openSegment_refused halloc hacq]
      refine ⟨⟨ isInt_EIO.1, isInt_EIO.2, fun hok => ?_⟩, (h.free_mem _ _).trans hacqmem⟩
      obtain ⟨_, _, halloc', hacq'⟩ := iterationOk_segment (hok x hvisits) hpc hcount
      obtain ⟨rfl, rfl⟩ : area = _ ∧ s = _ := by simpa using halloc.symm.trans halloc'
      exact absurd hacq' (not_le.mpr hacq)
    · -- the inner loop is entered at `pos = 0`
      rw [openSegment_acquired halloc hacq]
      refine ⟨⟨hI.total, hI.buff, hI.nfpOffset, hI.curlen, hacqmem, hcount, hacq,
        Nat.zero_le _, ?_, hat⟩, ?_⟩
      · exact (h.acquire area s).trans (h.alloc _ _ _ _ _ _ halloc)
      · exact transferLeft_open hpc rfl rfl

/-- The cursors at the end of a segment move by its length. -/
theorem endSegment_cursors (htotal : x.totlen.toNat + x.count.toNat = count.toNat)
    (hoff : x.nfpOffset.toNat = (offsetAddress offset).toNat + x.totlen.toNat)
    (hwrap : (offsetAddress offset).toNat + count.toNat < 2 ^ 64)
    (hle : pos.toNat ≤ x.count.toNat) :
    (x.totlen + pos.toUInt64).toNat = x.totlen.toNat + pos.toNat ∧
      (x.count - pos.toUInt64).toNat = x.count.toNat - pos.toNat ∧
      (x.nfpOffset + pos.toUInt64).toNat = x.nfpOffset.toNat + pos.toNat ∧
      (0 < (x.count - pos.toUInt64).toNat →
        let curlen := if x.count - pos.toUInt64 > memioBoundary then memioBoundary
          else x.count - pos.toUInt64
        0 < curlen.toNat ∧ curlen.toNat ≤ (x.count - pos.toUInt64).toNat ∧
          curlen.toNat ≤ 2 ^ 20) := by
  have hle' : pos.toUInt64 ≤ x.count := by
    rw [UInt64.le_iff_toNat_le, UInt32.toNat_toUInt64]
    exact hle
  -- No sum wraps: each is at most the end of the range, which is below `2 ^ 64`.
  refine ⟨?_, ?_, ?_, fun hleft => ?_⟩
  · rw [UInt64.toNat_add, UInt32.toNat_toUInt64, Nat.mod_eq_of_lt (by omega)]
  · rw [UInt64.toNat_sub_of_le _ _ hle', UInt32.toNat_toUInt64]
  · rw [UInt64.toNat_add, UInt32.toNat_toUInt64, Nat.mod_eq_of_lt (by omega)]
  · have hboundary := memioBoundary_toNat
    dsimp only
    split
    next hgt =>
      rw [gt_iff_lt, UInt64.lt_iff_toNat_lt] at hgt
      omega
    next hgt =>
      rw [gt_iff_lt, UInt64.lt_iff_toNat_lt] at hgt
      omega

/-- A segment that is complete is closed, and the cursors move on by its length. -/
theorem ReadExactInv.endSegment (hI : ReadExactInv place mem memory count offset x)
    (h : ops.Accesses place mem) (hwrap : (offsetAddress offset).toNat + count.toNat < 2 ^ 64)
    (hpc : x.pc = .chunk area pos) (hge : x.curlen.toNat ≤ pos.toNat) :
    ReadExactStep ops entry place mem memory count offset x (endSegment ops area pos x) := by
  have hat := hI.at_pc
  rw [hpc] at hat
  obtain ⟨hcount, herr, hle, -, hfilled⟩ := hat
  obtain ⟨hpos, hcur, -⟩ := hI.curlen hcount
  -- A segment is left only when `pos` has reached its length.
  have hend : pos.toNat = x.curlen.toNat := Nat.le_antisymm hle hge
  obtain ⟨htotlen, hcount', hoff, hcurlen⟩ := endSegment_cursors hI.total hI.nfpOffset hwrap
    (hend ▸ hcur)
  rw [endSegment_done herr]
  refine ⟨⟨?_, ?_, ?_, hcurlen, ?_, ?_⟩, ?_⟩
  · have htotal := hI.total
    dsimp only
    rw [htotlen, hcount']
    omega
  · dsimp only
    rw [hI.buff]
  · dsimp only
    rw [hoff, htotlen, hI.nfpOffset, Nat.add_assoc]
  · dsimp only
    rw [h.free_mem, h.release_mem, hI.same_mem]
  · show Filled _ _ _
    rw [htotlen]
    exact hfilled
  · exact transferLeft_end hpc rfl hcount' (by omega)

/-- A chunk is read into `tmpbuf` and copied, or the read ends with an error. -/
theorem ReadExactInv.readChunk (hI : ReadExactInv place mem memory count offset x)
    (h : dev.ops.Accesses place mem) (hvisits : Loop.Visits (devRead dev.ops offset) entry x)
    (hpc : x.pc = .chunk area pos) (hlt : pos.toNat < x.curlen.toNat) :
    ReadExactStep dev.ops entry place mem memory count offset x
      (readChunk dev.ops area pos (chunkLen x.curlen pos) x) := by
  have hat := hI.at_pc
  rw [hpc] at hat
  obtain ⟨hleft, herr, hle, hplace, hfilled⟩ := hat
  obtain ⟨-, hcur, hboundary⟩ := hI.curlen hleft
  obtain ⟨hlen, hsum, hfits⟩ := chunkLen_spec hlt (hboundary.trans_lt (by decide))
  have htotal := hI.total
  have hoff := hI.nfpOffset
  have hmem := h.read_mem area pos.toUInt64 x.tmpbuf (chunkLen x.curlen pos) x.world
  obtain ⟨hlo, hhi⟩ :=
    dev.read_int area pos.toUInt64 x.tmpbuf (chunkLen x.curlen pos) x.world
  rcases lt_or_ge (dev.ops.areaRead area pos.toUInt64 x.tmpbuf (chunkLen x.curlen pos)
      x.world).1 0 with hread | hread
  · -- the area is closed, and the error is the status
    rw [readChunk_failed hread, endSegment_failed hread]
    refine ⟨⟨⟨hlo, hhi⟩, hread, fun hok => ?_⟩, ?_⟩
    · have hread' := of_decide_eq_true (iterationOk_chunk (hok x hvisits) hpc hlt)
      exact absurd hread' (not_le.mpr hread)
    · dsimp only
      rw [h.free_mem, h.release_mem, hmem, hI.same_mem]
  · rw [readChunk_done hread]
    refine ⟨⟨hI.total, hI.buff, hI.nfpOffset, hI.curlen, hmem.trans hI.same_mem, hleft, hread,
      ?_, hplace, ?_⟩, ?_⟩
    · rw [hsum]
      exact hfits
    · -- what is filled grows by the chunk, which lies in the device just behind it
      dsimp only
      rw [hsum, hI.buff, ← Nat.add_assoc]
      refine hfilled.copy fun i hi => ?_
      rw [h.read area pos.toUInt64 x.tmpbuf _ x.world hread i hi, hplace, hI.same_mem, hoff,
        UInt32.toNat_toUInt64]
      show memory _ _ = memory _ _
      congr 1
      omega
    · exact transferLeft_chunk hpc rfl rfl (by omega) (by omega)

/-- **One iteration of a read.** -/
theorem ReadExactInv.step (hI : ReadExactInv place mem memory count offset x)
    (h : dev.ops.Accesses place mem) (hcount : count.toNat < 2 ^ 63)
    (hvisits : Loop.Visits (devRead dev.ops offset) entry x) :
    ReadExactStep dev.ops entry place mem memory count offset x (devRead dev.ops offset x) := by
  have hlt := offsetAddress_lt offset
  have hat := hI.at_pc
  unfold devRead
  rcases transferBody_cases dev.ops (NfpUdpEcho.readChunk dev.ops) (offsetCppId offset) x with
    ⟨hpc, hleft, hx⟩ | ⟨hpc, hzero, hx⟩ | ⟨area, pos, hpc, hpos, hx⟩ | ⟨area, pos, hpc, hge, hx⟩
  · rw [hx]
    exact hI.openSegment h hvisits hpc hleft
  · -- nothing is left, so that all of the count is done
    have hdone : x.totlen.toNat = count.toNat := by
      have htotal := hI.total
      rw [hzero] at htotal
      exact htotal
    rw [hx]
    rw [hpc] at hat
    refine ⟨⟨UInt64.toNat_inj.mp hdone, ?_⟩, hI.same_mem⟩
    rw [← hdone]
    exact hat
  · rw [hx]
    exact hI.readChunk h hvisits hpc hpos
  · rw [hx]
    exact hI.endSegment h (by omega) hpc hge

/-- The first segment is within the count: a range inside a window is no longer than it. -/
theorem readExact_entry (hcount : count.toNat < 2 ^ 63) (s : σ) :
    ReadExactInv place mem (mem s) count offset
      (readEntry count offset buf tmpbuf s : Transfer σ α) where
  total := Nat.zero_add _
  buff := rfl
  nfpOffset := rfl
  curlen hpos := by
    change 0 < count.toNat at hpos
    have hlt := offsetAddress_lt offset
    have hcur := @adjustLength_toNat (offsetAddress offset) count hpos (by omega)
    change 0 < (adjustLength (offsetAddress offset) count count).toNat ∧
      (adjustLength (offsetAddress offset) count count).toNat ≤ count.toNat ∧
      (adjustLength (offsetAddress offset) count count).toNat ≤ 2 ^ 20
    rw [hcur]
    split
    · omega
    · omega
  same_mem := rfl
  at_pc := fun i hi => absurd hi (Nat.not_lt_zero i)

/-- **The loops of a read end**, with the bytes of the device or an error. -/
theorem devRead_exact (dev : CppDev σ α) (h : dev.ops.Accesses place mem)
    (count offset : UInt64) (hcount : count.toNat < 2 ^ 63) (buf tmpbuf : Mem) (s : σ) :
    ∃ r, Loop.Returns (devRead dev.ops offset) (readEntry count offset buf tmpbuf s) r ∧
      ReadExactPost dev.ops (readEntry count offset buf tmpbuf s) mem (mem s) count offset r := by
  refine Loop.exists_returns_visits (ReadExactInv place mem (mem s) count offset) transferLeft
    (fun x hvisits hI => ?_) (readExact_entry hcount s)
  exact Loop.elim_of_after (hI.step h hcount hvisits) (fun _ h => h) fun _ h => h

end Exact

/-! ### What becomes of the areas -/

/-- Something done with the area that was the `n`th to be allocated. -/
inductive AreaEvent where
  | acquired (n : ℕ)
  | released (n : ℕ)
  | freed (n : ℕ)
deriving DecidableEq

/-- The area it is about. -/
def AreaEvent.area : AreaEvent → ℕ
  | acquired n | released n | freed n => n

/-- How many areas have been allocated, and what was done with them. -/
structure AreaLog where
  allocated : ℕ
  events : List AreaEvent

/-- Nothing has been allocated. -/
def AreaLog.empty : AreaLog := ⟨0, []⟩

/-- One more event. -/
def AreaLog.push (log : AreaLog) (e : AreaEvent) : AreaLog :=
  { log with events := log.events ++ [e] }

/-- The library with a record of what is done with its areas. -/
def CppOps.tracked (ops : CppOps σ α) : CppOps (σ × AreaLog) (α × ℕ) where
  areaAlloc dest address size s :=
    let (area, s') := ops.areaAlloc dest address size s.1
    (area.map fun area => (area, s.2.allocated), s',
      { s.2 with allocated := s.2.allocated + 1 })
  areaAcquire area s :=
    let (err, area', s') := ops.areaAcquire area.1 s.1
    (err, (area', area.2), s', if err < 0 then s.2 else s.2.push (.acquired area.2))
  areaRead area offset kernelVaddr length s :=
    let (err, kernelVaddr, s') := ops.areaRead area.1 offset kernelVaddr length s.1
    (err, kernelVaddr, s', s.2)
  areaWrite area offset kernelVaddr length s :=
    let (err, s') := ops.areaWrite area.1 offset kernelVaddr length s.1
    (err, s', s.2)
  areaRelease area s :=
    let (area', s') := ops.areaRelease area.1 s.1
    ((area', area.2), s', s.2.push (.released area.2))
  areaFree area s := (ops.areaFree area.1 s.1, s.2.push (.freed area.2))

/-- The machine with that library. -/
def CppDev.tracked (dev : CppDev σ α) : CppDev (σ × AreaLog) (α × ℕ) where
  ops := dev.ops.tracked
  model s :=
    let (model, s') := dev.model s.1
    (model, s', s.2)
  interface := dev.interface
  serial := dev.serial
  malloc s := dev.malloc s.1
  garbage v s := dev.garbage v s.1
  read_int area offset mem len s := dev.read_int area.1 offset mem len s.1

/-- The record changes nothing that is seen of the device. -/
theorem CppOps.Accesses.tracked {ops : CppOps σ α} {place : α → UInt32 × UInt64}
    {mem : σ → UInt32 → Mem} (h : ops.Accesses place mem) :
    ops.tracked.Accesses (fun area => place area.1) fun s => mem s.1 where
  alloc dest address size s area s' halloc := by
    simp only [CppOps.tracked, Prod.mk.injEq, Option.map_eq_some_iff] at halloc
    obtain ⟨⟨area', harea, rfl⟩, -⟩ := halloc
    exact h.alloc dest address size s.1 area' _ (Prod.ext harea rfl)
  alloc_mem dest address size s := h.alloc_mem dest address size s.1
  acquire area s := h.acquire area.1 s.1
  acquire_mem area s := h.acquire_mem area.1 s.1
  read area offset kernelVaddr length s hok := h.read area.1 offset kernelVaddr length s.1 hok
  read_mem area offset kernelVaddr length s := h.read_mem area.1 offset kernelVaddr length s.1
  release_mem area s := h.release_mem area.1 s.1
  free_mem area s := h.free_mem area.1 s.1

/-- Every area that was acquired was released and then freed, once. -/
def AreasClosed (events : List AreaEvent) : Prop :=
  ∀ n, .acquired n ∈ events →
    events.filter (fun e => e.area = n) = [.acquired n, .released n, .freed n]

section Log

variable {events tail : List AreaEvent} {n : ℕ}

/-- The events of one more area. -/
theorem AreasClosed.append (h : AreasClosed events) (hfresh : ∀ e ∈ events, e.area < n)
    (htail : ∀ e ∈ tail, e.area = n)
    (hclosed : .acquired n ∈ tail → tail = [.acquired n, .released n, .freed n]) :
    AreasClosed (events ++ tail) := by
  intro m hm
  rw [List.filter_append]
  rcases List.mem_append.mp hm with hm | hm
  · -- an older area: the new events are not about it
    have hlt : m < n := hfresh _ hm
    have hnil : tail.filter (fun e => e.area = m) = [] := by
      refine List.filter_eq_nil_iff.mpr fun e he => ?_
      rw [htail e he, decide_eq_true_eq]
      exact hlt.ne'
    rw [h m hm, hnil, List.append_nil]
  · -- the new area: no older event is about it
    obtain rfl : m = n := htail _ hm
    have hnil : events.filter (fun e => e.area = m) = [] := by
      refine List.filter_eq_nil_iff.mpr fun e he => ?_
      rw [decide_eq_true_eq]
      exact (hfresh e he).ne
    have hall : tail.filter (fun e => e.area = m) = tail :=
      List.filter_eq_self.mpr fun e he => decide_eq_true (htail e he)
    rw [hnil, hall, List.nil_append]
    exact hclosed hm

/-- No area is open. -/
structure NoneOpen (log : AreaLog) : Prop where
  closed : AreasClosed log.events
  fresh : ∀ e ∈ log.events, e.area < log.allocated

/-- The area `n` is acquired, and no other is open. -/
def OneOpen (log : AreaLog) (n : ℕ) : Prop :=
  n < log.allocated ∧ ∃ events, log.events = events ++ [.acquired n] ∧ AreasClosed events ∧
    ∀ e ∈ events, e.area < n

variable {log : AreaLog}

/-- A number that is used up opens nothing. -/
theorem NoneOpen.alloc (h : NoneOpen log) :
    NoneOpen { log with allocated := log.allocated + 1 } where
  closed := h.closed
  fresh e he := (h.fresh e he).trans (Nat.lt_succ_self _)

/-- An area that is acquired is the one that is open. -/
theorem NoneOpen.acquired (h : NoneOpen log) : OneOpen
    ({ log with allocated := log.allocated + 1 }.push (.acquired log.allocated))
    log.allocated :=
  ⟨Nat.lt_succ_self _, log.events, rfl, h.closed, h.fresh⟩

/-- An area that is refused is freed at once. -/
theorem NoneOpen.refused (h : NoneOpen log) : NoneOpen
    ({ log with allocated := log.allocated + 1 }.push (.freed log.allocated)) where
  closed := h.closed.append h.fresh (fun e he => by rw [List.mem_singleton.mp he]; rfl)
    fun hmem => by cases List.mem_singleton.mp hmem
  fresh e he := by
    rcases List.mem_append.mp he with he | he
    · exact (h.fresh e he).trans (Nat.lt_succ_self _)
    · rw [List.mem_singleton.mp he]
      exact Nat.lt_succ_self _

/-- When it has been released and freed, none is open. -/
theorem OneOpen.close (h : OneOpen log n) :
    NoneOpen ((log.push (.released n)).push (.freed n)) := by
  obtain ⟨hlt, events, hevents, hclosed, hfresh⟩ := h
  have htail : ∀ e ∈ [AreaEvent.acquired n, .released n, .freed n], e.area = n := by
    simp [AreaEvent.area]
  have hall : ((log.push (.released n)).push (.freed n)).events =
      events ++ [.acquired n, .released n, .freed n] := by
    simp only [AreaLog.push, hevents, List.append_assoc, List.cons_append, List.nil_append]
  refine ⟨?_, fun e he => ?_⟩
  · rw [hall]
    exact hclosed.append hfresh htail fun _ => rfl
  · rw [hall] at he
    rcases List.mem_append.mp he with he | he
    · exact (hfresh e he).trans hlt
    · rw [htail e he]
      exact hlt

end Log

section Areas

variable {ops : CppOps σ α} {cppId : UInt32} {x : Transfer (σ × AreaLog) (α × ℕ)}
  {area : α × ℕ} {pos len : UInt32} {s : σ × AreaLog}

/-- What is open at the head of either loop. -/
def OpenAt (log : AreaLog) : TransferPc (α × ℕ) → Prop
  | .segment => NoneOpen log
  | .chunk area _ => OneOpen log area.2

/-- What is open after an iteration. -/
def OpenAfter : Transfer (σ × AreaLog) (α × ℕ) ⊕ TransferResult (σ × AreaLog) → Prop
  | .inl x => OpenAt x.world.2 x.pc
  | .inr r => NoneOpen r.world.2

/-- The area that is opened is the one with the next number. -/
theorem openSegment_areas (h : NoneOpen x.world.2) :
    OpenAfter (openSegment ops.tracked cppId x) := by
  have halloc : ops.tracked.areaAlloc cppId x.nfpOffset x.curlen x.world =
      ((ops.areaAlloc cppId x.nfpOffset x.curlen x.world.1).1.map fun area =>
        (area, x.world.2.allocated), (ops.areaAlloc cppId x.nfpOffset x.curlen x.world.1).2,
        { x.world.2 with allocated := x.world.2.allocated + 1 }) := rfl
  cases hres : (ops.areaAlloc cppId x.nfpOffset x.curlen x.world.1).1 with
  -- nothing is allocated; the number is used up all the same
  | none =>
    rw [hres] at halloc
    rw [openSegment_none halloc]
    exact h.alloc
  | some area =>
    rw [hres] at halloc
    set s := (ops.areaAlloc cppId x.nfpOffset x.curlen x.world.1).2
    rcases lt_or_ge (ops.areaAcquire area s).1 0 with hacq | hacq
    · rw [openSegment_refused halloc hacq]
      have hlog := h.refused
      simpa only [OpenAfter, CppOps.tracked, if_pos hacq] using hlog
    · rw [openSegment_acquired halloc hacq]
      have hlog := h.acquired
      simpa only [OpenAfter, OpenAt, CppOps.tracked, if_neg (not_lt.mpr hacq)] using hlog

/-- It is released and freed, with an error or without one. -/
theorem endSegment_areas (h : OneOpen x.world.2 area.2) :
    OpenAfter (endSegment ops.tracked area pos x) := by
  rcases lt_or_ge x.err 0 with herr | herr
  · rw [endSegment_failed herr]
    exact h.close
  · rw [endSegment_done herr]
    exact h.close

/-- A chunk leaves it open, or closes the segment with its error. -/
theorem readChunk_areas (h : OneOpen x.world.2 area.2) :
    OpenAfter (readChunk ops.tracked area pos len x) := by
  rcases lt_or_ge (ops.tracked.areaRead area pos.toUInt64 x.tmpbuf len x.world).1 0 with
    hread | hread
  · rw [readChunk_failed hread]
    exact endSegment_areas h
  · rw [readChunk_done hread]
    exact h

/-- On every path through an iteration. -/
theorem devRead_areas {offset : UInt64} (h : OpenAt x.world.2 x.pc) :
    OpenAfter (devRead ops.tracked offset x) := by
  unfold devRead
  rcases transferBody_cases ops.tracked (readChunk ops.tracked) (offsetCppId offset) x with
    ⟨hpc, -, hx⟩ | ⟨hpc, -, hx⟩ | ⟨area, pos, hpc, -, hx⟩ | ⟨area, pos, hpc, -, hx⟩
  all_goals
    rw [hpc] at h
    rw [hx]
  · exact openSegment_areas h
  · exact h
  · exact readChunk_areas h
  · exact endSegment_areas h

/-- When the loops have ended, no area is open. -/
theorem devRead_noneOpen {offset : UInt64} {r : TransferResult (σ × AreaLog)}
    (hr : Loop.Returns (devRead ops.tracked offset) x r) (h : OpenAt x.world.2 x.pc) :
    NoneOpen r.world.2 := by
  refine hr.rule (fun x => OpenAt x.world.2 x.pc) (fun r => NoneOpen r.world.2)
    (fun x hx => ?_) h
  exact Loop.elim_of_after (devRead_areas hx) (fun _ h => h) fun _ h => h

end Areas

/-! ### The reply -/

/-- A negative status alone if something has `failed`, or the count and the bytes of the
device. -/
def ReadReply (failed : Prop) (device : Mem) (count : UInt64) (out : List UInt8) : Prop :=
  (failed ∧ ∃ status : UInt64, status.toInt64 < 0 ∧ out = u64Bytes status) ∨
    out = u64Bytes count ++ device.load 0 count.toNat

/-- The index is one that an iteration may store to in `buf`. -/
def Transfer.Stores (x : Transfer σ α) (a : ℕ) : Prop :=
  ∃ area pos, x.pc = .chunk area pos ∧ pos.toUInt64 < x.curlen ∧
    x.buff.toNat + pos.toNat ≤ a ∧ a < x.buff.toNat + pos.toNat + (chunkLen x.curlen pos).toNat

/-- The buffer after an iteration. -/
def bufAfter : Transfer σ α ⊕ TransferResult σ → Mem := Sum.elim Transfer.buf TransferResult.buf

/-- The end of a segment copies nothing. -/
theorem endSegment_buf (ops : CppOps σ α) (area : α) (pos : UInt32) (x : Transfer σ α) :
    bufAfter (endSegment ops area pos x) = x.buf := by
  simp only [endSegment]
  split
  · rfl
  · rfl

/-- It stores nowhere else. -/
theorem devRead_stores (ops : CppOps σ α) (offset : UInt64) (x : Transfer σ α) {a : ℕ}
    (ha : ¬x.Stores a) : bufAfter (devRead ops offset x) a = x.buf a := by
  unfold devRead
  rcases transferBody_cases ops (readChunk ops) (offsetCppId offset) x with ⟨-, -, hx⟩ |
    ⟨-, -, hx⟩ | ⟨area, pos, hpc, hlt, hx⟩ | ⟨area, pos, -, -, hx⟩
  · simp only [hx, openSegment]
    split
    · rfl
    · split
      · rfl
      · rfl
  · rw [hx]
    rfl
  · rw [hx]
    -- only a read that succeeds is copied to `buf`
    rcases lt_or_ge (ops.areaRead area pos.toUInt64 x.tmpbuf (chunkLen x.curlen pos)
        x.world).1 0 with hread | hread
    · rw [readChunk_failed hread, endSegment_buf]
    · rw [readChunk_done hread]
      have hlt' : pos.toUInt64 < x.curlen := by
        rwa [UInt64.lt_iff_toNat_lt, UInt32.toNat_toUInt64]
      refine Mem.copy_of_not _ _ ?_
      by_contra hin
      exact ha ⟨area, pos, hpc, hlt', by omega, by omega⟩
  · rw [hx, endSegment_buf]

/-- While the cursors are in step, a chunk is below the count. -/
theorem ReadExactInv.stores_lt {place : α → UInt32 × UInt64} {mem : σ → UInt32 → Mem}
    {memory : UInt32 → Mem} {count offset : UInt64} {x : Transfer σ α} {a : ℕ}
    (hI : ReadExactInv place mem memory count offset x) (ha : x.Stores a) : a < count.toNat := by
  obtain ⟨area, pos, hpc, hlt, -, ha⟩ := ha
  have hat := hI.at_pc
  rw [hpc] at hat
  rw [UInt64.lt_iff_toNat_lt, UInt32.toNat_toUInt64] at hlt
  obtain ⟨-, hcur, hboundary⟩ := hI.curlen hat.count_pos
  obtain ⟨-, -, hfits⟩ := chunkLen_spec hlt (hboundary.trans_lt (by decide))
  have htotal := hI.total
  -- `buff` is what is done, and a chunk is within what is left.
  rw [hI.buff] at ha
  omega

section Reply

variable (dev : CppDev σ α) (list : List (NfpDevCppArea (α × ℕ))) (s : σ) (count offset : UInt64)

/-- `nfp_cpp_dev_read` on a machine that has allocated no area yet. -/
def trackedRead : DevProc (σ × AreaLog) (α × ℕ) :=
  nfpCppDevRead dev.tracked ⟨list, s, .empty⟩ count offset

/-- The state in which its loops are entered. -/
def trackedEntry : Transfer (σ × AreaLog) (α × ℕ) :=
  readEntry count offset (dev.garbage .buf s) (dev.garbage .tmpbuf s) (s, AreaLog.empty)

/-- A read that is exact: `r` is where its loops end, and `out` what it sends. -/
structure ExactRead (device : Mem) (r : TransferResult (σ × AreaLog)) (out : List UInt8) :
    Prop where
  /-- The loops end. -/
  returns : Loop.Returns (devRead dev.tracked.ops offset) (trackedEntry dev s count offset) r
  /-- So does the function, whatever the chunks in which the reply is taken. -/
  finishes : Finishes (trackedRead dev list s count offset) out (0, ⟨list, r.world⟩)
  reply : ReadReply (¬NoReadFails dev.tracked.ops offset (trackedEntry dev s count offset))
    device count out
  /-- While the loops run nothing behind the count changes in `buf`. -/
  untouched : ∀ x,
    Loop.Visits (devRead dev.tracked.ops offset) (trackedEntry dev s count offset) x →
    ∀ a, count.toNat ≤ a → x.buf a = dev.garbage .buf s a
  /-- Their last iteration does not change it either. -/
  untouched_end : ∀ a, count.toNat ≤ a → r.buf a = dev.garbage .buf s a
  inBounds : ∀ x, Loop.Visits (devRead dev.tracked.ops offset) (trackedEntry dev s count offset) x →
    ∀ a, x.Stores a → a < count.toNat
  closed : AreasClosed r.world.2.events
  /-- From the first byte of the reply on, nothing happens but writes. -/
  replied : ∀ i o Q, Runs (trackedRead dev list s count offset) i o Q → o ≠ [] →
    Q.Sending (0, ⟨list, r.world⟩)

variable {dev list s count offset}

/-- A negative error is a negative status. -/
theorem statusWord_toInt64_neg {err : ℤ} (h : IsInt err) (hneg : err < 0) :
    (statusWord err).toInt64 < 0 := by
  have hcast : (statusWord err).toInt64 = Int64.ofInt err := rfl
  have hlo : -2 ^ 63 ≤ err := le_trans (by decide) h.1
  have hhi : err < 2 ^ 63 := h.2.trans (by decide)
  rw [hcast, Int64.lt_iff_toInt_lt, Int64.toInt_ofInt_of_le hlo hhi]
  exact hneg

/-- What is sent of the buffer are the bytes of the device. -/
theorem Filled.load {device buf : Mem} {n : ℕ} (h : Filled device buf n) :
    buf.load 0 n = device.load 0 n := by
  refine List.map_congr_left fun i hi => ?_
  rw [Nat.zero_add]
  exact h i (List.mem_range.mp hi)

/-- The function once its loops have ended. -/
def readTail (data : DevData σ α) (r : TransferResult σ) : DevProc σ α :=
  match r.status with
  | .ok totlen =>
    .write (u64Bytes totlen) <|
    .writeAll (r.buf.load 0 totlen.toNat) <|
    .ret (0, { data with world := r.world })
  | .error err =>
    .write (u64Bytes (statusWord err)) <|
    .ret (0, { data with world := r.world })

/-- It only writes, and returns 0. -/
theorem readTail_sending (data : DevData σ α) (r : TransferResult σ) :
    (readTail data r).Sending (0, { data with world := r.world }) := by
  unfold readTail
  split
  · exact Proc.Sending.writeAll rfl
  · rfl

/-- What it sends. -/
theorem readTail_speaks {ops : CppOps σ α} {entry : Transfer σ α} {mem : σ → UInt32 → Mem}
    {memory : UInt32 → Mem} (Due : List UInt8 → Prop) (data : DevData σ α) {r : TransferResult σ}
    (h : ReadExactPost ops entry mem memory count offset r) : ∃ out,
      Speaks Due (readTail data r) [] out (0, { data with world := r.world }) ∧
      ReadReply (¬NoReadFails ops offset entry) (deviceAt memory offset) count out := by
  have hstatus := h.status
  unfold readTail
  split at hstatus
  next totlen hok =>
    obtain ⟨rfl, hfilled⟩ := hstatus
    refine ⟨_, .write (.writeAll (.ret Due _)), .inr ?_⟩
    rw [List.append_nil, hfilled.load]
  -- the error alone
  next err herr =>
    obtain ⟨hint, hneg, hfailed⟩ := hstatus
    refine ⟨_, .write (.ret Due _), .inl ⟨hfailed, statusWord err, ?_, List.append_nil _⟩⟩
    exact statusWord_toInt64_neg hint hneg

/-- The invariant, at every state that the loops visit. -/
theorem trackedEntry_inv {place : α → UInt32 × UInt64} {mem : σ → UInt32 → Mem}
    (h : dev.ops.Accesses place mem) (hcount : count.toNat < 2 ^ 63)
    {x : Transfer (σ × AreaLog) (α × ℕ)}
    (hx : Loop.Visits (devRead dev.tracked.ops offset) (trackedEntry dev s count offset) x) :
    ReadExactInv (fun area => place area.1) (fun s => mem s.1) (mem s) count offset x := by
  have haccess := h.tracked
  have hentry : ReadExactInv (fun area => place area.1) (fun s => mem s.1) (mem s) count offset
      (trackedEntry dev s count offset) := readExact_entry hcount (s, AreaLog.empty)
  induction hx with
  | refl => exact hentry
  | tail hvisits hy hI =>
    have hstep : ReadExactStep dev.tracked.ops _ _ _ _ count offset _ _ :=
      hI.step haccess hcount hvisits
    rw [hy] at hstep
    exact hstep.1

/-- **The read loop is exact.** Whatever the operations of the library answer, a read of fewer
than `2 ^ 63` bytes ends, having sent the count with the bytes of the device, or, if one of its
operations failed, a negative status alone; it changes nothing behind the count, and has closed
every area it acquired before it sends anything. -/
theorem nfpCppDevRead_exact (dev : CppDev σ α) {place : α → UInt32 × UInt64}
    {mem : σ → UInt32 → Mem} (h : dev.ops.Accesses place mem)
    (list : List (NfpDevCppArea (α × ℕ))) (s : σ) (count offset : UInt64)
    (hcount : count.toNat < 2 ^ 63) :
    ∃ r out, ExactRead dev list s count offset (deviceAt (mem s) offset) r out := by
  have haccess := h.tracked
  let data : DevData (σ × AreaLog) (α × ℕ) := ⟨list, s, .empty⟩
  obtain ⟨r, hr, hpost⟩ := devRead_exact dev.tracked haccess count offset hcount
    (dev.garbage .buf s) (dev.garbage .tmpbuf s) (s, AreaLog.empty)
  obtain ⟨out, htail, hreply⟩ := readTail_speaks (fun _ => True) data hpost
  have hspeaks : Speaks (fun _ => True) (trackedRead dev list s count offset) [] out
      (0, ⟨list, r.world⟩) := .loop hr htail
  have hstores : ∀ x,
      Loop.Visits (devRead dev.tracked.ops offset) (trackedEntry dev s count offset) x →
      ∀ a, x.Stores a → a < count.toNat :=
    fun x hx a ha => (trackedEntry_inv h hcount hx).stores_lt ha
  -- an iteration leaves alone what is behind the count
  have hkeeps : ∀ x,
      Loop.Visits (devRead dev.tracked.ops offset) (trackedEntry dev s count offset) x →
      ∀ a, count.toNat ≤ a → bufAfter (devRead dev.tracked.ops offset x) a = x.buf a :=
    fun x hx a ha => devRead_stores dev.tracked.ops offset x
      fun hin => absurd (hstores x hx a hin) (not_lt.mpr ha)
  have huntouched : ∀ x,
      Loop.Visits (devRead dev.tracked.ops offset) (trackedEntry dev s count offset) x →
      ∀ a, count.toNat ≤ a → x.buf a = dev.garbage .buf s a := by
    intro x hx a ha
    induction hx with
    | refl => rfl
    | tail hvisits hy ih =>
      have hkeep := hkeeps _ hvisits a ha
      rw [hy] at hkeep
      exact hkeep.trans ih
  refine ⟨r, out, hr, finishes_of_speaks hspeaks, hreply, huntouched, ?_, hstores, ?_, ?_⟩
  · intro a ha
    obtain ⟨x, hx, hlast⟩ := hr.exists_last
    have hkeep := hkeeps x hx a ha
    rw [hlast] at hkeep
    exact hkeep.trans (huntouched x hx a ha)
  · have hopen : NoneOpen AreaLog.empty :=
      ⟨fun n hn => absurd hn List.not_mem_nil, fun e he => absurd he List.not_mem_nil⟩
    exact (devRead_noneOpen hr hopen).closed
  · intro i o Q hrun ho
    -- what has been written was written behind the loops
    rcases Runs.loop_cases hrun with ⟨-, hnil, -⟩ | ⟨r', hr', hk⟩
    · exact absurd hnil ho
    · obtain rfl := hr.unique hr'
      exact hk.sending (readTail_sending data r)

end Reply

/-! ### A device of plain memory -/

/-- A library whose accesses all succeed; an area is the place it was allocated at. -/
def memOps : CppOps (UInt32 → Mem) (UInt32 × UInt64) where
  areaAlloc dest address _ s := (some (dest, address), s)
  areaAcquire area s := (0, area, s)
  areaRead area offset kernelVaddr length s :=
    (length.toNat % 2 ^ 31,
      kernelVaddr.copy 0 (s area.1) (area.2.toNat + offset.toNat) length.toNat, s)
  areaWrite area offset kernelVaddr length s :=
    (length.toNat % 2 ^ 31, Function.update s area.1
      ((s area.1).copy (area.2.toNat + offset.toNat) kernelVaddr 0 length.toNat))
  areaRelease area s := (area, s)
  areaFree _ s := s

/-- A machine over it. -/
def memDev : CppDev (UInt32 → Mem) (UInt32 × UInt64) where
  ops := memOps
  model s := (0, s)
  interface := 0
  serial _ := 0
  malloc _ := true
  garbage _ _ _ := 0
  read_int _ _ _ length _ :=
    ⟨le_trans (by decide) (Int.emod_nonneg length.toNat (by decide)),
      Int.emod_lt_of_pos length.toNat (by decide)⟩

/-- It gives access to its state. -/
theorem memDev_accesses : memDev.ops.Accesses id id where
  alloc dest address size s area s' h := by
    have harea := Option.some.inj (Prod.mk.inj h).1
    exact harea.symm
  alloc_mem _ _ _ _ := rfl
  acquire _ _ := rfl
  acquire_mem _ _ := rfl
  read area offset kernelVaddr length s _ i hi := by
    have hcopy := @Mem.copy_of_lt kernelVaddr (s area.1) 0 (area.2.toNat + offset.toNat) _ i hi
    rwa [Nat.zero_add] at hcopy
  read_mem _ _ _ _ _ := rfl
  release_mem _ _ := rfl
  free_mem _ _ := rfl

/-- Four bytes at address eight. -/
theorem nfpCppDevRead_exact_four : (4 : UInt64).toNat < 2 ^ 63 ∧
    ∃ r out, ExactRead memDev [] (fun _ a => a.toUInt8) 4 8
      (deviceAt (fun _ a => a.toUInt8) 8) r out :=
  ⟨by decide, nfpCppDevRead_exact memDev memDev_accesses [] (fun _ a => a.toUInt8) 4 8
    (by decide)⟩

end NfpUdpEcho
