import Mathlib.Data.UInt
import NfpUdpEcho.Framework.Align
import NfpUdpEcho.Server.Transfer

/-!
# How reads and writes split a transfer

Both loops are run over a library that records the areas asked of it. When every area
operation of a transfer succeeds, the areas opened are those of `Tiling.split` for the first
segment the loop is entered with (`transfer_opens`). For a read this is a partition into segments
inside mebibyte windows, for every range (`read_opens_split`). A write opens the whole range
first (`write_first`), so the two agree exactly on ranges inside one window
(`transferSplit_iff`).

That the operations succeed is asked of the states which the loops visit, and of no others: the
library refuses an area that ends above the 40 bits of an address, whatever it does elsewhere.

`SplitInv` ties a state of the loops to a plan, which is the list of segments that the whole
transfer will have opened: those opened so far and the split of what is left. Opening a segment
moves the head of the split to the record, the chunks leave it as it is, and closing a segment makes
the next split begin where this one has ended. Read and write differ only in how a chunk is moved,
so that `Advances` is all that the loops ask of an access.

That a write is not split like a read outside one window needs less: its first area is the whole
range whatever the library answers, and that one is in no window (`SplitsAlike.oneWindow`).
-/

namespace NfpUdpEcho

open ByteMem Tiling

variable {σ α : Type}

/-- An area asked for: its address and size. -/
abbrev Segment := UInt64 × UInt64

/-- In natural numbers. -/
def Segment.nat (g : Segment) : ℕ × ℕ := (g.1.toNat, g.2.toNat)

/-- The library with a record of the areas asked for. -/
def CppOps.recording (ops : CppOps σ α) : CppOps (σ × List Segment) α where
  areaAlloc dest address size s :=
    let (area, s') := ops.areaAlloc dest address size s.1
    (area, s', s.2 ++ [(address, size)])
  areaAcquire area s :=
    let (err, area, s') := ops.areaAcquire area s.1
    (err, area, s', s.2)
  areaRead area offset kernelVaddr length s :=
    let (err, kernelVaddr, s') := ops.areaRead area offset kernelVaddr length s.1
    (err, kernelVaddr, s', s.2)
  areaWrite area offset kernelVaddr length s :=
    let (err, s') := ops.areaWrite area offset kernelVaddr length s.1
    (err, s', s.2)
  areaRelease area s :=
    let (area, s') := ops.areaRelease area s.1
    (area, s', s.2)
  areaFree area s := (ops.areaFree area s.1, s.2)

/-- The areas opened so far. -/
def Transfer.opened (x : Transfer (σ × List Segment) α) : List Segment := x.world.2

/-- The areas that a transfer has opened. -/
def TransferResult.opened (r : TransferResult (σ × List Segment)) : List Segment := r.world.2

/-! ### Windows of a mebibyte -/

section Windows

/-- A mebibyte. -/
theorem memioBoundary_toNat : memioBoundary.toNat = 2 ^ 20 := by decide

/-- Masking leaves the offset in a window. -/
theorem and_boundary (z : UInt64) : (z &&& (memioBoundary - 1)).toNat = z.toNat % 2 ^ 20 := by
  have hm : (memioBoundary - 1).toNat = 2 ^ 20 - 1 := by decide
  rw [UInt64.toNat_and, hm, Nat.and_two_pow_sub_one_eq_mod]

/-- Masking off the offset in a window leaves the start of the window. -/
theorem and_not_boundary (z : UInt64) :
    (z &&& ~~~(memioBoundary - 1)).toNat = z.toNat / 2 ^ 20 * 2 ^ 20 :=
  Align.toNat_floor (by decide) z

/-- Two addresses have the same start of a window if they are in the same one. -/
theorem window_eq_iff (x y : UInt64) :
    x &&& ~~~(memioBoundary - 1) = y &&& ~~~(memioBoundary - 1) ↔
      x.toNat / 2 ^ 20 = y.toNat / 2 ^ 20 := by
  rw [← UInt64.toNat_inj, and_not_boundary, and_not_boundary]
  exact Nat.mul_left_inj (by decide)

/-- An address has 40 bits. -/
theorem offsetAddress_lt (offset : UInt64) : (offsetAddress offset).toNat < 2 ^ 40 := by
  have hm : (((1 : UInt64) <<< 40) - 1).toNat = 2 ^ 40 - 1 := by decide
  rw [offsetAddress, UInt64.toNat_and, hm, Nat.and_two_pow_sub_one_eq_mod]
  exact Nat.mod_lt _ (by decide)

/-- The first segment of a read, in integers. -/
theorem adjustLength_toNat {a count : UInt64} (hpos : 0 < count.toNat)
    (hwrap : a.toNat + count.toNat < 2 ^ 64) :
    (adjustLength a count count).toNat =
      if a.toNat / 2 ^ 20 = (a.toNat + count.toNat - 1) / 2 ^ 20 then count.toNat
      else 2 ^ 20 - a.toNat % 2 ^ 20 := by
  have hsum : (a + count).toNat = a.toNat + count.toNat := by
    rw [UInt64.toNat_add, Nat.mod_eq_of_lt hwrap]
  have hlast : (a + count - 1).toNat = a.toNat + count.toNat - 1 := by
    have hone : (1 : UInt64) ≤ a + count := by
      rw [UInt64.le_iff_toNat_le, hsum]
      exact Nat.le_add_left_of_le hpos
    rw [UInt64.toNat_sub_of_le _ _ hone, hsum]
    rfl
  unfold adjustLength
  -- the range is in one window, or the first segment ends with the window
  by_cases h : a.toNat / 2 ^ 20 = (a.toNat + count.toNat - 1) / 2 ^ 20
  · have hwin := (window_eq_iff (a + count - 1) a).mpr (by rw [hlast, h])
    rw [if_pos h, if_neg (not_not.mpr hwin)]
  · have hwin : _ ≠ _ := fun hwin => h (by rw [← hlast, (window_eq_iff (a + count - 1) a).mp hwin])
    have hle : a &&& (memioBoundary - 1) ≤ memioBoundary := by
      rw [UInt64.le_iff_toNat_le, memioBoundary_toNat, and_boundary]
      omega
    rw [if_neg h, if_pos hwin, UInt64.toNat_sub_of_le _ _ hle, memioBoundary_toNat, and_boundary]

end Windows

/-! ### The loops follow the split -/

section Split

variable {ops : CppOps σ α} {access : ChunkAccess (σ × List Segment) α} {cppId : UInt32}
  {area : α} {pos : UInt32} {x : Transfer (σ × List Segment) α} {plan : List (ℕ × ℕ)}
  {accessOk : α → UInt32 → UInt32 → Transfer (σ × List Segment) α → Bool}

/-- Two states in the same place of the range. -/
structure SamePlace (x y : Transfer (σ × List Segment) α) : Prop where
  nfpOffset : y.nfpOffset = x.nfpOffset
  count : y.count = x.count
  curlen : y.curlen = x.curlen

/-- An access that goes on to the next chunk when it succeeds. -/
def Advances (accessOk : α → UInt32 → UInt32 → Transfer (σ × List Segment) α → Bool)
    (access : ChunkAccess (σ × List Segment) α) : Prop :=
  ∀ area pos len x, accessOk area pos len x = true →
    ∃ y, access area pos len x = .inl y ∧ y.pc = .chunk area (pos + len) ∧
      SamePlace x y ∧ y.opened = x.opened ∧ 0 ≤ y.err

/-- A read goes on. -/
theorem readChunk_advances (ops : CppOps σ α) :
    Advances (readOk ops.recording) (readChunk ops.recording) := by
  intro area pos len x hok
  have hread := of_decide_eq_true hok
  exact ⟨_, readChunk_done hread, rfl, ⟨rfl, rfl, rfl⟩, rfl, hread⟩

/-- A write goes on. -/
theorem writeChunk_advances (ops : CppOps σ α) :
    Advances (writeOk ops.recording) (writeChunk ops.recording) := by
  intro area pos len x hok
  have hwrite := of_decide_eq_true hok
  exact ⟨_, writeChunk_done hwrite, rfl, ⟨rfl, rfl, rfl⟩, rfl, hwrite⟩

/-- A segment that is opened is recorded. -/
theorem openSegment_succeeds (hok : iterationOk ops.recording accessOk cppId x = true)
    (hpc : x.pc = .segment) (hcount : 0 < x.count.toNat) :
    ∃ area y, openSegment ops.recording cppId x = .inl y ∧ y.pc = .chunk area 0 ∧
      SamePlace x y ∧ y.opened = x.opened ++ [(x.nfpOffset, x.curlen)] ∧ 0 ≤ y.err := by
  obtain ⟨area, s, halloc, hacq⟩ := iterationOk_segment hok hpc hcount
  -- the record has grown by the area that was asked for
  obtain ⟨-, hs⟩ := Prod.mk.inj halloc
  exact ⟨_, _, openSegment_acquired halloc hacq, rfl, ⟨rfl, rfl, rfl⟩,
    (congrArg Prod.snd hs).symm, hacq⟩

/-- A segment that is complete is closed, and the next is a mebibyte or what is left. -/
theorem endSegment_succeeds (ops : CppOps σ α) (area : α) (pos : UInt32) (herr : 0 ≤ x.err) :
    ∃ y, endSegment ops.recording area pos x = .inl y ∧ y.pc = .segment ∧
      y.nfpOffset = x.nfpOffset + pos.toUInt64 ∧ y.count = x.count - pos.toUInt64 ∧
      y.curlen = (if y.count > memioBoundary then memioBoundary else y.count) ∧
      y.opened = x.opened :=
  ⟨_, if_neg (not_lt.mpr herr), rfl, rfl, rfl, rfl, rfl⟩

/-- What is left to open, at the head of either loop. -/
def AtPc (plan : List (ℕ × ℕ)) (x : Transfer (σ × List Segment) α) : TransferPc α → Prop
  | .segment =>
    x.opened.map Segment.nat ++ split (2 ^ 20) x.nfpOffset.toNat x.curlen.toNat x.count.toNat = plan
  | .chunk _ pos =>
    0 < x.count.toNat ∧ 0 ≤ x.err ∧ pos.toNat ≤ x.curlen.toNat ∧
      x.opened.map Segment.nat ++ split (2 ^ 20) (x.nfpOffset.toNat + x.curlen.toNat)
        (min (2 ^ 20) (x.count.toNat - x.curlen.toNat)) (x.count.toNat - x.curlen.toNat) = plan

/-- The invariant of the loops when every operation succeeds. -/
structure SplitInv (plan : List (ℕ × ℕ)) (x : Transfer (σ × List Segment) α) : Prop where
  le_count : x.curlen.toNat ≤ x.count.toNat
  le_boundary : x.curlen.toNat ≤ 2 ^ 20
  pos : 0 < x.count.toNat → 0 < x.curlen.toNat
  no_wrap : x.nfpOffset.toNat + x.count.toNat < 2 ^ 64
  at_pc : AtPc plan x x.pc

/-- Every iteration decreases it. -/
def splitMeasure (x : Transfer (σ × List Segment) α) : ℕ :=
  match x.pc with
  | .segment => 3 * x.count.toNat + 2
  | .chunk _ pos => 3 * (x.count.toNat - pos.toNat) + if pos = 0 then 1 else 3

/-- A chunk makes progress and stays inside its segment. -/
theorem chunkLen_spec {curlen : UInt64} (hlt : pos.toNat < curlen.toNat)
    (hcut : curlen.toNat < 2 ^ 32) :
    0 < (chunkLen curlen pos).toNat ∧
      (pos + chunkLen curlen pos).toNat = pos.toNat + (chunkLen curlen pos).toNat ∧
      pos.toNat + (chunkLen curlen pos).toNat ≤ curlen.toNat := by
  have hsub : (curlen - pos.toUInt64).toUInt32.toNat = curlen.toNat - pos.toNat := by
    have hpos : pos.toUInt64 ≤ curlen := by
      rw [UInt64.le_iff_toNat_le, UInt32.toNat_toUInt64]
      exact hlt.le
    rw [UInt64.toNat_toUInt32, UInt64.toNat_sub_of_le _ _ hpos, UInt32.toNat_toUInt64,
      Nat.mod_eq_of_lt (by omega)]
  have hlen : (chunkLen curlen pos).toNat = min (curlen.toNat - pos.toNat) 64 := by
    have h64 : tmpbufSize.toNat = 64 := rfl
    simp only [chunkLen]
    split
    · next h =>
      rw [gt_iff_lt, UInt32.lt_iff_toNat_lt, hsub, h64] at h
      rw [h64]
      omega
    · next h =>
      rw [gt_iff_lt, UInt32.lt_iff_toNat_lt, hsub, h64] at h
      rw [hsub]
      omega
  rw [UInt32.toNat_add, hlen, Nat.mod_eq_of_lt (by omega)]
  omega

/-- A step that stays in its place has only the segments to account for. -/
theorem SplitInv.samePlace {y : Transfer (σ × List Segment) α} (hI : SplitInv plan x)
    (hsame : SamePlace x y) (hplan : AtPc plan y y.pc) : SplitInv plan y where
  le_count := by
    rw [hsame.curlen, hsame.count]
    exact hI.le_count
  le_boundary := by
    rw [hsame.curlen]
    exact hI.le_boundary
  pos := by
    rw [hsame.curlen, hsame.count]
    exact hI.pos
  no_wrap := by
    rw [hsame.nfpOffset, hsame.count]
    exact hI.no_wrap
  at_pc := hplan

/-- Opening a segment. -/
theorem SplitInv.open_step (hok : iterationOk ops.recording accessOk cppId x = true)
    (hI : SplitInv plan x) (hpc : x.pc = .segment) (hcount : 0 < x.count.toNat) :
    ∃ y, openSegment ops.recording cppId x = .inl y ∧ SplitInv plan y ∧
      splitMeasure y < splitMeasure x := by
  obtain ⟨area, y, hy, hpc', hsame, hopened, herr⟩ := openSegment_succeeds hok hpc hcount
  have hplan := hI.at_pc
  simp only [hpc, AtPc] at hplan
  rw [split_pos hcount (hI.pos hcount)] at hplan
  refine ⟨y, hy, hI.samePlace hsame ?_, ?_⟩
  · -- the head of the split is what has just been opened
    rw [hpc']
    refine ⟨by rwa [hsame.count], herr, Nat.zero_le _, ?_⟩
    rw [hopened, hsame.nfpOffset, hsame.count, hsame.curlen, List.map_append, List.append_assoc]
    exact hplan
  · simp only [splitMeasure, hpc, hpc', hsame.count]
    simp

/-- A chunk. -/
theorem SplitInv.chunk_step (hadv : Advances accessOk access)
    (hok : iterationOk ops.recording accessOk cppId x = true) (hI : SplitInv plan x)
    (hpc : x.pc = .chunk area pos) (hlt : pos.toNat < x.curlen.toNat) :
    ∃ y, access area pos (chunkLen x.curlen pos) x = .inl y ∧ SplitInv plan y ∧
      splitMeasure y < splitMeasure x := by
  obtain ⟨y, hy, hpc', hsame, hopened, herr⟩ := hadv area pos (chunkLen x.curlen pos) x
    (iterationOk_chunk hok hpc hlt)
  obtain ⟨hlen, hsum, hend⟩ := chunkLen_spec hlt (hI.le_boundary.trans_lt (by decide))
  have hplan := hI.at_pc
  simp only [hpc, AtPc] at hplan
  obtain ⟨hcount, -, -, hplan⟩ := hplan
  refine ⟨y, hy, hI.samePlace hsame ?_, ?_⟩
  · rw [hpc']
    refine ⟨by rwa [hsame.count], herr, ?_, ?_⟩
    · rw [hsame.curlen, hsum]
      exact hend
    · rw [hopened, hsame.nfpOffset, hsame.count, hsame.curlen]
      exact hplan
  · -- leaving position 0 adds 2 to the measure, and the bytes moved take off at least 3
    have hne : pos + chunkLen x.curlen pos ≠ 0 := by
      intro h
      rw [h] at hsum
      simp at hsum
      omega
    have hle := hI.le_count
    simp only [splitMeasure, hpc, hpc', hsame.count, hsum, if_neg hne]
    split <;> omega

/-- Closing a segment. -/
theorem SplitInv.end_step (ops : CppOps σ α) (hI : SplitInv plan x) (hpc : x.pc = .chunk area pos)
    (hge : x.curlen.toNat ≤ pos.toNat) :
    ∃ y, endSegment ops.recording area pos x = .inl y ∧ SplitInv plan y ∧
      splitMeasure y < splitMeasure x := by
  have hplan := hI.at_pc
  simp only [hpc, AtPc] at hplan
  obtain ⟨hcount, herr, hpos, hplan⟩ := hplan
  -- a segment is left with every byte of it moved
  have heq : pos.toNat = x.curlen.toNat := Nat.le_antisymm hpos hge
  obtain ⟨y, hy, hpc', hoff, hcnt, hcur, hopened⟩ :=
    endSegment_succeeds ops area pos herr
  have hwrap := hI.no_wrap
  have hle := hI.le_count
  have hoff' : y.nfpOffset.toNat = x.nfpOffset.toNat + x.curlen.toNat := by
    rw [hoff, UInt64.toNat_add, UInt32.toNat_toUInt64, heq, Nat.mod_eq_of_lt (by omega)]
  have hcnt' : y.count.toNat = x.count.toNat - x.curlen.toNat := by
    have hsub : pos.toUInt64 ≤ x.count := by
      rw [UInt64.le_iff_toNat_le, UInt32.toNat_toUInt64, heq]
      exact hle
    rw [hcnt, UInt64.toNat_sub_of_le _ _ hsub, UInt32.toNat_toUInt64, heq]
  have hcur' : y.curlen.toNat = min (2 ^ 20) y.count.toNat := by
    rw [hcur]
    split
    · next h =>
      rw [gt_iff_lt, UInt64.lt_iff_toNat_lt, memioBoundary_toNat] at h
      rw [memioBoundary_toNat]
      omega
    · next h =>
      rw [gt_iff_lt, UInt64.lt_iff_toNat_lt, memioBoundary_toNat] at h
      omega
  -- the next segment is the one the split goes on with
  have hcurpos := hI.pos hcount
  refine ⟨y, hy, ⟨by omega, by omega, by omega, by omega, ?_⟩, ?_⟩
  · rw [hpc', AtPc, hopened, hoff', hcur', hcnt']
    exact hplan
  · have hne : pos ≠ 0 := by
      rintro rfl
      simp at heq
      omega
    simp only [splitMeasure, hpc, hpc', hcnt', heq, if_neg hne]
    omega

/-- **The loops open the split.** When every operation of the transfer succeeds, the loops end
and have opened the segments of the split. -/
theorem transfer_opens (hadv : Advances accessOk access)
    (hok : ∀ y, Loop.Visits (transferBody ops.recording access cppId) x y →
      iterationOk ops.recording accessOk cppId y = true)
    (hI : SplitInv plan x) :
    ∃ r, Loop.Returns (transferBody ops.recording access cppId) x r ∧
      r.opened.map Segment.nat = plan := by
  refine Loop.exists_returns_visits (SplitInv plan) splitMeasure (fun x hx hI => ?_) hI
  have hok := hok x hx
  rcases transferBody_cases ops.recording access cppId x with ⟨hpc, hcount, hx⟩ |
    ⟨hpc, hzero, hx⟩ | ⟨area, pos, hpc, hlt, hx⟩ | ⟨area, pos, hpc, hge, hx⟩
  · obtain ⟨y, hy, hI', hmeas⟩ := hI.open_step hok hpc hcount
    rw [hx, hy]
    exact ⟨hI', hmeas⟩
  · -- nothing is left to open
    have hplan := hI.at_pc
    rw [hpc, AtPc, hzero, split_zero, List.append_nil] at hplan
    rw [hx]
    exact hplan
  · obtain ⟨y, hy, hI', hmeas⟩ := hI.chunk_step hadv hok hpc hlt
    rw [hx, hy]
    exact ⟨hI', hmeas⟩
  · obtain ⟨y, hy, hI', hmeas⟩ := hI.end_step ops hpc hge
    rw [hx, hy]
    exact ⟨hI', hmeas⟩

end Split

/-! ### The first segment of a write -/

section First

variable {ops : CppOps σ α} {cppId : UInt32} {x : Transfer (σ × List Segment) α} {g : Segment}

/-- The areas opened by the end of an iteration. -/
def openedAfter : Transfer (σ × List Segment) α ⊕ TransferResult (σ × List Segment) →
    List Segment :=
  Sum.elim Transfer.opened TransferResult.opened

/-- An area that is asked for is recorded, whether it is given or not. -/
theorem openSegment_opened (ops : CppOps σ α) (cppId : UInt32)
    (x : Transfer (σ × List Segment) α) :
    openedAfter (openSegment ops.recording cppId x) = x.opened ++ [(x.nfpOffset, x.curlen)] := by
  cases hres : ops.areaAlloc cppId x.nfpOffset x.curlen x.world.1 with
  | mk area s =>
    have hopen : ops.recording.areaAlloc cppId x.nfpOffset x.curlen x.world =
        (area, s, x.world.2 ++ [(x.nfpOffset, x.curlen)]) := by
      simp only [CppOps.recording, hres]
    cases area with
    | none =>
      rw [openSegment_none hopen]
      rfl
    | some area =>
      rcases lt_or_ge (ops.areaAcquire area s).1 0 with hacq | hacq
      · rw [openSegment_refused hopen hacq]
        rfl
      · rw [openSegment_acquired hopen hacq]
        rfl

/-- Closing a segment asks for none. -/
theorem endSegment_opened (ops : CppOps σ α) (area : α) (pos : UInt32)
    (x : Transfer (σ × List Segment) α) :
    openedAfter (endSegment ops.recording area pos x) = x.opened := by
  simp only [endSegment]
  split <;> rfl

/-- Neither does writing a chunk. -/
theorem writeChunk_opened (ops : CppOps σ α) (area : α) (pos len : UInt32)
    (x : Transfer (σ × List Segment) α) :
    openedAfter (writeChunk ops.recording area pos len x) = x.opened := by
  simp only [writeChunk]
  split <;> rfl

/-- About to open `g`, or having opened it first. -/
def FirstInv (g : Segment) (x : Transfer (σ × List Segment) α) : Prop :=
  (x.pc = .segment ∧ x.count > 0 ∧ x.opened = [] ∧ (x.nfpOffset, x.curlen) = g) ∨
    x.opened.head? = some g

/-- Every iteration keeps the first entry of the record. -/
theorem FirstInv.step (ops : CppOps σ α) (cppId : UInt32) (h : FirstInv g x) :
    (openedAfter (transferBody ops.recording (writeChunk ops.recording) cppId x)).head? =
      some g := by
  rcases h with ⟨hpc, hcount, hnil, rfl⟩ | hhead
  · rw [transferBody, hpc]
    simp only [if_pos hcount]
    rw [openSegment_opened, hnil]
    rfl
  · -- later iterations only add to the record
    have hkeep : ∀ l, (x.opened ++ l).head? = some g := fun l => by
      rw [List.head?_append, hhead]
      rfl
    rcases transferBody_cases ops.recording (writeChunk ops.recording) cppId x with
      ⟨-, -, hx⟩ | ⟨-, -, hx⟩ | ⟨area, pos, -, -, hx⟩ | ⟨area, pos, -, -, hx⟩
    · rw [hx, openSegment_opened]
      exact hkeep _
    · rw [hx]
      exact hhead
    · rw [hx, writeChunk_opened]
      exact hhead
    · rw [hx, endSegment_opened]
      exact hhead

/-- Whatever the library answers, a write first asks for the whole range. -/
theorem write_first {offset count : UInt64} {err : ℤ} {buf tmpbuf : Mem} {s : σ}
    {r : TransferResult (σ × List Segment)} (hcount : 0 < count)
    (h : Loop.Returns (devWrite ops.recording offset)
      (writeEntry count offset err buf tmpbuf (s, [])) r) :
    r.opened.head? = some (offsetAddress offset, count) := by
  refine h.rule (FirstInv (offsetAddress offset, count))
    (fun r => r.opened.head? = some (offsetAddress offset, count)) (fun x hI => ?_)
    (.inl ⟨rfl, hcount, rfl, rfl⟩)
  have hstep := hI.step ops (offsetCppId offset)
  unfold devWrite
  generalize transferBody ops.recording _ _ x = outcome at hstep ⊢
  cases outcome with
  | inl y => exact .inr hstep
  | inr r => exact hstep

end First

/-! ### Where the two splits agree -/

/-- `nfp_compute_bar` accepts the segment. -/
def Accepts (bitsize : UInt32) (tgt act tok width : Int32) (g : Segment) : Prop :=
  ∃ cfg, nfpComputeBar bitsize tgt act tok g.1 g.2 width = .ok cfg

/-- A read and a write of the same range open the same areas: a partition of the range into
segments inside windows. So a BAR that accepts every segment of the read accepts every segment of
the write. -/
def SplitsAlike (ops : CppOps σ α) (count offset : UInt64) (err : ℤ) (rbuf wbuf tmpbuf : Mem)
    (s : σ) : Prop :=
  ∃ rd wr,
    Loop.Returns (devRead ops.recording offset) (readEntry count offset rbuf tmpbuf (s, [])) rd ∧
    Loop.Returns (devWrite ops.recording offset)
      (writeEntry count offset err wbuf tmpbuf (s, [])) wr ∧
    rd.opened = wr.opened ∧
    Tiles (offsetAddress offset).toNat ((offsetAddress offset).toNat + count.toNat)
      (rd.opened.map Segment.nat) ∧
    (∀ g ∈ rd.opened, InWindow (2 ^ 20) g.nat) ∧
    ∀ bitsize tgt act tok width, 20 ≤ bitsize →
      (∀ g ∈ rd.opened, Accepts bitsize tgt act tok width g) →
      ∀ g ∈ wr.opened, Accepts bitsize tgt act tok width g

/-- The range lies in one mebibyte window. -/
def OneWindow (count offset : UInt64) : Prop :=
  InWindow (2 ^ 20) ((offsetAddress offset).toNat, count.toNat)

instance (count offset : UInt64) : Decidable (OneWindow count offset) :=
  inferInstanceAs (Decidable (InWindow _ _))

section Agree

variable {ops : CppOps σ α} {count offset : UInt64} {err : ℤ} {rbuf wbuf buf tmpbuf : Mem} {s : σ}

/-- Before the first segment the plan is the whole split. -/
theorem splitInv_entry {curlen : UInt64} (hle : curlen.toNat ≤ count.toNat)
    (hboundary : curlen.toNat ≤ 2 ^ 20) (hpos : 0 < count.toNat → 0 < curlen.toNat)
    (hwrap : (offsetAddress offset).toNat + count.toNat < 2 ^ 64) :
    SplitInv (split (2 ^ 20) (offsetAddress offset).toNat curlen.toNat count.toNat)
      (transferEntry count offset curlen err buf tmpbuf (s, []) :
        Transfer (σ × List Segment) α) :=
  ⟨hle, hboundary, hpos, hwrap, rfl⟩

/-- **The split of a read.** A read of any range that does not wrap opens a partition of it
into segments inside windows. -/
theorem read_opens_split (hcount : 0 < count.toNat)
    (hok : NoReadFails ops.recording offset (readEntry count offset buf tmpbuf (s, [])))
    (hwrap : (offsetAddress offset).toNat + count.toNat < 2 ^ 64) :
    ∃ r, Loop.Returns (devRead ops.recording offset) (readEntry count offset buf tmpbuf (s, [])) r ∧
      Tiles (offsetAddress offset).toNat ((offsetAddress offset).toNat + count.toNat)
        (r.opened.map Segment.nat) ∧
      ∀ g ∈ r.opened, InWindow (2 ^ 20) g.nat := by
  have hcur := adjustLength_toNat hcount hwrap
  set a := (offsetAddress offset).toNat
  set cur := (adjustLength (offsetAddress offset) count count).toNat with hcurdef
  have hpos : 0 < cur := by rw [hcur]; split <;> omega
  have hle : cur ≤ count.toNat := by rw [hcur]; split <;> omega
  have hboundary : cur ≤ 2 ^ 20 := by rw [hcur]; split <;> omega
  have hentry : SplitInv (split (2 ^ 20) a cur count.toNat)
      (readEntry count offset buf tmpbuf (s, []) : Transfer (σ × List Segment) α) :=
    splitInv_entry hle hboundary (fun _ => hpos) hwrap
  obtain ⟨r, hr, hopened⟩ := transfer_opens (readChunk_advances ops) hok hentry
  refine ⟨r, hr, ?_, ?_⟩
  · rw [hopened]
    exact split_tiles (by decide) (fun _ => hpos) hle
  · intro g hg
    refine split_inWindow (by decide) (fun _ _ => ?_) (fun hlt => ?_) _
      (hopened ▸ List.mem_map_of_mem hg)
    · show a / 2 ^ 20 = (a + cur - 1) / 2 ^ 20
      rw [hcur]
      split <;> omega
    · -- a shortened first segment ends at a boundary
      rw [hcur] at hlt ⊢
      split at hlt
      · omega
      · next hwin =>
        rw [if_neg hwin]
        omega

/-- The last address of a window does not wrap. -/
theorem OneWindow.bounds (h : OneWindow count offset) :
    count.toNat ≤ 2 ^ 20 ∧ (offsetAddress offset).toNat + count.toNat < 2 ^ 64 := by
  have hlt := offsetAddress_lt offset
  unfold OneWindow InWindow at h
  omega

/-- A transfer inside a window is one segment. -/
theorem OneWindow.opens (h : OneWindow count offset) (hcount : 0 < count.toNat)
    {access : ChunkAccess (σ × List Segment) α}
    {accessOk : α → UInt32 → UInt32 → Transfer (σ × List Segment) α → Bool}
    (hadv : Advances accessOk access)
    (hok : ∀ y, Loop.Visits (transferBody ops.recording access (offsetCppId offset))
      (transferEntry count offset count err buf tmpbuf (s, [])) y →
        iterationOk ops.recording accessOk (offsetCppId offset) y = true) :
    ∃ r, Loop.Returns (transferBody ops.recording access (offsetCppId offset))
        (transferEntry count offset count err buf tmpbuf (s, [])) r ∧
      r.opened = [(offsetAddress offset, count)] := by
  obtain ⟨hle, hwrap⟩ := h.bounds
  have hentry : SplitInv (split (2 ^ 20) (offsetAddress offset).toNat count.toNat count.toNat)
      (transferEntry count offset count err buf tmpbuf (s, []) :
        Transfer (σ × List Segment) α) :=
    splitInv_entry le_rfl hle id hwrap
  obtain ⟨r, hr, hopened⟩ := transfer_opens hadv hok hentry
  refine ⟨r, hr, ?_⟩
  rw [split_self hcount] at hopened
  have hinj : Function.Injective Segment.nat := fun g g' hgg => by
    have h' := Prod.mk.inj hgg
    exact Prod.ext (UInt64.toNat_inj.mp h'.1) (UInt64.toNat_inj.mp h'.2)
  exact List.map_injective_iff.mpr hinj hopened

/-- A read inside a window is not shortened. -/
theorem OneWindow.adjustLength (h : OneWindow count offset) (hcount : 0 < count.toNat) :
    adjustLength (offsetAddress offset) count count = count := by
  have hcur := adjustLength_toNat hcount (h.bounds).2
  rw [if_pos (show _ = _ from h)] at hcur
  exact UInt64.toNat_inj.mp hcur

/-- Inside a window both open one area. -/
theorem splitsAlike_of_oneWindow
    (hread : NoReadFails ops.recording offset (readEntry count offset rbuf tmpbuf (s, [])))
    (hwrite : NoWriteFails ops.recording offset (writeEntry count offset err wbuf tmpbuf (s, [])))
    (hcount : 0 < count) (h : OneWindow count offset) :
    SplitsAlike ops count offset err rbuf wbuf tmpbuf s := by
  have hpos := UInt64.lt_iff_toNat_lt.mp hcount
  -- the read is not shortened either
  rw [readEntry, h.adjustLength hpos] at hread
  obtain ⟨rd, hrd, hrdo⟩ := h.opens hpos (readChunk_advances ops) hread
  obtain ⟨wr, hwr, hwro⟩ := h.opens hpos (writeChunk_advances ops) hwrite
  refine ⟨rd, wr, ?_, hwr, hrdo.trans hwro.symm, ?_, ?_, ?_⟩
  · rw [readEntry, h.adjustLength hpos]
    exact hrd
  · rw [hrdo]
    exact ⟨rfl, hpos, rfl⟩
  · rw [hrdo]
    exact List.forall_mem_singleton.mpr h
  · intro bitsize tgt act tok width _ hacc
    rwa [hwro, ← hrdo]

/-- A write that is split like the read opens one area inside a window. -/
theorem SplitsAlike.oneWindow (hcount : 0 < count)
    (h : SplitsAlike ops count offset err rbuf wbuf tmpbuf s) : OneWindow count offset := by
  obtain ⟨rd, wr, -, hwr, heq, -, hwin, -⟩ := h
  -- the write's first segment is the whole range, and it is inside a window
  have hfirst := write_first hcount hwr
  exact hwin _ (heq ▸ List.mem_of_mem_head? hfirst)

/-- **When reads and writes split a transfer the same way.** A read and a write whose area
operations all succeed do so exactly when the range lies in one mebibyte window. -/
theorem transferSplit_iff (ops : CppOps σ α) (count offset : UInt64) (hcount : 0 < count) (err : ℤ)
    (rbuf wbuf tmpbuf : Mem) (s : σ)
    (hread : NoReadFails ops.recording offset (readEntry count offset rbuf tmpbuf (s, [])))
    (hwrite : NoWriteFails ops.recording offset
      (writeEntry count offset err wbuf tmpbuf (s, []))) :
    SplitsAlike ops count offset err rbuf wbuf tmpbuf s ↔ OneWindow count offset :=
  ⟨SplitsAlike.oneWindow hcount, splitsAlike_of_oneWindow hread hwrite hcount⟩

/-- A library with the checks of `nfp_cpp_area_alloc`, `nfp_cpp_area_read` and
`nfp_cpp_area_write`: an area ends within the 40 bits of an address, and an access within its
area. -/
def CppOps.checked : CppOps Unit (UInt64 × UInt64) where
  areaAlloc _ address size s :=
    if address + size > (1 : UInt64) <<< 40 then (none, s) else (some (address, size), s)
  areaAcquire area s := (0, area, s)
  areaRead area offset kernelVaddr length s :=
    if offset + length.toUInt64 > area.2 then (-Errno.EFAULT, kernelVaddr, s)
    else (length.toNat, kernelVaddr, s)
  areaWrite area offset _ length s :=
    if offset + length.toUInt64 > area.2 then (-Errno.EFAULT, s) else (length.toNat, s)
  areaRelease area s := (area, s)
  areaFree _ s := s

/-- A hundred bytes at address eight, in two chunks. -/
theorem transferSplit_iff_small :
    SplitsAlike .checked 100 8 100 0 0 0 () ↔ OneWindow 100 8 :=
  transferSplit_iff .checked 100 8 (by decide) 100 0 0 0 ()
    (Loop.forall_visits_of_passes (n := 8) (by decide +kernel))
    (Loop.forall_visits_of_passes (n := 8) (by decide +kernel))

/-- Two bytes across the first boundary. -/
theorem transferSplit_straddles :
    ¬ ∀ count offset : UInt64, 0 < count →
      NoReadFails CppOps.checked.recording offset (readEntry count offset 0 0 ((), [])) →
      NoWriteFails CppOps.checked.recording offset (writeEntry count offset 0 0 0 ((), [])) →
      SplitsAlike .checked count offset 0 0 0 0 () := by
  intro hall
  have hsplit := hall 2 0xfffff (by decide)
    (Loop.forall_visits_of_passes (n := 8) (by decide +kernel))
    (Loop.forall_visits_of_passes (n := 8) (by decide +kernel))
  exact absurd (hsplit.oneWindow (by decide)) (by decide)

end Agree

end NfpUdpEcho
