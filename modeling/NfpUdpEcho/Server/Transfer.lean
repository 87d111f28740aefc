import Mathlib.Data.Nat.Bitwise
import NfpUdpEcho.Errno
import NfpUdpEcho.Framework.ByteMem
import NfpUdpEcho.Framework.Loop
import NfpUdpEcho.Framework.Tiling
import NfpUdpEcho.Transport.Bar

/-!
# Reads and writes of the device server

`nfp_cpp_dev_read` and `nfp_cpp_dev_write` (`user/nfpcore/nfp_cpp_dev_ops.c`) carry out a
transfer segment by segment: each segment is a CPP area that is opened, accessed in chunks of
at most 64 bytes and closed. The two functions are near copies, so the loop is one body with
the access of a chunk as a parameter. They are generic in the CPP library; what they send to
the client is the status here, and the bytes are left in `buf`.

The read shortens its first segment to the next boundary of a mebibyte. The write computes
the same length and then overwrites it with `count`, so its first segment is the whole range.
-/

namespace NfpUdpEcho

open ByteMem Tiling

/-- The functions of the CPP library that the device server calls, on areas `α` and a state
`σ` of the library and the device. -/
structure CppOps (σ α : Type) where
  areaAlloc (dest : UInt32) (address size : UInt64) : σ → Option α × σ
  areaAcquire : α → σ → ℤ × α × σ
  areaRead (area : α) (offset : UInt64) (kernelVaddr : Mem) (length : UInt32) : σ → ℤ × Mem × σ
  areaWrite (area : α) (offset : UInt64) (kernelVaddr : Mem) (length : UInt32) : σ → ℤ × σ
  areaRelease : α → σ → α × σ
  areaFree : α → σ → σ

/-- Which of the two nested loops a transfer is at the head of. -/
inductive TransferPc (α : Type) where
  | segment
  | chunk (area : α) (pos : UInt32)

/-- The variables of `nfp_cpp_dev_read` and `nfp_cpp_dev_write`; `buff` is an offset into
`buf`. -/
structure Transfer (σ α : Type) where
  pc : TransferPc α
  nfpOffset : UInt64
  count : UInt64
  curlen : UInt64
  totlen : UInt64
  buff : UInt64
  err : ℤ
  buf : Mem
  tmpbuf : Mem
  world : σ

/-- The status sent to the client, an error or `totlen`, with the buffer and the library. -/
structure TransferResult (σ : Type) where
  status : Except ℤ UInt64
  buf : Mem
  world : σ

def memioBoundary : UInt64 := (1 : UInt64) <<< 20

/-- `sizeof(tmpbuf)`. -/
def tmpbufSize : UInt32 := 64

variable {σ α : Type}

/-- The head of the loop over the segments. -/
def openSegment (ops : CppOps σ α) (cppId : UInt32) (x : Transfer σ α) :
    Transfer σ α ⊕ TransferResult σ :=
  match ops.areaAlloc cppId x.nfpOffset x.curlen x.world with
  | (none, s) => .inr ⟨.error (- Errno.EIO), x.buf, s⟩
  | (some area, s) =>
    let (err, area, s) := ops.areaAcquire area s
    if err < 0 then .inr ⟨.error (- Errno.EIO), x.buf, ops.areaFree area s⟩
    else .inl { x with pc := .chunk area 0, err := err, world := s }

/-- The code after the loop over the chunks. -/
def endSegment (ops : CppOps σ α) (area : α) (pos : UInt32) (x : Transfer σ α) :
    Transfer σ α ⊕ TransferResult σ :=
  let (area, s) := ops.areaRelease area x.world
  let s := ops.areaFree area s
  if x.err < 0 then .inr ⟨.error x.err, x.buf, s⟩
  else
    let count := x.count - pos.toUInt64
    .inl { x with
      pc := .segment
      nfpOffset := x.nfpOffset + pos.toUInt64
      totlen := x.totlen + pos.toUInt64
      buff := x.buff + pos.toUInt64
      count := count
      curlen := if count > memioBoundary then memioBoundary else count
      world := s }

/-- The length of the chunk at `pos`: the difference is cut to the 32 bits of `len`. -/
def chunkLen (curlen : UInt64) (pos : UInt32) : UInt32 :=
  let len := (curlen - pos.toUInt64).toUInt32
  if len > tmpbufSize then tmpbufSize else len

/-- The access of a chunk: on to the next one, or out of the loop. -/
abbrev ChunkAccess (σ α : Type) :=
  α → UInt32 → UInt32 → Transfer σ α → Transfer σ α ⊕ TransferResult σ

/-- The two loops. -/
def transferBody (ops : CppOps σ α) (access : ChunkAccess σ α) (cppId : UInt32)
    (x : Transfer σ α) : Transfer σ α ⊕ TransferResult σ :=
  match x.pc with
  | .segment =>
    if x.count > 0 then openSegment ops cppId x else .inr ⟨.ok x.totlen, x.buf, x.world⟩
  | .chunk area pos =>
    if pos.toUInt64 < x.curlen then access area pos (chunkLen x.curlen pos) x
    else endSegment ops area pos x

/-- A chunk of a read; an error breaks off the segment. -/
def readChunk (ops : CppOps σ α) : ChunkAccess σ α := fun area pos len x =>
  let (err, tmpbuf, s) := ops.areaRead area pos.toUInt64 x.tmpbuf len x.world
  if err < 0 then endSegment ops area pos { x with err := err, tmpbuf := tmpbuf, world := s }
  else
    .inl { x with
      pc := .chunk area (pos + len)
      err := err
      buf := x.buf.copy (x.buff.toNat + pos.toNat) tmpbuf 0 len.toNat
      tmpbuf := tmpbuf
      world := s }

/-- A chunk of a write; an error closes the area and gives up. -/
def writeChunk (ops : CppOps σ α) : ChunkAccess σ α := fun area pos len x =>
  let tmpbuf := x.tmpbuf.copy 0 x.buf (x.buff.toNat + pos.toNat) len.toNat
  let (err, s) := ops.areaWrite area pos.toUInt64 tmpbuf len x.world
  if err < 0 then
    let (area, s) := ops.areaRelease area s
    .inr ⟨.error (- Errno.EIO), x.buf, ops.areaFree area s⟩
  else .inl { x with pc := .chunk area (pos + len), err := err, tmpbuf := tmpbuf, world := s }

/-- The CPP id in a file offset. -/
def offsetCppId (offset : UInt64) : UInt32 := ((offset >>> 40) <<< 8).toUInt32

/-- The address in a file offset. -/
def offsetAddress (offset : UInt64) : UInt64 := offset &&& (((1 : UInt64) <<< 40) - 1)

/-- "Adjust length if not aligned". -/
def adjustLength (nfpOffset count curlen : UInt64) : UInt64 :=
  if (nfpOffset + count - 1) &&& ~~~(memioBoundary - 1) ≠ nfpOffset &&& ~~~(memioBoundary - 1) then
    memioBoundary - (nfpOffset &&& (memioBoundary - 1))
  else curlen

/-- The state in which the loops are entered. -/
def transferEntry (count offset curlen : UInt64) (err : ℤ) (buf tmpbuf : Mem) (s : σ) :
    Transfer σ α :=
  ⟨.segment, offsetAddress offset, count, curlen, 0, 0, err, buf, tmpbuf, s⟩

/-- `nfp_cpp_dev_read` up to the loops. -/
def readEntry (count offset : UInt64) (buf tmpbuf : Mem) (s : σ) : Transfer σ α :=
  transferEntry count offset (adjustLength (offsetAddress offset) count count) 0 buf tmpbuf s

/-- `nfp_cpp_dev_write` once it has the payload in `buf`, up to the loops; `err` is what the
last read of the payload returned. -/
def writeEntry (count offset : UInt64) (err : ℤ) (buf tmpbuf : Mem) (s : σ) : Transfer σ α :=
  let _curlen := adjustLength (offsetAddress offset) count count
  -- `curlen = count;` undoes the adjustment
  let curlen := count
  transferEntry count offset curlen err buf tmpbuf s

/-- The loops of `nfp_cpp_dev_read`. -/
def devRead (ops : CppOps σ α) (offset : UInt64) : Transfer σ α → Transfer σ α ⊕ TransferResult σ :=
  transferBody ops (readChunk ops) (offsetCppId offset)

/-- The loops of `nfp_cpp_dev_write`. -/
def devWrite (ops : CppOps σ α) (offset : UInt64) :
    Transfer σ α → Transfer σ α ⊕ TransferResult σ :=
  transferBody ops (writeChunk ops) (offsetCppId offset)

/-! ### Whether the operations succeed -/

/-- The area operations of the next iteration succeed; `accessOk` is for the access of a chunk. -/
def iterationOk (ops : CppOps σ α) (accessOk : α → UInt32 → UInt32 → Transfer σ α → Bool)
    (cppId : UInt32) (x : Transfer σ α) : Bool :=
  match x.pc with
  | .segment =>
    x.count = 0 ||
      match ops.areaAlloc cppId x.nfpOffset x.curlen x.world with
      | (none, _) => false
      | (some area, s) => 0 ≤ (ops.areaAcquire area s).1
  | .chunk area pos => x.curlen ≤ pos.toUInt64 || accessOk area pos (chunkLen x.curlen pos) x

def readOk (ops : CppOps σ α) (area : α) (pos len : UInt32) (x : Transfer σ α) : Bool :=
  0 ≤ (ops.areaRead area pos.toUInt64 x.tmpbuf len x.world).1

/-- What is sent to the device in a chunk. -/
def chunkBytes (x : Transfer σ α) (pos len : UInt32) : Mem :=
  x.tmpbuf.copy 0 x.buf (x.buff.toNat + pos.toNat) len.toNat

def writeOk (ops : CppOps σ α) (area : α) (pos len : UInt32) (x : Transfer σ α) : Bool :=
  0 ≤ (ops.areaWrite area pos.toUInt64 (chunkBytes x pos len) len x.world).1

/-- Every area operation of the read that is entered in `x` succeeds. -/
def NoReadFails (ops : CppOps σ α) (offset : UInt64) (x : Transfer σ α) : Prop :=
  ∀ y, Loop.Visits (devRead ops offset) x y →
    iterationOk ops (readOk ops) (offsetCppId offset) y = true

/-- Every area operation of the write that is entered in `x` succeeds. -/
def NoWriteFails (ops : CppOps σ α) (offset : UInt64) (x : Transfer σ α) : Prop :=
  ∀ y, Loop.Visits (devWrite ops offset) x y →
    iterationOk ops (writeOk ops) (offsetCppId offset) y = true

section Succeed

variable {ops : CppOps σ α} {accessOk : α → UInt32 → UInt32 → Transfer σ α → Bool}
  {cppId : UInt32} {x : Transfer σ α} {area : α} {pos : UInt32}

theorem iterationOk_segment (h : iterationOk ops accessOk cppId x = true)
    (hpc : x.pc = .segment) (hcount : 0 < x.count.toNat) :
    ∃ area s, ops.areaAlloc cppId x.nfpOffset x.curlen x.world = (some area, s) ∧
      0 ≤ (ops.areaAcquire area s).1 := by
  have hne : x.count ≠ 0 := by
    intro hzero
    rw [hzero] at hcount
    exact absurd hcount (by decide)
  simp only [iterationOk, hpc, hne, decide_false, Bool.false_or] at h
  split at h
  next => cases h
  next area s halloc => exact ⟨area, s, halloc, of_decide_eq_true h⟩

theorem iterationOk_chunk (h : iterationOk ops accessOk cppId x = true)
    (hpc : x.pc = .chunk area pos) (hlt : pos.toNat < x.curlen.toNat) :
    accessOk area pos (chunkLen x.curlen pos) x = true := by
  have hnot : ¬x.curlen ≤ pos.toUInt64 := by
    rw [UInt64.le_iff_toNat_le, UInt32.toNat_toUInt64]
    exact not_le.mpr hlt
  simpa only [iterationOk, hpc, hnot, decide_false, Bool.false_or] using h

end Succeed

/-! ### What an iteration does -/

/-- An iteration opens a segment or ends the loops, accesses a chunk or closes the segment. -/
theorem transferBody_cases (ops : CppOps σ α) (access : ChunkAccess σ α) (cppId : UInt32)
    (x : Transfer σ α) :
    (x.pc = .segment ∧ 0 < x.count.toNat ∧
      transferBody ops access cppId x = openSegment ops cppId x) ∨
    (x.pc = .segment ∧ x.count.toNat = 0 ∧
      transferBody ops access cppId x = .inr ⟨.ok x.totlen, x.buf, x.world⟩) ∨
    (∃ area pos, x.pc = .chunk area pos ∧ pos.toNat < x.curlen.toNat ∧
      transferBody ops access cppId x = access area pos (chunkLen x.curlen pos) x) ∨
    ∃ area pos, x.pc = .chunk area pos ∧ x.curlen.toNat ≤ pos.toNat ∧
      transferBody ops access cppId x = endSegment ops area pos x := by
  unfold transferBody
  cases hpc : x.pc with
  | segment =>
    by_cases hleft : x.count > 0
    · exact .inl ⟨rfl, UInt64.lt_iff_toNat_lt.mp hleft, if_pos hleft⟩
    · refine .inr (.inl ⟨rfl, ?_, if_neg hleft⟩)
      rw [gt_iff_lt, UInt64.lt_iff_toNat_lt] at hleft
      exact Nat.eq_zero_of_not_pos hleft
  | chunk area pos =>
    have hiff : pos.toUInt64 < x.curlen ↔ pos.toNat < x.curlen.toNat := by
      rw [UInt64.lt_iff_toNat_lt, UInt32.toNat_toUInt64]
    by_cases hlt : pos.toUInt64 < x.curlen
    · exact .inr (.inr (.inl ⟨area, pos, rfl, hiff.mp hlt, if_pos hlt⟩))
    · exact .inr (.inr (.inr ⟨area, pos, rfl, not_lt.mp (hiff.not.mp hlt), if_neg hlt⟩))

/-! ### Opening a segment, by its outcome -/

section Open

variable {ops : CppOps σ α} {cppId : UInt32} {x : Transfer σ α} {area : α} {s : σ}

theorem openSegment_none (h : ops.areaAlloc cppId x.nfpOffset x.curlen x.world = (none, s)) :
    openSegment ops cppId x = .inr ⟨.error (- Errno.EIO), x.buf, s⟩ := by
  rw [openSegment, h]

theorem openSegment_refused
    (h : ops.areaAlloc cppId x.nfpOffset x.curlen x.world = (some area, s))
    (hacq : (ops.areaAcquire area s).1 < 0) :
    openSegment ops cppId x = .inr ⟨.error (- Errno.EIO), x.buf,
      ops.areaFree (ops.areaAcquire area s).2.1 (ops.areaAcquire area s).2.2⟩ := by
  rw [openSegment, h]
  exact if_pos hacq

theorem openSegment_acquired
    (h : ops.areaAlloc cppId x.nfpOffset x.curlen x.world = (some area, s))
    (hacq : 0 ≤ (ops.areaAcquire area s).1) :
    openSegment ops cppId x = .inl { x with
      pc := .chunk (ops.areaAcquire area s).2.1 0
      err := (ops.areaAcquire area s).1
      world := (ops.areaAcquire area s).2.2 } := by
  rw [openSegment, h]
  exact if_neg (not_lt.mpr hacq)

end Open

/-! ### A chunk and the end of a segment, by their outcome -/

section Chunk

variable {ops : CppOps σ α} {x : Transfer σ α} {area : α} {pos len : UInt32}

theorem endSegment_failed (h : x.err < 0) :
    endSegment ops area pos x = .inr ⟨.error x.err, x.buf,
      ops.areaFree (ops.areaRelease area x.world).1 (ops.areaRelease area x.world).2⟩ := by
  rw [endSegment]
  exact if_pos h

theorem endSegment_done (h : 0 ≤ x.err) :
    endSegment ops area pos x = .inl { x with
      pc := .segment
      nfpOffset := x.nfpOffset + pos.toUInt64
      totlen := x.totlen + pos.toUInt64
      buff := x.buff + pos.toUInt64
      count := x.count - pos.toUInt64
      curlen := if x.count - pos.toUInt64 > memioBoundary then memioBoundary
        else x.count - pos.toUInt64
      world := ops.areaFree (ops.areaRelease area x.world).1
        (ops.areaRelease area x.world).2 } := by
  rw [endSegment]
  exact if_neg (not_lt.mpr h)

theorem readChunk_failed (h : (ops.areaRead area pos.toUInt64 x.tmpbuf len x.world).1 < 0) :
    readChunk ops area pos len x = endSegment ops area pos { x with
      err := (ops.areaRead area pos.toUInt64 x.tmpbuf len x.world).1
      tmpbuf := (ops.areaRead area pos.toUInt64 x.tmpbuf len x.world).2.1
      world := (ops.areaRead area pos.toUInt64 x.tmpbuf len x.world).2.2 } := by
  rw [readChunk]
  exact if_pos h

theorem readChunk_done (h : 0 ≤ (ops.areaRead area pos.toUInt64 x.tmpbuf len x.world).1) :
    readChunk ops area pos len x = .inl { x with
      pc := .chunk area (pos + len)
      err := (ops.areaRead area pos.toUInt64 x.tmpbuf len x.world).1
      buf := x.buf.copy (x.buff.toNat + pos.toNat)
        (ops.areaRead area pos.toUInt64 x.tmpbuf len x.world).2.1 0 len.toNat
      tmpbuf := (ops.areaRead area pos.toUInt64 x.tmpbuf len x.world).2.1
      world := (ops.areaRead area pos.toUInt64 x.tmpbuf len x.world).2.2 } := by
  rw [readChunk]
  exact if_neg (not_lt.mpr h)

theorem writeChunk_failed
    (h : (ops.areaWrite area pos.toUInt64 (chunkBytes x pos len) len x.world).1 < 0) :
    writeChunk ops area pos len x = .inr ⟨.error (- Errno.EIO), x.buf,
      ops.areaFree
        (ops.areaRelease area
          (ops.areaWrite area pos.toUInt64 (chunkBytes x pos len) len x.world).2).1
        (ops.areaRelease area
          (ops.areaWrite area pos.toUInt64 (chunkBytes x pos len) len x.world).2).2⟩ :=
  if_pos h

theorem writeChunk_done
    (h : 0 ≤ (ops.areaWrite area pos.toUInt64 (chunkBytes x pos len) len x.world).1) :
    writeChunk ops area pos len x = .inl { x with
      pc := .chunk area (pos + len)
      err := (ops.areaWrite area pos.toUInt64 (chunkBytes x pos len) len x.world).1
      tmpbuf := chunkBytes x pos len
      world := (ops.areaWrite area pos.toUInt64 (chunkBytes x pos len) len x.world).2 } := by
  rw [writeChunk]
  exact if_neg (not_lt.mpr h)

end Chunk

end NfpUdpEcho
