import Mathlib.Data.Sum.Basic
import NfpUdpEcho.Server.Transfer
import NfpUdpEcho.Transport.Area

/-!
# Transfers over other buffers

A read and a write of the device server are the same whatever was in their buffers when they
started. The library fills what it reads and looks only at what it is given to write
(`CppOps.Overwrites`); so two transfers that differ in their buffers go through their loops in
lockstep, and agree on what has been read (`ReadTwin`) and on what is written (`WriteTwin`).

`transferBody_refill` is the one place where the body of the loops is taken apart. It asks for a
relation that holds after a segment is opened, after a chunk and after a segment is closed, and for
one between the two results, and the read and the write differ only in what they put there. Opening
and closing a segment look at no buffer (`openSegment_refill`, `endSegment_refill`). A chunk that is
read extends what the two reads have in common (`ReadTwin.chunk`); one that is written is copied
from the payload, which the two writes have in common if the chunk does not leave it
(`pos_add_chunkLen_le`, `agree_chunkBytes`). For that `WriteTwin` keeps that the segment is in what
is left of the payload.
-/

namespace NfpUdpEcho

open ByteMem

variable {σ α : Type}

/-! ### Twins -/

/-- What was in a buffer reaches neither the library nor, when a read succeeds, the reader. -/
structure CppOps.Overwrites (ops : CppOps σ α) : Prop where
  read : ∀ area offset mem mem' length s,
    (ops.areaRead area offset mem length s).1 = (ops.areaRead area offset mem' length s).1 ∧
    (ops.areaRead area offset mem length s).2.2 = (ops.areaRead area offset mem' length s).2.2 ∧
    (0 ≤ (ops.areaRead area offset mem length s).1 →
      Agree length.toNat (ops.areaRead area offset mem length s).2.1
        (ops.areaRead area offset mem' length s).2.1)
  write : ∀ area offset mem mem' length s, Agree length.toNat mem mem' →
    ops.areaWrite area offset mem length s = ops.areaWrite area offset mem' length s

/-- The library is one of these. -/
theorem nfpCppOps_overwrites {δ : Type} (cpp : NfpCpp δ) : (nfpCppOps cpp).Overwrites where
  read area offset mem mem' length w := nfpCppAreaRead_fills cpp area offset mem mem' length w
  write area offset _ _ _ w h := nfpCppAreaWrite_congr cpp area offset w h

/-- How far the segment has come. -/
def TransferPc.pos : TransferPc α → UInt32
  | .segment => 0
  | .chunk _ pos => pos

/-- The same transfer over other buffers. -/
def Transfer.refill (x : Transfer σ α) (buf tmpbuf : Mem) : Transfer σ α :=
  { x with buf := buf, tmpbuf := tmpbuf }

/-- Two results of a write. -/
structure WriteResultTwin (r r' : TransferResult σ) : Prop where
  status : r'.status = r.status
  world : r'.world = r.world

/-- Two results of a read. -/
structure ReadResultTwin (r r' : TransferResult σ) : Prop extends WriteResultTwin r r' where
  buf : ∀ totlen, r.status = .ok totlen → Agree totlen.toNat r.buf r'.buf

/-- A read that fails tells nothing of its buffer. -/
theorem readResultTwin_error (err : ℤ) (buf buf' : Mem) (s : σ) :
    ReadResultTwin ⟨.error err, buf, s⟩ ⟨.error err, buf', s⟩ where
  status := rfl
  world := rfl
  buf _ h := by cases h

/-- Two reads that differ in what was in their buffers: what has been read is the same. -/
structure ReadTwin (x y : Transfer σ α) : Prop where
  buffers : y = x.refill y.buf y.tmpbuf
  total : x.totlen = x.buff
  buf : Agree (x.buff.toNat + x.pc.pos.toNat) x.buf y.buf

/-- Two writes that do: the payload is the same, and the segment is in what is left of it. -/
structure WriteTwin (total : UInt64) (x y : Transfer σ α) : Prop where
  buffers : y = x.refill y.buf y.tmpbuf
  left : x.buff.toNat + x.count.toNat = total.toNat
  curlen : x.curlen.toNat ≤ x.count.toNat
  pos : x.pc.pos.toNat ≤ x.curlen.toNat
  buf : Agree total.toNat x.buf y.buf

variable {ops : CppOps σ α} {cppId : UInt32} {x y : Transfer σ α} {area : α} {pos len : UInt32}
  {buf tmpbuf : Mem} {n : ℕ} {total : UInt64}

/-- A segment is opened over any buffers. -/
theorem openSegment_refill (ops : CppOps σ α) (cppId : UInt32) (x : Transfer σ α)
    (buf tmpbuf : Mem) :
    (∃ area err s, openSegment ops cppId x =
        .inl { x with pc := .chunk area 0, err := err, world := s } ∧
      openSegment ops cppId (x.refill buf tmpbuf) =
        .inl { x.refill buf tmpbuf with pc := .chunk area 0, err := err, world := s }) ∨
    ∃ err s, openSegment ops cppId x = .inr ⟨.error err, x.buf, s⟩ ∧
      openSegment ops cppId (x.refill buf tmpbuf) = .inr ⟨.error err, buf, s⟩ := by
  -- the library is asked for the same area, whatever the buffers are
  cases halloc : ops.areaAlloc cppId x.nfpOffset x.curlen x.world with
  | mk area s =>
    cases area with
    | none => exact .inr ⟨_, _, openSegment_none halloc, openSegment_none halloc⟩
    | some area =>
      by_cases hacq : (ops.areaAcquire area s).1 < 0
      · exact .inr ⟨_, _, openSegment_refused halloc hacq, openSegment_refused halloc hacq⟩
      · have hacq' := not_lt.mp hacq
        exact .inl ⟨_, _, _, openSegment_acquired halloc hacq', openSegment_acquired halloc hacq'⟩

/-- The state behind a segment that has been closed. -/
def Transfer.closed (ops : CppOps σ α) (area : α) (pos : UInt32) (x : Transfer σ α) :
    Transfer σ α :=
  { x with
    pc := .segment
    nfpOffset := x.nfpOffset + pos.toUInt64
    totlen := x.totlen + pos.toUInt64
    buff := x.buff + pos.toUInt64
    count := x.count - pos.toUInt64
    curlen := if x.count - pos.toUInt64 > memioBoundary then memioBoundary
      else x.count - pos.toUInt64
    world := ops.areaFree (ops.areaRelease area x.world).1 (ops.areaRelease area x.world).2 }

/-- A segment is closed over any buffers. -/
theorem endSegment_refill (ops : CppOps σ α) (area : α) (pos : UInt32) (x : Transfer σ α)
    (buf tmpbuf : Mem) :
    (endSegment ops area pos x = .inl (x.closed ops area pos) ∧
      endSegment ops area pos (x.refill buf tmpbuf) =
        .inl ((x.closed ops area pos).refill buf tmpbuf)) ∨
    ∃ err s, endSegment ops area pos x = .inr ⟨.error err, x.buf, s⟩ ∧
      endSegment ops area pos (x.refill buf tmpbuf) = .inr ⟨.error err, buf, s⟩ := by
  by_cases herr : x.err < 0
  · exact .inr ⟨_, _, endSegment_failed herr, endSegment_failed (x := x.refill buf tmpbuf) herr⟩
  · have herr' := not_lt.mp herr
    exact .inl ⟨endSegment_done herr', endSegment_done (x := x.refill buf tmpbuf) herr'⟩

/-- The buffer's cursor moves on by the length of the segment at most. -/
theorem toNat_buff_closed_le (ops : CppOps σ α) (area : α) (pos : UInt32) (x : Transfer σ α) :
    (x.closed ops area pos).buff.toNat ≤ x.buff.toNat + pos.toNat := by
  have hbuff : (x.closed ops area pos).buff = x.buff + pos.toUInt64 := rfl
  rw [hbuff, UInt64.toNat_add, UInt32.toNat_toUInt64]
  exact Nat.mod_le _ _

/-- A chunk that is read over any buffers. -/
theorem ReadTwin.chunk (hops : ops.Overwrites)
    (htotal : x.totlen = x.buff) (hbuf : Agree (x.buff.toNat + pos.toNat) x.buf buf) :
    Sum.LiftRel ReadTwin ReadResultTwin (readChunk ops area pos len x)
      (readChunk ops area pos len (x.refill buf tmpbuf)) := by
  obtain ⟨herr, hworld, hfill⟩ := hops.read area pos.toUInt64 x.tmpbuf tmpbuf len x.world
  by_cases hneg : (ops.areaRead area pos.toUInt64 x.tmpbuf len x.world).1 < 0
  · -- the segment is closed with the error
    have hneg' := herr ▸ hneg
    rw [readChunk_failed hneg, endSegment_failed hneg, readChunk_failed (by exact hneg'),
      endSegment_failed (by exact hneg')]
    dsimp only [Transfer.refill]
    rw [← herr, ← hworld]
    exact .inr (readResultTwin_error _ _ _ _)
  -- the library has filled both buffers with the same bytes
  · have hok := not_lt.mp hneg
    have hok' := herr ▸ hok
    rw [readChunk_done hok, readChunk_done (by exact hok')]
    dsimp only [Transfer.refill]
    rw [← herr, ← hworld]
    -- the chunk extends what has been read
    have hread := hbuf.copy (hfill hok)
    refine .inl ⟨rfl, htotal, hread.mono ?_⟩
    have hsum : (pos + len).toNat ≤ pos.toNat + len.toNat := by
      rw [UInt32.toNat_add]
      exact Nat.mod_le _ _
    show x.buff.toNat + (pos + len).toNat ≤ _
    omega

/-- **The loops go the same way over any buffers**, when the chunks do. -/
theorem transferBody_refill {R : Transfer σ α → Transfer σ α → Prop}
    {S : TransferResult σ → TransferResult σ → Prop} {access : ChunkAccess σ α}
    (h_open : x.pc = .segment → ∀ area err s,
      R { x with pc := .chunk area 0, err := err, world := s }
        { x.refill buf tmpbuf with pc := .chunk area 0, err := err, world := s })
    (h_chunk : ∀ area pos, x.pc = .chunk area pos → pos.toNat < x.curlen.toNat →
      Sum.LiftRel R S (access area pos (chunkLen x.curlen pos) x)
        (access area pos (chunkLen x.curlen pos) (x.refill buf tmpbuf)))
    (h_close : ∀ area pos, x.pc = .chunk area pos →
      R (x.closed ops area pos) ((x.closed ops area pos).refill buf tmpbuf))
    (h_done : x.pc = .segment →
      S ⟨.ok x.totlen, x.buf, x.world⟩ ⟨.ok x.totlen, buf, x.world⟩)
    (h_error : ∀ err s, S ⟨.error err, x.buf, s⟩ ⟨.error err, buf, s⟩) :
    Sum.LiftRel R S (transferBody ops access cppId x)
      (transferBody ops access cppId (x.refill buf tmpbuf)) := by
  have hpc' : (x.refill buf tmpbuf).pc = x.pc := rfl
  unfold transferBody
  rw [hpc']
  cases hpc : x.pc with
  -- at the head of the outer loop: another segment, or the end
  | segment =>
    dsimp only
    by_cases hcount : x.count > 0
    · rw [if_pos hcount, if_pos (show (x.refill buf tmpbuf).count > 0 from hcount)]
      rcases openSegment_refill ops cppId x buf tmpbuf with
        ⟨area, err, s, hx, hy⟩ | ⟨err, s, hx, hy⟩
      · rw [hx, hy]
        exact .inl (h_open hpc area err s)
      · rw [hx, hy]
        exact .inr (h_error err s)
    · rw [if_neg hcount, if_neg (show ¬(x.refill buf tmpbuf).count > 0 from hcount)]
      exact .inr (h_done hpc)
  -- at the head of the inner one: another chunk, or the end of the segment
  | chunk area pos =>
    dsimp only
    by_cases hlt : pos.toUInt64 < x.curlen
    · rw [if_pos hlt, if_pos (show pos.toUInt64 < (x.refill buf tmpbuf).curlen from hlt)]
      rw [UInt64.lt_iff_toNat_lt, UInt32.toNat_toUInt64] at hlt
      exact h_chunk area pos hpc hlt
    · rw [if_neg hlt, if_neg (show ¬pos.toUInt64 < (x.refill buf tmpbuf).curlen from hlt)]
      rcases endSegment_refill ops area pos x buf tmpbuf with ⟨hx, hy⟩ | ⟨err, s, hx, hy⟩
      · rw [hx, hy]
        exact .inl (h_close area pos hpc)
      · rw [hx, hy]
        exact .inr (h_error err s)

/-- **One iteration of a read.** -/
theorem ReadTwin.step (hops : ops.Overwrites) (h : ReadTwin x y) :
    Sum.LiftRel ReadTwin ReadResultTwin (transferBody ops (readChunk ops) cppId x)
      (transferBody ops (readChunk ops) cppId y) := by
  obtain ⟨hbuffers, htotal, hbuf⟩ := h
  generalize y.buf = buf at hbuffers hbuf
  generalize y.tmpbuf = tmpbuf at hbuffers
  subst hbuffers
  refine transferBody_refill (fun hpc area err s => ?_) (fun area pos hpc _ => ?_)
    (fun area pos hpc => ?_) (fun hpc => ?_) fun err s => readResultTwin_error err _ _ s
  · rw [hpc] at hbuf
    -- the segment starts where the one before has ended
    exact ⟨rfl, htotal, hbuf⟩
  · rw [hpc] at hbuf
    -- the chunk fills what is behind
    exact ReadTwin.chunk hops htotal hbuf
  · rw [hpc] at hbuf
    -- `buff` and `totlen` move on by the same
    refine ⟨rfl, congrArg (· + pos.toUInt64) htotal, ?_⟩
    exact hbuf.mono (toNat_buff_closed_le ops area pos x)
  · -- what is sent is what has been read
    rw [hpc] at hbuf
    refine ⟨⟨rfl, rfl⟩, fun totlen htotlen => ?_⟩
    rw [← Except.ok.inj htotlen, htotal]
    exact hbuf

/-- A chunk ends in its segment, also when the difference is cut. -/
theorem pos_add_chunkLen_le {curlen : UInt64} (hlt : pos.toNat < curlen.toNat) :
    pos.toNat + (chunkLen curlen pos).toNat ≤ curlen.toNat := by
  have hle : pos.toUInt64 ≤ curlen := by
    rw [UInt64.le_iff_toNat_le, UInt32.toNat_toUInt64]
    exact hlt.le
  -- `len` has 32 bits, and the rest of the segment may have more
  have hcut : (curlen - pos.toUInt64).toUInt32.toNat ≤ curlen.toNat - pos.toNat := by
    rw [UInt64.toNat_toUInt32, UInt64.toNat_sub_of_le _ _ hle, UInt32.toNat_toUInt64]
    exact Nat.mod_le _ _
  unfold chunkLen
  dsimp only
  split
  next hlong =>
    rw [gt_iff_lt, UInt32.lt_iff_toNat_lt] at hlong
    omega
  next => omega

/-- A chunk of the payload is the same in both writes. -/
theorem agree_chunkBytes (h : Agree n x.buf buf)
    (hle : x.buff.toNat + pos.toNat + len.toNat ≤ n) :
    Agree len.toNat (chunkBytes x pos len) (chunkBytes (x.refill buf tmpbuf) pos len) := by
  intro k hk
  have hx : chunkBytes x pos len (0 + k) = x.buf (x.buff.toNat + pos.toNat + k) :=
    Mem.copy_of_lt _ _ hk
  have hy : chunkBytes (x.refill buf tmpbuf) pos len (0 + k) = buf (x.buff.toNat + pos.toNat + k) :=
    Mem.copy_of_lt _ _ hk
  rw [Nat.zero_add] at hx hy
  calc chunkBytes x pos len k = x.buf (x.buff.toNat + pos.toNat + k) := hx
    _ = buf (x.buff.toNat + pos.toNat + k) := h _ (by omega)
    _ = chunkBytes (x.refill buf tmpbuf) pos len k := hy.symm

/-- A chunk that is written over any buffers. -/
theorem writeChunk_refill (hops : ops.Overwrites) (area : α)
    (h : Agree len.toNat (chunkBytes x pos len) (chunkBytes (x.refill buf tmpbuf) pos len)) :
    (∃ err s, writeChunk ops area pos len x = .inl { x with
          pc := .chunk area (pos + len)
          err := err
          tmpbuf := chunkBytes x pos len
          world := s } ∧
      writeChunk ops area pos len (x.refill buf tmpbuf) = .inl { x.refill buf tmpbuf with
          pc := .chunk area (pos + len)
          err := err
          tmpbuf := chunkBytes (x.refill buf tmpbuf) pos len
          world := s }) ∨
    ∃ err s, writeChunk ops area pos len x = .inr ⟨.error err, x.buf, s⟩ ∧
      writeChunk ops area pos len (x.refill buf tmpbuf) = .inr ⟨.error err, buf, s⟩ := by
  -- the same bytes, and hence the same answer of the library
  have hwrite := hops.write area pos.toUInt64 _ _ len x.world h
  by_cases hneg : (ops.areaWrite area pos.toUInt64 (chunkBytes x pos len) len x.world).1 < 0
  · refine .inr ⟨_, _, writeChunk_failed hneg, ?_⟩
    rw [hwrite] at hneg ⊢
    exact writeChunk_failed (x := x.refill buf tmpbuf) hneg
  · have hok := not_lt.mp hneg
    refine .inl ⟨_, _, writeChunk_done hok, ?_⟩
    rw [hwrite] at hok ⊢
    exact writeChunk_done (x := x.refill buf tmpbuf) hok

/-- The position stays in the segment. -/
theorem WriteTwin.chunk (hops : ops.Overwrites) (h : WriteTwin total x (x.refill buf tmpbuf))
    (hlt : pos.toNat < x.curlen.toNat) :
    Sum.LiftRel (WriteTwin total) WriteResultTwin
      (writeChunk ops area pos (chunkLen x.curlen pos) x)
      (writeChunk ops area pos (chunkLen x.curlen pos) (x.refill buf tmpbuf)) := by
  have hin := pos_add_chunkLen_le hlt
  have hleft := h.left
  have hcurlen := h.curlen
  have hbytes : Agree (chunkLen x.curlen pos).toNat (chunkBytes x pos (chunkLen x.curlen pos))
      (chunkBytes (x.refill buf tmpbuf) pos (chunkLen x.curlen pos)) :=
    agree_chunkBytes h.buf (by omega)
  rcases writeChunk_refill hops area hbytes with ⟨err, s, hx, hy⟩ | ⟨err, s, hx, hy⟩
  · rw [hx, hy]
    refine .inl ⟨rfl, h.left, h.curlen, ?_, h.buf⟩
    show (pos + chunkLen x.curlen pos).toNat ≤ x.curlen.toNat
    rw [UInt32.toNat_add]
    exact (Nat.mod_le _ _).trans hin
  · rw [hx, hy]
    exact .inr ⟨rfl, rfl⟩

/-- The next segment is in what is left, too. -/
theorem WriteTwin.closed (h : WriteTwin total x (x.refill buf tmpbuf))
    (hpc : x.pc = .chunk area pos) :
    WriteTwin total (x.closed ops area pos) ((x.closed ops area pos).refill buf tmpbuf) := by
  have hpos := h.pos
  rw [hpc, TransferPc.pos] at hpos
  have hcurlen := h.curlen
  have hleft := h.left
  have hlt := total.toNat_lt
  -- `count` does not go below zero, nor `buff` beyond the payload
  have hle : pos.toUInt64 ≤ x.count := by
    rw [UInt64.le_iff_toNat_le, UInt32.toNat_toUInt64]
    exact hpos.trans hcurlen
  have hbuff : (x.buff + pos.toUInt64).toNat = x.buff.toNat + pos.toNat := by
    rw [UInt64.toNat_add, UInt32.toNat_toUInt64, Nat.mod_eq_of_lt (by omega)]
  have hcount : (x.count - pos.toUInt64).toNat = x.count.toNat - pos.toNat := by
    rw [UInt64.toNat_sub_of_le _ _ hle, UInt32.toNat_toUInt64]
  refine ⟨rfl, ?_, ?_, Nat.zero_le _, h.buf⟩
  · show (x.buff + pos.toUInt64).toNat + (x.count - pos.toUInt64).toNat = total.toNat
    omega
  -- a segment is as long as what is left, or shorter
  · show (if x.count - pos.toUInt64 > memioBoundary then memioBoundary
      else x.count - pos.toUInt64).toNat ≤ (x.count - pos.toUInt64).toNat
    split
    next hlong => exact (UInt64.lt_iff_toNat_lt.mp hlong).le
    next => exact le_rfl

/-- **One iteration of a write.** -/
theorem WriteTwin.step (hops : ops.Overwrites) (h : WriteTwin total x y) :
    Sum.LiftRel (WriteTwin total) WriteResultTwin (transferBody ops (writeChunk ops) cppId x)
      (transferBody ops (writeChunk ops) cppId y) := by
  have hbuffers := h.buffers
  generalize y.buf = buf at hbuffers
  generalize y.tmpbuf = tmpbuf at hbuffers
  subst hbuffers
  refine transferBody_refill (fun _ area err s => ?_) (fun area pos _ hlt => ?_)
    (fun area pos hpc => ?_) (fun _ => ⟨rfl, rfl⟩) fun _ _ => ⟨rfl, rfl⟩
  -- a segment is opened at its first byte
  · exact ⟨rfl, h.left, h.curlen, Nat.zero_le _, h.buf⟩
  · exact h.chunk hops hlt
  · exact h.closed hpc

end NfpUdpEcho
