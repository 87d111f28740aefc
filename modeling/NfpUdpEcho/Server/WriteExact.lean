import NfpUdpEcho.Server.ReadExact

/-!
# The write loop on plain memory

Where an access that succeeds is one to plain memory, a write of fewer than `2 ^ 32` bytes none
of whose operations fails stores exactly its payload (`devWrite_exact`). From there on such a
write never ends: its first segment is the whole range, and the position in a segment has 32
bits (`devWrite_diverges`).

The cursors are those of the read (`WriteExactInv`), with the device in the place of the buffer:
what is done of the payload is what is on the device.

An iteration opens a segment, moves one chunk or closes the segment, and each of the three has its
lemma from `WriteExactInv` to `WriteExactStep`: the invariant again with less left to do, or the
answer. `WriteExactInv.step` puts them together, and `Loop.exists_returns_visits` turns the step
into the run. The bound on the count keeps the 32-bit position in step with the 64-bit cursors
(`chunkLen_spec`), and the bound of an address keeps `offset` from wrapping (`offsetAddress_lt`).

The two other parts need no invariant on the memory. `Endless` is kept by every iteration that
succeeds, for a read as for a write, so that both use `Endless.diverges`. `OnlyEIO` says of every
iteration, whether it succeeds or not, that the only error it can send is `EIO`.
-/

namespace NfpUdpEcho

open Duplex ByteMem LittleEndian

variable {σ α : Type}

/-- An access that succeeds is exactly one to the memory of the device. -/
structure CppOps.Plain (ops : CppOps σ α) (place : α → UInt32 × UInt64)
    (mem : σ → UInt32 → Mem) : Prop where
  accesses : ops.Accesses place mem
  write_mem : ∀ area offset kernelVaddr length s,
    0 ≤ (ops.areaWrite area offset kernelVaddr length s).1 →
    mem (ops.areaWrite area offset kernelVaddr length s).2 =
      Function.update (mem s) (place area).1 ((mem s (place area).1).copy
        ((place area).2.toNat + offset.toNat) kernelVaddr 0 length.toNat)

/-- The device once the first `n` bytes of `buf` are written to the range of `offset`. -/
def written (memory : UInt32 → Mem) (offset : UInt64) (buf : Mem) (n : ℕ) : UInt32 → Mem :=
  Function.update memory (offsetCppId offset)
    ((memory (offsetCppId offset)).copy (offsetAddress offset).toNat buf 0 n)

/-- Before the first chunk the device is as it was. -/
theorem written_zero (memory : UInt32 → Mem) (offset : UInt64) (buf : Mem) :
    written memory offset buf 0 = memory := by
  unfold written
  rw [Function.update_eq_self_iff]
  funext a
  refine Mem.copy_of_not _ _ ?_
  omega

/-- The next chunk of a write. -/
theorem written_add (memory : UInt32 → Mem) (offset : UInt64) {buf tmpbuf : Mem} {n len : ℕ}
    (htmp : ∀ i < len, tmpbuf i = buf (n + i)) :
    Function.update (written memory offset buf n) (offsetCppId offset)
      ((written memory offset buf n (offsetCppId offset)).copy
        ((offsetAddress offset).toNat + n) tmpbuf 0 len) =
      written memory offset buf (n + len) := by
  unfold written
  rw [Function.update_self, Function.update_idem]
  congr 1
  funext a
  -- the byte is before the chunk, in it, or outside the range
  by_cases hchunk : (offsetAddress offset).toNat + n ≤ a
  · obtain ⟨k, rfl⟩ := Nat.exists_eq_add_of_le hchunk
    by_cases hk : k < len
    -- what `htmp` says
    · rw [Mem.copy_of_lt _ _ hk, Nat.add_assoc, Mem.copy_of_lt _ _ (by omega), Nat.zero_add,
        Nat.zero_add, htmp k hk]
    · rw [Mem.copy_of_not _ _ (by omega), Mem.copy_of_not _ _ (by omega),
        Mem.copy_of_not _ _ (by omega)]
  · rw [Mem.copy_of_not _ _ (by omega)]
    by_cases hlow : (offsetAddress offset).toNat ≤ a
    · obtain ⟨k, rfl⟩ := Nat.exists_eq_add_of_le hlow
      rw [Mem.copy_of_lt _ _ (by omega), Mem.copy_of_lt _ _ (by omega)]
    · rw [Mem.copy_of_not _ _ (by omega), Mem.copy_of_not _ _ (by omega)]

section Exact

variable {ops : CppOps σ α} {place : α → UInt32 × UInt64} {mem : σ → UInt32 → Mem}
  {memory : UInt32 → Mem} {count offset : UInt64} {buf tmpbuf : Mem} {x : Transfer σ α}
  {area : α} {pos : UInt32} {s : σ}

/-- At the head of the inner loop. -/
structure WriteChunkExact (place : α → UInt32 × UInt64) (mem : σ → UInt32 → Mem)
    (memory : UInt32 → Mem) (offset : UInt64) (buf : Mem) (x : Transfer σ α) (area : α)
    (pos : UInt32) : Prop where
  count_pos : 0 < x.count.toNat
  err : 0 ≤ x.err
  pos_le : pos.toNat ≤ x.curlen.toNat
  place : place area = (offsetCppId offset, x.nfpOffset)
  stored : mem x.world = written memory offset buf (x.totlen.toNat + pos.toNat)

/-- What is known at the head of either loop. -/
def WrittenAt (place : α → UInt32 × UInt64) (mem : σ → UInt32 → Mem) (memory : UInt32 → Mem)
    (offset : UInt64) (buf : Mem) (x : Transfer σ α) : TransferPc α → Prop
  | .segment => mem x.world = written memory offset buf x.totlen.toNat
  | .chunk area pos => WriteChunkExact place mem memory offset buf x area pos

/-- The cursors of a write. -/
structure WriteExactInv (place : α → UInt32 × UInt64) (mem : σ → UInt32 → Mem)
    (memory : UInt32 → Mem) (count offset : UInt64) (buf : Mem) (x : Transfer σ α) : Prop where
  total : x.totlen.toNat + x.count.toNat = count.toNat
  buff : x.buff = x.totlen
  nfpOffset : x.nfpOffset.toNat = (offsetAddress offset).toNat + x.totlen.toNat
  curlen : 0 < x.count.toNat → 0 < x.curlen.toNat ∧ x.curlen.toNat ≤ x.count.toNat
  same_buf : x.buf = buf
  at_pc : WrittenAt place mem memory offset buf x x.pc

/-- A write ends with its count, and the payload is on the device. -/
structure WriteExactPost (mem : σ → UInt32 → Mem) (memory : UInt32 → Mem)
    (count offset : UInt64) (buf : Mem) (r : TransferResult σ) : Prop where
  status : r.status = .ok count
  stored : mem r.world = written memory offset buf count.toNat

/-- An iteration that goes on keeps the cursors and has less left; one that ends has the payload on
the device. -/
def WriteExactStep (place : α → UInt32 × UInt64) (mem : σ → UInt32 → Mem)
    (memory : UInt32 → Mem) (count offset : UInt64) (buf : Mem) (x : Transfer σ α) :
    Transfer σ α ⊕ TransferResult σ → Prop
  | .inl y =>
    WriteExactInv place mem memory count offset buf y ∧ transferLeft y < transferLeft x
  | .inr r => WriteExactPost mem memory count offset buf r

/-- A segment is opened for what is left. -/
theorem WriteExactInv.openSegment (hI : WriteExactInv place mem memory count offset buf x)
    (h : ops.Plain place mem)
    (hok : iterationOk ops (writeOk ops) (offsetCppId offset) x = true)
    (hpc : x.pc = .segment) (hcount : 0 < x.count.toNat) :
    WriteExactStep place mem memory count offset buf x
      (openSegment ops (offsetCppId offset) x) := by
  have hat := hI.at_pc
  rw [hpc] at hat
  have hmem := h.accesses.alloc_mem (offsetCppId offset) x.nfpOffset x.curlen x.world
  -- neither the allocation nor the lock has failed
  obtain ⟨area, s, halloc, hacq⟩ := iterationOk_segment hok hpc hcount
  rw [halloc] at hmem
  rw [openSegment_acquired halloc hacq]
  refine ⟨⟨hI.total, hI.buff, hI.nfpOffset, hI.curlen, hI.same_buf, hcount, hacq,
    Nat.zero_le _, ?_, ?_⟩, ?_⟩
  -- the area is one of the range that is left, and getting it writes nothing
  · exact (h.accesses.acquire area s).trans (h.accesses.alloc _ _ _ _ _ _ halloc)
  · exact (h.accesses.acquire_mem area s).trans (hmem.trans hat)
  · exact transferLeft_open hpc rfl rfl

/-- A complete segment is closed, and the cursors move on by its length. -/
theorem WriteExactInv.endSegment (hI : WriteExactInv place mem memory count offset buf x)
    (h : ops.Plain place mem) (hwrap : (offsetAddress offset).toNat + count.toNat < 2 ^ 64)
    (hpc : x.pc = .chunk area pos) (hge : x.curlen.toNat ≤ pos.toNat) :
    WriteExactStep place mem memory count offset buf x (endSegment ops area pos x) := by
  have hat := hI.at_pc
  rw [hpc] at hat
  obtain ⟨hcount, herr, hle, -, hstored⟩ := hat
  obtain ⟨hpos, hcur⟩ := hI.curlen hcount
  -- A segment is left only when `pos` has reached its length.
  have hend : pos.toNat = x.curlen.toNat := Nat.le_antisymm hle hge
  obtain ⟨htotlen, hcount', hoff, hcurlen⟩ := endSegment_cursors hI.total hI.nfpOffset hwrap
    (hend ▸ hcur)
  rw [endSegment_done herr]
  refine ⟨⟨?_, ?_, ?_, ?_, hI.same_buf, ?_⟩, ?_⟩
  · have htotal := hI.total
    dsimp only
    rw [htotlen, hcount']
    omega
  · dsimp only
    rw [hI.buff]
  · dsimp only
    rw [hoff, htotlen, hI.nfpOffset, Nat.add_assoc]
  · exact fun hleft => ⟨(hcurlen hleft).1, (hcurlen hleft).2.1⟩
  -- releasing and freeing the area write nothing
  · show mem _ = written _ _ _ _
    rw [htotlen, h.accesses.free_mem, h.accesses.release_mem]
    exact hstored
  · exact transferLeft_end hpc rfl hcount' (by omega)

/-- The next chunk goes through `tmpbuf` to the device. -/
theorem WriteExactInv.writeChunk (hI : WriteExactInv place mem memory count offset buf x)
    (h : ops.Plain place mem)
    (hok : iterationOk ops (writeOk ops) (offsetCppId offset) x = true)
    (hcount : count.toNat < 2 ^ 32) (hpc : x.pc = .chunk area pos)
    (hlt : pos.toNat < x.curlen.toNat) :
    WriteExactStep place mem memory count offset buf x
      (writeChunk ops area pos (chunkLen x.curlen pos) x) := by
  have hat := hI.at_pc
  rw [hpc] at hat
  obtain ⟨hleft, herr, hle, hplace, hstored⟩ := hat
  obtain ⟨-, hcur⟩ := hI.curlen hleft
  have htotal := hI.total
  obtain ⟨hlen, hsum, hfits⟩ := chunkLen_spec hlt (by omega)
  have hwrite := of_decide_eq_true (iterationOk_chunk hok hpc hlt)
  rw [writeChunk_done hwrite]
  refine ⟨⟨hI.total, hI.buff, hI.nfpOffset, hI.curlen, hI.same_buf, hleft, hwrite, ?_, hplace,
    ?_⟩, ?_⟩
  -- the position stays within the segment
  · rw [hsum]
    exact hfits
  · -- the chunk is the next part of the payload
    -- what is in `tmpbuf` when the access is made
    have hbytes : ∀ i < (chunkLen x.curlen pos).toNat,
        chunkBytes x pos (chunkLen x.curlen pos) i = buf (x.totlen.toNat + pos.toNat + i) := by
      intro i hi
      have hcopy := @Mem.copy_of_lt x.tmpbuf x.buf 0 (x.buff.toNat + pos.toNat) _ i hi
      rw [Nat.zero_add] at hcopy
      rw [chunkBytes, hcopy, hI.same_buf, hI.buff]
    dsimp only
    rw [hsum, h.write_mem _ _ _ _ _ hwrite, hplace, hstored, hI.nfpOffset,
      UInt32.toNat_toUInt64, ← Nat.add_assoc, ← written_add memory offset hbytes,
      Nat.add_assoc (offsetAddress offset).toNat]
  · exact transferLeft_chunk hpc rfl rfl (by omega) (by omega)

/-- **One iteration of a write.** -/
theorem WriteExactInv.step (hI : WriteExactInv place mem memory count offset buf x)
    (h : ops.Plain place mem)
    (hok : iterationOk ops (writeOk ops) (offsetCppId offset) x = true)
    (hcount : count.toNat < 2 ^ 32) :
    WriteExactStep place mem memory count offset buf x (devWrite ops offset x) := by
  have hlt := offsetAddress_lt offset
  have hat := hI.at_pc
  unfold devWrite
  rcases transferBody_cases ops (NfpUdpEcho.writeChunk ops) (offsetCppId offset) x with
    ⟨hpc, hleft, hx⟩ | ⟨hpc, hzero, hx⟩ | ⟨area, pos, hpc, hpos, hx⟩ | ⟨area, pos, hpc, hge, hx⟩
  · rw [hx]
    exact hI.openSegment h hok hpc hleft
  · -- nothing is left, so that all of the count is done
    have hdone : x.totlen.toNat = count.toNat := by
      have htotal := hI.total
      rw [hzero] at htotal
      exact htotal
    rw [hx]
    rw [hpc] at hat
    refine ⟨?_, ?_⟩
    · rw [UInt64.toNat_inj.mp hdone]
    · rw [← hdone]
      exact hat
  · rw [hx]
    exact hI.writeChunk h hok hcount hpc hpos
  · rw [hx]
    exact hI.endSegment h (by omega) hpc hge

/-- **The loops of a write end**, and the payload is on the device. -/
theorem devWrite_exact (h : ops.Plain place mem) (count offset : UInt64)
    (hcount : count.toNat < 2 ^ 32) (err : ℤ) (buf tmpbuf : Mem) (s : σ)
    (hok : NoWriteFails ops offset (writeEntry count offset err buf tmpbuf s)) :
    ∃ r, Loop.Returns (devWrite ops offset) (writeEntry count offset err buf tmpbuf s) r ∧
      WriteExactPost mem (mem s) count offset buf r := by
  have hentry : WriteExactInv place mem (mem s) count offset buf
      (writeEntry count offset err buf tmpbuf s : Transfer σ α) :=
    ⟨Nat.zero_add _, rfl, rfl, fun hpos => ⟨hpos, le_rfl⟩, rfl,
      (written_zero (mem s) offset buf).symm⟩
  refine Loop.exists_returns_visits (WriteExactInv place mem (mem s) count offset buf)
    transferLeft (fun x hvisits hI => ?_) hentry
  exact Loop.elim_of_after (hI.step h (hok x hvisits) hcount) (fun _ h => h) fun _ h => h

end Exact

/-! ### Transfers that never end -/

section Diverges

variable {ops : CppOps σ α} {access : ChunkAccess σ α} {cppId : UInt32} {x : Transfer σ α}
  {accessOk : α → UInt32 → UInt32 → Transfer σ α → Bool}

/-- An access that goes on to the next chunk when it succeeds. -/
def Onward (accessOk : α → UInt32 → UInt32 → Transfer σ α → Bool) (access : ChunkAccess σ α) :
    Prop :=
  ∀ area pos len x, accessOk area pos len x = true →
    ∃ y, access area pos len x = .inl y ∧ y.pc = .chunk area (pos + len) ∧
      y.count = x.count ∧ y.curlen = x.curlen

/-- A chunk that is read is followed by the next one. -/
theorem readChunk_onward (ops : CppOps σ α) : Onward (readOk ops) (readChunk ops) :=
  fun _ _ _ _ hok => ⟨_, readChunk_done (of_decide_eq_true hok), rfl, rfl, rfl⟩

/-- So is one that is written. -/
theorem writeChunk_onward (ops : CppOps σ α) : Onward (writeOk ops) (writeChunk ops) :=
  fun _ _ _ _ hok => ⟨_, writeChunk_done (of_decide_eq_true hok), rfl, rfl, rfl⟩

/-- In a segment that is longer than a position can count, or before it. -/
structure Endless (x : Transfer σ α) : Prop where
  curlen : 2 ^ 32 ≤ x.curlen.toNat
  count : x.pc = .segment → 0 < x.count.toNat

theorem Endless.step (hE : Endless x) (hok : iterationOk ops accessOk cppId x = true)
    (honward : Onward accessOk access) :
    ∃ y, transferBody ops access cppId x = .inl y ∧ Endless y := by
  rcases transferBody_cases ops access cppId x with ⟨hpc, hleft, hx⟩ | ⟨hpc, hzero, -⟩ |
    ⟨area, pos, hpc, hlt, hx⟩ | ⟨area, pos, -, hge, -⟩
  -- the segment is opened, with the length that is left
  · rw [hx]
    obtain ⟨area, s, halloc, hacq⟩ := iterationOk_segment hok hpc hleft
    exact ⟨_, openSegment_acquired halloc hacq, hE.curlen, fun hseg => by cases hseg⟩
  -- there is something left, so that the loop is entered
  · exact absurd hzero (hE.count hpc).ne'
  · rw [hx]
    obtain ⟨y, hy, hypc, -, hcurlen⟩ := honward area pos (chunkLen x.curlen pos) x
      (iterationOk_chunk hok hpc hlt)
    refine ⟨y, hy, ?_, fun hseg => ?_⟩
    · rw [hcurlen]
      exact hE.curlen
    · cases hypc.symm.trans hseg
  · -- the position is never as long as the segment
    exact absurd hge (not_le.mpr (pos.toNat_lt.trans_le hE.curlen))

/-- Kept by every iteration, and none is the last. -/
theorem Endless.diverges (hE : Endless x)
    (hok : ∀ y, Loop.Visits (transferBody ops access cppId) x y →
      iterationOk ops accessOk cppId y = true)
    (honward : Onward accessOk access) (r : TransferResult σ) :
    ¬Loop.Returns (transferBody ops access cppId) x r :=
  Loop.not_returns Endless (fun y hvisits hE => hE.step (hok y hvisits) honward) hE r

/-- **A write of `2 ^ 32` bytes or more never ends** when none of its operations fails. -/
theorem devWrite_diverges {count offset : UInt64} {err : ℤ} {buf tmpbuf : Mem} {s : σ}
    (hok : NoWriteFails ops offset (writeEntry count offset err buf tmpbuf s))
    (hcount : 2 ^ 32 ≤ count.toNat) (r : TransferResult σ) :
    ¬Loop.Returns (devWrite ops offset) (writeEntry count offset err buf tmpbuf s) r := by
  have hentry : Endless (writeEntry count offset err buf tmpbuf s : Transfer σ α) :=
    ⟨hcount, fun _ => lt_of_lt_of_le (by decide) hcount⟩
  exact hentry.diverges hok (writeChunk_onward ops) r

end Diverges

/-! ### The errors of a write -/

section Errors

variable {ops : CppOps σ α} {x : Transfer σ α}

/-- At the head of the inner loop there is no error. -/
def NoError (x : Transfer σ α) : Prop := x.pc = .segment ∨ 0 ≤ x.err

/-- The only error a write sends. -/
def OnlyEIO : Transfer σ α ⊕ TransferResult σ → Prop
  | .inl x => NoError x
  | .inr r => ∀ err, r.status = .error err → err = - Errno.EIO

/-- Every failure of an iteration sends `EIO`. -/
theorem devWrite_errors {offset : UInt64} (h : NoError x) : OnlyEIO (devWrite ops offset x) := by
  unfold devWrite
  rcases transferBody_cases ops (writeChunk ops) (offsetCppId offset) x with
    ⟨-, -, hx⟩ | ⟨-, -, hx⟩ | ⟨area, pos, -, -, hx⟩ | ⟨area, pos, hpc, -, hx⟩
  -- an area that is not given and one that is not locked both end the request
  · rw [hx]
    rcases halloc : ops.areaAlloc (offsetCppId offset) x.nfpOffset x.curlen x.world with
      ⟨_ | area, s⟩
    · rw [openSegment_none halloc]
      exact fun err herr => (Except.error.inj herr).symm
    · rcases lt_or_ge (ops.areaAcquire area s).1 0 with hacq | hacq
      · rw [openSegment_refused halloc hacq]
        exact fun err herr => (Except.error.inj herr).symm
      · rw [openSegment_acquired halloc hacq]
        exact .inr hacq
  · rw [hx]
    exact fun err herr => by cases herr
  · rw [hx]
    rcases lt_or_ge (ops.areaWrite area pos.toUInt64 (chunkBytes x pos (chunkLen x.curlen pos))
        (chunkLen x.curlen pos) x.world).1 0 with hwrite | hwrite
    · rw [writeChunk_failed hwrite]
      exact fun err herr => (Except.error.inj herr).symm
    · rw [writeChunk_done hwrite]
      exact .inr hwrite
  · -- the segment is complete, so that no access of it has failed
    have herr : 0 ≤ x.err := h.resolve_left fun hseg => by cases hpc.symm.trans hseg
    rw [hx, endSegment_done herr]
    exact .inl rfl

/-- A write that ends with an error ends with `EIO`. -/
theorem devWrite_error {count offset : UInt64} {err err' : ℤ} {buf tmpbuf : Mem} {s : σ}
    {r : TransferResult σ}
    (hr : Loop.Returns (devWrite ops offset) (writeEntry count offset err buf tmpbuf s) r)
    (herr : r.status = .error err') : err' = - Errno.EIO := by
  refine hr.rule NoError (fun r => ∀ err, r.status = .error err → err = - Errno.EIO)
    (fun x hx => ?_) (.inl rfl) err' herr
  exact Loop.elim_of_after (devWrite_errors hx) (fun _ h => h) fun _ h => h

end Errors

end NfpUdpEcho
