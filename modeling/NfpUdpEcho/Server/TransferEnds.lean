import NfpUdpEcho.Server.WriteExact

/-!
# When the loops of a transfer end

A position inside a segment has 32 bits. With a first segment below `2 ^ 32` bytes the loops of
`nfp_cpp_dev_read` and `nfp_cpp_dev_write` end, whatever the library does
(`devRead_returns`, `devWrite_returns`). With a longer one they go on for good if no operation
of theirs fails (`devRead_diverges`, `devWrite_diverges`); one that fails ends them
(`exists_exit`). So `devRead_returns_iff` and `devWrite_returns_iff` are exact.

The first segment of a write is its whole range. That of a read ends with its window of a
mebibyte, unless the range, taken around the address space, ends in the window it starts in.

A transfer is measured by what is left of it, `transferLeft`. An iteration that does not leave the
loops makes that smaller as long as the segment fits into a position (`Bounded.step`), because a
chunk is never empty; every segment after the first is at most a window long, so only the first one
can break the bound. An operation of the library that fails leaves the loops at once, from either
level, which is what makes the condition exact in the other direction.
-/

namespace NfpUdpEcho

open ByteMem

variable {σ α : Type}

/-- The length of the first segment of a read. -/
def firstLength (count offset : UInt64) : UInt64 :=
  adjustLength (offsetAddress offset) count count

section Ends

variable {ops : CppOps σ α} {access : ChunkAccess σ α} {cppId : UInt32} {x : Transfer σ α}
  {area : α} {pos : UInt32} {count offset : UInt64}
  {accessOk : α → UInt32 → UInt32 → Transfer σ α → Bool}

/-- An access leaves the loops, or goes on to the next chunk. -/
def GoesOn (access : ChunkAccess σ α) : Prop := ∀ area pos len x,
  (∃ r, access area pos len x = .inr r) ∨ ∃ y, access area pos len x = .inl y ∧
    y.pc = .chunk area (pos + len) ∧ y.count = x.count ∧ y.curlen = x.curlen

/-- A read that fails ends its loop, and one that succeeds moves the position by the whole chunk. -/
theorem readChunk_goesOn (ops : CppOps σ α) : GoesOn (readChunk ops) := by
  intro area pos len x
  rcases lt_or_ge (ops.areaRead area pos.toUInt64 x.tmpbuf len x.world).1 0 with hread | hread
  · exact .inl ⟨_, (readChunk_failed hread).trans (endSegment_failed hread)⟩
  · exact .inr ⟨_, readChunk_done hread, rfl, rfl, rfl⟩

/-- A write is left by an early return, and goes on by the whole chunk otherwise. -/
theorem writeChunk_goesOn (ops : CppOps σ α) : GoesOn (writeChunk ops) := by
  intro area pos len x
  rcases lt_or_ge (ops.areaWrite area pos.toUInt64 (chunkBytes x pos len) len x.world).1 0 with
    hwrite | hwrite
  · exact .inl ⟨_, writeChunk_failed hwrite⟩
  · exact .inr ⟨_, writeChunk_done hwrite, rfl, rfl, rfl⟩

/-- What is known at the head of either loop: the position is in the segment, and something is
left. -/
def InSegment (x : Transfer σ α) : TransferPc α → Prop
  | .segment => True
  | .chunk _ pos => 0 < x.count.toNat ∧ pos.toNat ≤ x.curlen.toNat

/-- The segments are within what is left, and a position can count them. -/
structure Bounded (x : Transfer σ α) : Prop where
  curlen : 0 < x.count.toNat →
    0 < x.curlen.toNat ∧ x.curlen.toNat ≤ x.count.toNat ∧ x.curlen.toNat < 2 ^ 32
  at_pc : InSegment x x.pc

/-- An iteration makes progress, or it is the last one. -/
def BoundedStep (x : Transfer σ α) : Transfer σ α ⊕ TransferResult σ → Prop
  | .inl y => Bounded y ∧ transferLeft y < transferLeft x
  | .inr _ => True

/-- Opening a segment takes nothing off what is left, but the loop is one level further in. -/
theorem Bounded.openSegment (hB : Bounded x) (hpc : x.pc = .segment) (hleft : 0 < x.count.toNat) :
    BoundedStep x (openSegment ops cppId x) := by
  rcases halloc : ops.areaAlloc cppId x.nfpOffset x.curlen x.world with ⟨_ | area, s⟩
  -- without an area the loops are left
  · rw [openSegment_none halloc]
    trivial
  · rcases lt_or_ge (ops.areaAcquire area s).1 0 with hacq | hacq
    · rw [openSegment_refused halloc hacq]
      trivial
    · rw [openSegment_acquired halloc hacq]
      exact ⟨⟨hB.curlen, hleft, Nat.zero_le _⟩, transferLeft_open hpc rfl rfl⟩

/-- The end of a segment takes its bytes off what is left and picks the next length. -/
theorem Bounded.endSegment (hB : Bounded x) (hpc : x.pc = .chunk area pos)
    (hge : x.curlen.toNat ≤ pos.toNat) : BoundedStep x (endSegment ops area pos x) := by
  have hat := hB.at_pc
  rw [hpc] at hat
  obtain ⟨hleft, hle⟩ := hat
  obtain ⟨hpos, hcur, -⟩ := hB.curlen hleft
  -- the position is at most the length of the segment, which is at most what is left
  have hle' : pos.toUInt64 ≤ x.count := by
    rw [UInt64.le_iff_toNat_le, UInt32.toNat_toUInt64]
    omega
  have hcount : (x.count - pos.toUInt64).toNat = x.count.toNat - pos.toNat := by
    rw [UInt64.toNat_sub_of_le _ _ hle', UInt32.toNat_toUInt64]
  rcases lt_or_ge x.err 0 with herr | herr
  · rw [endSegment_failed herr]
    trivial
  · rw [endSegment_done herr]
    refine ⟨⟨fun hleft' => ?_, trivial⟩, ?_⟩
    · -- every segment after the first is a window, or what is left
      have hboundary := memioBoundary_toNat
      dsimp only at hleft' ⊢
      split
      next hgt =>
        rw [gt_iff_lt, UInt64.lt_iff_toNat_lt] at hgt
        omega
      next hgt =>
        rw [gt_iff_lt, UInt64.lt_iff_toNat_lt] at hgt
        omega
    · exact transferLeft_end hpc rfl hcount (by omega)

/-- A chunk moves the position by at least one byte and stays within the segment. -/
theorem Bounded.chunk (hB : Bounded x) (hgo : GoesOn access) (hpc : x.pc = .chunk area pos)
    (hlt : pos.toNat < x.curlen.toNat) :
    BoundedStep x (access area pos (chunkLen x.curlen pos) x) := by
  have hat := hB.at_pc
  rw [hpc] at hat
  obtain ⟨hleft, -⟩ := hat
  obtain ⟨-, hcur, hcount⟩ := hB.curlen hleft
  obtain ⟨hlen, hsum, hfits⟩ := chunkLen_spec hlt hcount
  rcases hgo area pos (chunkLen x.curlen pos) x with ⟨r, hr⟩ | ⟨y, hy, hypc, hycount, hycurlen⟩
  · rw [hr]
    trivial
  · rw [hy]
    refine ⟨⟨?_, ?_⟩, ?_⟩
    · rw [hycount, hycurlen]
      exact hB.curlen
    · rw [hypc]
      refine ⟨?_, ?_⟩
      · rwa [hycount]
      · rw [hycurlen, hsum]
        exact hfits
    · exact transferLeft_chunk hpc hypc hycount (by omega) (by omega)

/-- One iteration of either loop, by where it stands. -/
theorem Bounded.step (hB : Bounded x) (hgo : GoesOn access) :
    BoundedStep x (transferBody ops access cppId x) := by
  rcases transferBody_cases ops access cppId x with ⟨hpc, hleft, hx⟩ | ⟨-, -, hx⟩ |
    ⟨area, pos, hpc, hlt, hx⟩ | ⟨area, pos, hpc, hge, hx⟩
  · rw [hx]
    exact hB.openSegment hpc hleft
  · rw [hx]
    trivial
  · rw [hx]
    exact hB.chunk hgo hpc hlt
  · rw [hx]
    exact hB.endSegment hpc hge

/-- A measure that falls with every iteration bounds their number. -/
theorem Bounded.returns (hB : Bounded x) (hgo : GoesOn access) :
    ∃ r, Loop.Returns (transferBody ops access cppId) x r := by
  have hends : ∃ r, Loop.Returns (transferBody ops access cppId) x r ∧ True :=
    Loop.exists_returns Bounded transferLeft
      (fun x hB => Loop.elim_of_after (hB.step hgo) (fun _ h => h) fun _ h => h) hB
  obtain ⟨r, hr, -⟩ := hends
  exact ⟨r, hr⟩

/-- The first segment of a read is within its range. -/
theorem firstLength_bounds (hpos : 0 < count.toNat) :
    0 < (firstLength count offset).toNat ∧ (firstLength count offset).toNat ≤ count.toNat := by
  have haddr := offsetAddress_lt offset
  unfold firstLength
  by_cases hwrap : (offsetAddress offset).toNat + count.toNat < 2 ^ 64
  -- a range that is not taken around the address space
  · rw [adjustLength_toNat hpos hwrap]
    split
    · omega
    · omega
  · -- a count that long is longer than a window
    unfold adjustLength
    split
    · have hle : offsetAddress offset &&& (memioBoundary - 1) ≤ memioBoundary := by
        rw [UInt64.le_iff_toNat_le, memioBoundary_toNat, and_boundary]
        omega
      rw [UInt64.toNat_sub_of_le _ _ hle, memioBoundary_toNat, and_boundary]
      omega
    · omega

/-- **A read returns** when a position can count its first segment. -/
theorem devRead_returns (ops : CppOps σ α) {buf tmpbuf : Mem} {s : σ}
    (hfirst : (firstLength count offset).toNat < 2 ^ 32) :
    ∃ r, Loop.Returns (devRead ops offset) (readEntry count offset buf tmpbuf s) r := by
  refine Bounded.returns ⟨fun hpos => ?_, trivial⟩ (readChunk_goesOn ops)
  have hbounds : 0 < (firstLength count offset).toNat ∧ _ := firstLength_bounds hpos
  exact ⟨hbounds.1, hbounds.2, hfirst⟩

/-- **A write returns** when a position can count its range. -/
theorem devWrite_returns (ops : CppOps σ α) {err : ℤ} {buf tmpbuf : Mem} {s : σ}
    (hcount : count.toNat < 2 ^ 32) :
    ∃ r, Loop.Returns (devWrite ops offset) (writeEntry count offset err buf tmpbuf s) r :=
  Bounded.returns ⟨fun hpos => ⟨hpos, le_rfl, hcount⟩, trivial⟩ (writeChunk_goesOn ops)

/-- A first segment that no position can count: the inner loop starts again from zero each time the
position wraps, and never finds itself at the end. -/
theorem devRead_diverges {buf tmpbuf : Mem} {s : σ}
    (hok : NoReadFails ops offset (readEntry count offset buf tmpbuf s))
    (hfirst : 2 ^ 32 ≤ (firstLength count offset).toNat) (r : TransferResult σ) :
    ¬Loop.Returns (devRead ops offset) (readEntry count offset buf tmpbuf s) r := by
  have hentry : Endless (readEntry count offset buf tmpbuf s : Transfer σ α) := by
    refine ⟨hfirst, fun _ => Nat.pos_of_ne_zero fun hzero => ?_⟩
    have hcount : count = 0 := UInt64.toNat_inj.mp hzero
    subst hcount
    -- there is nothing to read, and the first segment is not longer than a window
    have haddr := and_boundary (offsetAddress offset)
    have hle : offsetAddress offset &&& (memioBoundary - 1) ≤ memioBoundary := by
      rw [UInt64.le_iff_toNat_le, memioBoundary_toNat, haddr]
      omega
    unfold firstLength adjustLength at hfirst
    split at hfirst
    · rw [UInt64.toNat_sub_of_le _ _ hle, memioBoundary_toNat] at hfirst
      omega
    · exact absurd hfirst (show ¬2 ^ 32 ≤ (0 : UInt64).toNat by decide)
  exact hentry.diverges hok (readChunk_onward ops) r

/-! ### An operation that fails -/

/-- An access that leaves the loops when it fails. -/
def Leaves (accessOk : α → UInt32 → UInt32 → Transfer σ α → Bool) (access : ChunkAccess σ α) :
    Prop :=
  ∀ area pos len x, accessOk area pos len x = false → ∃ r, access area pos len x = .inr r

/-- After a read that fails the outer loop is left with its error. -/
theorem readChunk_leaves (ops : CppOps σ α) : Leaves (readOk ops) (readChunk ops) := by
  intro area pos len x hfail
  have hread := not_le.mp (of_decide_eq_false hfail)
  exact ⟨_, (readChunk_failed hread).trans (endSegment_failed hread)⟩

/-- A write that fails returns from the function. -/
theorem writeChunk_leaves (ops : CppOps σ α) : Leaves (writeOk ops) (writeChunk ops) :=
  fun _ _ _ _ hfail => ⟨_, writeChunk_failed (not_le.mp (of_decide_eq_false hfail))⟩

/-- It ends the loops. -/
theorem exists_exit (hleaves : Leaves accessOk access)
    (hfail : iterationOk ops accessOk cppId x = false) :
    ∃ r, transferBody ops access cppId x = .inr r := by
  unfold iterationOk at hfail
  unfold transferBody
  cases hpc : x.pc with
  | segment =>
    simp only [hpc, Bool.or_eq_false_iff, decide_eq_false_iff_not] at hfail
    obtain ⟨hne, hfail⟩ := hfail
    have hleft : x.count > 0 := UInt64.pos_iff_ne_zero.mpr hne
    dsimp only
    rw [if_pos hleft]
    rcases halloc : ops.areaAlloc cppId x.nfpOffset x.curlen x.world with ⟨_ | area, s⟩
    · exact ⟨_, openSegment_none halloc⟩
    · rw [halloc] at hfail
      exact ⟨_, openSegment_refused halloc (not_le.mp (of_decide_eq_false hfail))⟩
  | chunk area pos =>
    simp only [hpc, Bool.or_eq_false_iff, decide_eq_false_iff_not] at hfail
    dsimp only
    rw [if_pos (UInt64.not_le.mp hfail.1)]
    exact hleaves _ _ _ _ hfail.2

/-- If not every iteration does well, the first that does not is the last one. -/
theorem returns_of_fails (hleaves : Leaves accessOk access)
    (hfails : ¬∀ y, Loop.Visits (transferBody ops access cppId) x y →
      iterationOk ops accessOk cppId y = true) :
    ∃ r, Loop.Returns (transferBody ops access cppId) x r := by
  push Not at hfails
  obtain ⟨y, hvisits, hfail⟩ := hfails
  obtain ⟨r, hr⟩ := exists_exit hleaves (Bool.eq_false_of_not_eq_true hfail)
  exact ⟨r, hvisits.returns hr⟩

/-- **When a read returns.** -/
theorem devRead_returns_iff (ops : CppOps σ α) {buf tmpbuf : Mem} {s : σ} :
    (∃ r, Loop.Returns (devRead ops offset) (readEntry count offset buf tmpbuf s) r) ↔
      (firstLength count offset).toNat < 2 ^ 32 ∨
        ¬NoReadFails ops offset (readEntry count offset buf tmpbuf s) := by
  constructor
  · rintro ⟨r, hr⟩
    by_contra! hboth
    exact devRead_diverges hboth.2 hboth.1 r hr
  · rintro (hfirst | hfails)
    · exact devRead_returns ops hfirst
    · exact returns_of_fails (readChunk_leaves ops) hfails

/-- **When a write returns.** -/
theorem devWrite_returns_iff (ops : CppOps σ α) {err : ℤ} {buf tmpbuf : Mem} {s : σ} :
    (∃ r, Loop.Returns (devWrite ops offset) (writeEntry count offset err buf tmpbuf s) r) ↔
      count.toNat < 2 ^ 32 ∨
        ¬NoWriteFails ops offset (writeEntry count offset err buf tmpbuf s) := by
  constructor
  · rintro ⟨r, hr⟩
    by_contra! hboth
    exact devWrite_diverges hboth.2 hboth.1 r hr
  · rintro (hcount | hfails)
    · exact devWrite_returns ops hcount
    · exact returns_of_fails (writeChunk_leaves ops) hfails

end Ends

end NfpUdpEcho
