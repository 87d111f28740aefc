import Mathlib.Data.Nat.Bitwise
import Mathlib.Data.Set.Lattice
import Mathlib.Order.CompletePartialOrder
import Mathlib.Order.Interval.Set.Basic
import Mathlib.Data.UInt
import NfpUdpEcho.Errno
import NfpUdpEcho.Framework.System

/-!
# The table of granted areas

`do_cpp_area_request` and `do_cpp_area_release` (`user/nfpcore/nfp_cpp_dev_ops.c`) keep the
areas granted to clients in `data->req.list`. An area is granted at an offset for `mmap`,
the one its request names or, for the wildcard `~0`, the first free one among zero and the
ends of the areas already granted; a release names an area by its offset.

The functions are generic in the handle `α` of a CPP area and the state `σ` of the library
that allocates it. Here the library may answer in any way; the device server uses them with
the library's own functions.

A granted size is zero or one page and every offset is page-aligned, so two areas can only
collide at the same offset, and there the overlap test has two blind spots: an empty range
overlaps nothing, and the end of the topmost page is zero. `NoBlindSpot` says that a request
does not take the offset of a live area through one of them, and is the exact condition for
the table to stay in order (`areaTable_ok_iff`).

The invariant, `TableInv`, says of every granted area that it is aligned, empty or a page long, and
not mapped, and that no two have the same offset; the order of the table (`TableOk`) follows from it
by arithmetic of pages (`TableInv.ok`). `offsetTaken` names the offset that a request would be
granted, as a pure search, so that the condition speaks of the state before the call. A call keeps
the invariant where the condition holds (`TableInv.step`) and leaves a table out of order where it
does not (`TableInv.noBlindSpot_of_ok`).
-/

namespace NfpUdpEcho

open LTS Errno

/-- `struct nfp_cpp_area_request`. -/
structure AreaRequest where
  offset : UInt64
  cppId : UInt32
  cppAddr : UInt64
  size : UInt64
deriving DecidableEq, Repr

/-- `struct nfp_dev_cpp_area`; `vma` counts the entries of `vma.list`. -/
structure NfpDevCppArea (α : Type) where
  interface : UInt32
  req : AreaRequest
  area : α
  vma : ℕ

/-- `PAGE_SIZE`. -/
def pageSize : UInt64 := (0x1 : UInt64) <<< 12

/-- `PAGE_MASK`. -/
def pageMask : UInt64 := ~~~(pageSize - 1)

/-- The offset that asks for any. -/
def wildcard : UInt64 := ~~~0

variable {α σ : Type}

/-- `nfp_dev_cpp_range_check`. -/
def nfpDevCppRangeCheck : List (NfpDevCppArea α) → AreaRequest → ℤ
  | [], _ => 0
  | area :: rest, areaReq =>
    if areaReq.offset < area.req.offset + area.req.size ∧
        areaReq.offset + areaReq.size > area.req.offset then -ETXTBSY
    else nfpDevCppRangeCheck rest areaReq

/-- `nfp_dev_cpp_area_alloc`. `malloc` is whether memory for the entry was found, `alloc` the
allocation of the CPP area. -/
def nfpDevCppAreaAlloc (malloc : Bool) (alloc : AreaRequest → σ → Option α × σ)
    (interface : UInt16) (areaReq : AreaRequest) (list : List (NfpDevCppArea α)) (s : σ) :
    ℤ × List (NfpDevCppArea α) × σ :=
  if malloc then
    match alloc areaReq s with
    | (some area, s) => (0, list ++ [⟨interface.toUInt32, areaReq, area, 0⟩], s)
    | (none, s) => (-EINVAL, list, s)
  else (-ENOMEM, list, s)

/-- The loop of `do_cpp_area_request` over the ends of the granted areas. -/
def searchEnds (list : List (NfpDevCppArea α)) :
    List (NfpDevCppArea α) → AreaRequest → ℤ → ℤ × AreaRequest
  | [], areaReq, err => (err, areaReq)
  | area :: rest, areaReq, _ =>
    let areaReq := { areaReq with offset := area.req.offset + area.req.size }
    let err := nfpDevCppRangeCheck list areaReq
    if err = 0 then (err, areaReq) else searchEnds list rest areaReq err

/-- The part of `do_cpp_area_request` that looks for an offset. -/
def searchOffset (list : List (NfpDevCppArea α)) (areaReq : AreaRequest) : ℤ × AreaRequest :=
  let areaReq := { areaReq with offset := 0 }
  let err := nfpDevCppRangeCheck list areaReq
  if err < 0 then searchEnds list list areaReq err else (err, areaReq)

/-- `do_cpp_area_request`: the return value, the request with the offset filled in, and the
table and library afterwards. -/
def doCppAreaRequest (malloc : Bool) (alloc : AreaRequest → σ → Option α × σ)
    (interface : UInt16) (areaReq : AreaRequest) (list : List (NfpDevCppArea α)) (s : σ) :
    ℤ × AreaRequest × List (NfpDevCppArea α) × σ :=
  if areaReq.size &&& ~~~pageSize ≠ 0 then (-EINVAL, areaReq, list, s)
  else if areaReq.offset ≠ wildcard ∧ areaReq.offset &&& ~~~pageMask ≠ 0 then
    (-EINVAL, areaReq, list, s)
  else
    let (err, areaReq) :=
      if areaReq.offset = wildcard then searchOffset list areaReq else (0, areaReq)
    if err ≥ 0 then
      -- look for colliding offsets
      let err := nfpDevCppRangeCheck list areaReq
      if err ≥ 0 then
        let (err, list, s) := nfpDevCppAreaAlloc malloc alloc interface areaReq list s
        (err, areaReq, list, s)
      else (err, areaReq, list, s)
    else (err, areaReq, list, s)

/-- `do_cpp_area_release`; `free` is `nfp_cpp_area_free`. -/
def doCppAreaRelease (free : α → σ → σ) (areaReq : AreaRequest) :
    List (NfpDevCppArea α) → σ → ℤ × List (NfpDevCppArea α) × σ
  | [], s => (-ENOENT, [], s)
  | area :: rest, s =>
    if area.req.offset = areaReq.offset then
      if area.vma = 0 then (0, rest, free area.area s) else (-EBUSY, area :: rest, s)
    else
      let (err, rest, s) := doCppAreaRelease free areaReq rest s
      (err, area :: rest, s)

/-! ### What the functions do

`doCppAreaRequest_cases` and `doCppAreaRelease_cases` say all that a call can do to the table, and
are what the proofs about sequences of calls start from. -/

/-- The overlap test finds nothing against `o`. -/
def rangeFree (list : List (NfpDevCppArea α)) (areaReq : AreaRequest) (o : UInt64) : Bool :=
  nfpDevCppRangeCheck list { areaReq with offset := o } == 0

/-- The offset a request gets if the allocation succeeds. -/
def offsetTaken (list : List (NfpDevCppArea α)) (areaReq : AreaRequest) : Option UInt64 :=
  if areaReq.size &&& ~~~pageSize ≠ 0 then none
  else if areaReq.offset = wildcard then
    (0 :: list.map fun a => a.req.offset + a.req.size).find? (rangeFree list areaReq)
  else if areaReq.offset &&& ~~~pageMask = 0 ∧ rangeFree list areaReq areaReq.offset then
    some areaReq.offset
  else none

section Spec

variable {list : List (NfpDevCppArea α)} {areaReq : AreaRequest} {o : UInt64}

/-- The range check answers with zero or with an error. -/
theorem rangeCheck_le (list : List (NfpDevCppArea α)) (areaReq : AreaRequest) :
    nfpDevCppRangeCheck list areaReq ≤ 0 := by
  induction list with
  | nil => exact le_rfl
  | cons a rest ih =>
    unfold nfpDevCppRangeCheck
    split
    · decide
    · exact ih

/-- The test passes when it passes against each area. -/
theorem rangeFree_iff : rangeFree list areaReq o = true ↔
    ∀ a ∈ list, ¬(o < a.req.offset + a.req.size ∧ o + areaReq.size > a.req.offset) := by
  simp only [rangeFree, beq_iff_eq]
  induction list with
  | nil => simp [nfpDevCppRangeCheck]
  | cons a rest ih =>
    rw [List.forall_mem_cons, ← ih, nfpDevCppRangeCheck]
    split
    · next h => exact ⟨fun h => absurd h (by decide), fun hnot => absurd h hnot.1⟩
    · next h => exact ⟨fun hr => ⟨h, hr⟩, fun hr => hr.2⟩

/-- The search stops at the first end that is free. -/
theorem searchEnds_spec (list rest : List (NfpDevCppArea α)) (areaReq : AreaRequest) {err : ℤ}
    (herr : err < 0) :
    (∃ o, (rest.map fun a => a.req.offset + a.req.size).find? (rangeFree list areaReq) = some o ∧
        searchEnds list rest areaReq err = (0, { areaReq with offset := o })) ∨
      ((rest.map fun a => a.req.offset + a.req.size).find? (rangeFree list areaReq) = none ∧
        (searchEnds list rest areaReq err).1 < 0) := by
  induction rest generalizing areaReq err with
  | nil => exact .inr ⟨rfl, herr⟩
  | cons a rest ih =>
    rw [List.map_cons, searchEnds]
    by_cases hfree : rangeFree list areaReq (a.req.offset + a.req.size) = true
    · rw [List.find?_cons_of_pos hfree]
      have hzero := beq_iff_eq.mp hfree
      exact .inl ⟨_, rfl, by simp only [hzero, if_true]⟩
    · rw [List.find?_cons_of_neg hfree]
      have hne : nfpDevCppRangeCheck list
          { areaReq with offset := a.req.offset + a.req.size } ≠ 0 :=
        fun h => hfree (beq_iff_eq.mpr h)
      have hlt := lt_of_le_of_ne (rangeCheck_le list _) hne
      simp only [if_neg hne]
      exact ih { areaReq with offset := a.req.offset + a.req.size } hlt

/-- **A request, by its outcome.** Either there is an offset for it and the allocation
decides, or it fails and nothing changes. -/
theorem doCppAreaRequest_cases (malloc : Bool) (alloc : AreaRequest → σ → Option α × σ)
    (interface : UInt16) (areaReq : AreaRequest) (list : List (NfpDevCppArea α)) (s : σ) :
    (∃ o, offsetTaken list areaReq = some o ∧
      doCppAreaRequest malloc alloc interface areaReq list s =
        ((nfpDevCppAreaAlloc malloc alloc interface { areaReq with offset := o } list s).1,
          { areaReq with offset := o },
          (nfpDevCppAreaAlloc malloc alloc interface { areaReq with offset := o } list s).2)) ∨
      (offsetTaken list areaReq = none ∧
        (doCppAreaRequest malloc alloc interface areaReq list s).1 < 0 ∧
        (doCppAreaRequest malloc alloc interface areaReq list s).2.2 = (list, s)) := by
  unfold doCppAreaRequest offsetTaken
  by_cases hsize : areaReq.size &&& ~~~pageSize ≠ 0
  · simp only [if_pos hsize]
    exact .inr ⟨trivial, by decide, trivial⟩
  simp only [if_neg hsize]
  by_cases hwild : areaReq.offset = wildcard
  · simp only [hwild, ne_eq, not_true_eq_false, false_and, if_false, if_true]
    by_cases hzero : rangeFree list areaReq 0 = true
    · -- offset zero is free
      rw [List.find?_cons_of_pos hzero]
      have hcheck := beq_iff_eq.mp hzero
      exact .inl ⟨0, rfl, by simp [searchOffset, hcheck]⟩
    · rw [List.find?_cons_of_neg hzero]
      have hcheck : nfpDevCppRangeCheck list { areaReq with offset := 0 } < 0 :=
        lt_of_le_of_ne (rangeCheck_le list _) fun h => hzero (beq_iff_eq.mpr h)
      rw [searchOffset, if_pos hcheck]
      rcases searchEnds_spec list list { areaReq with offset := 0 } hcheck with
        ⟨o, ho, hsearch⟩ | ⟨ho, hneg⟩
      · -- the range found is tested once more
        have hfree : nfpDevCppRangeCheck list { areaReq with offset := o } = 0 := by
          have hsome := List.find?_some ho
          exact beq_iff_eq.mp hsome
        exact .inl ⟨o, ho, by rw [hsearch]; simp [hfree]⟩
      · rw [if_neg (not_le.mpr hneg)]
        exact .inr ⟨ho, hneg, rfl⟩
  · by_cases halign : areaReq.offset &&& ~~~pageMask = 0
    · by_cases hfree : rangeFree list areaReq areaReq.offset = true
      · have hcheck : nfpDevCppRangeCheck list areaReq = 0 := beq_iff_eq.mp hfree
        exact .inl ⟨areaReq.offset, by simp [hwild, halign, hfree], by simp [hwild, halign, hcheck]⟩
      · have hcheck : nfpDevCppRangeCheck list areaReq < 0 :=
          lt_of_le_of_ne (rangeCheck_le list _) fun h => hfree (beq_iff_eq.mpr h)
        refine .inr ⟨by simp [hwild, halign, hfree], ?_, ?_⟩
        · simp [hwild, halign, not_le.mpr hcheck, hcheck]
        · simp [hwild, halign, not_le.mpr hcheck]
    · refine .inr ⟨by simp [hwild, halign], ?_, ?_⟩
      · simp [hwild, halign, EINVAL]
      · simp [hwild, halign]

/-- A release splits the table at the first area of the offset. -/
theorem doCppAreaRelease_cases (free : α → σ → σ) (areaReq : AreaRequest)
    (list : List (NfpDevCppArea α)) (s : σ) (hvma : ∀ a ∈ list, a.vma = 0) :
    (∃ pre a post, list = pre ++ a :: post ∧ a.req.offset = areaReq.offset ∧
      (∀ b ∈ pre, b.req.offset ≠ areaReq.offset) ∧
      doCppAreaRelease free areaReq list s = (0, pre ++ post, free a.area s)) ∨
      ((∀ b ∈ list, b.req.offset ≠ areaReq.offset) ∧
        doCppAreaRelease free areaReq list s = (-ENOENT, list, s)) := by
  induction list with
  | nil => exact .inr ⟨by simp, rfl⟩
  | cons a rest ih =>
    unfold doCppAreaRelease
    by_cases hoff : a.req.offset = areaReq.offset
    · refine .inl ⟨[], a, rest, rfl, hoff, by simp, ?_⟩
      rw [if_pos hoff, if_pos (hvma a List.mem_cons_self)]
      rfl
    · rw [if_neg hoff]
      rcases ih fun b hb => hvma b (List.mem_cons_of_mem _ hb) with
        ⟨pre, b, post, rfl, hb, hpre, heq⟩ | ⟨hnone, heq⟩
      · refine .inl ⟨a :: pre, b, post, rfl, hb, List.forall_mem_cons.mpr ⟨hoff, hpre⟩, ?_⟩
        rw [heq]
        rfl
      · refine .inr ⟨List.forall_mem_cons.mpr ⟨hoff, hnone⟩, ?_⟩
        rw [heq]

end Spec

/-! ### What the functions return

The reply to a client carries this number, so it is one of a few, and never positive. -/

section Statuses

variable {list rest : List (NfpDevCppArea α)} {areaReq : AreaRequest} {err : ℤ}

/-- What a request or a release of an area returns. -/
def areaStatuses : List ℤ := [0, -ENOENT, -ENOMEM, -EBUSY, -EINVAL, -ETXTBSY]

/-- An explicit request is left as it is. -/
theorem doCppAreaRequest_explicit {malloc : Bool} {alloc : AreaRequest → σ → Option α × σ}
    {interface : UInt16} {s : σ} (h : areaReq.offset ≠ wildcard) :
    (doCppAreaRequest malloc alloc interface areaReq list s).2.1 = areaReq := by
  unfold doCppAreaRequest
  simp only [if_neg h]
  split_ifs <;> rfl

/-- The range check. -/
theorem rangeCheck_status : nfpDevCppRangeCheck list areaReq ∈ areaStatuses := by
  induction list with
  | nil => exact show (0 : ℤ) ∈ areaStatuses by decide
  | cons area rest ih =>
    unfold nfpDevCppRangeCheck
    split
    · decide
    · exact ih

/-- The search over the ends of the granted areas; it starts from what the check of zero gave. -/
theorem searchEnds_status (h : err ∈ areaStatuses) :
    (searchEnds list rest areaReq err).1 ∈ areaStatuses := by
  induction rest generalizing areaReq err with
  | nil => exact h
  | cons area rest ih =>
    unfold searchEnds
    dsimp only
    split
    · exact rangeCheck_status
    · exact ih rangeCheck_status

/-- The whole search for a free offset. -/
theorem searchOffset_status : (searchOffset list areaReq).1 ∈ areaStatuses := by
  unfold searchOffset
  dsimp only
  split
  · exact searchEnds_status rangeCheck_status
  · exact rangeCheck_status

/-- The allocation of the area, with or without memory and with any answer of the library. -/
theorem areaAlloc_status (malloc : Bool) (alloc : AreaRequest → σ → Option α × σ)
    (interface : UInt16) (s : σ) :
    (nfpDevCppAreaAlloc malloc alloc interface areaReq list s).1 ∈ areaStatuses := by
  unfold nfpDevCppAreaAlloc
  split
  · split
    · exact show (0 : ℤ) ∈ areaStatuses by decide
    · exact show -EINVAL ∈ areaStatuses by decide
  · exact show -ENOMEM ∈ areaStatuses by decide

/-- A request as a whole. -/
theorem areaRequest_status (malloc : Bool) (alloc : AreaRequest → σ → Option α × σ)
    (interface : UInt16) (areaReq : AreaRequest) (s : σ) :
    (doCppAreaRequest malloc alloc interface areaReq list s).1 ∈ areaStatuses := by
  have hinval : -EINVAL ∈ areaStatuses := by decide
  have hzero : (0 : ℤ) ∈ areaStatuses := by decide
  unfold doCppAreaRequest
  split
  · exact hinval
  split
  · exact hinval
  generalize hsearch : (if areaReq.offset = wildcard then _ else _ : ℤ × AreaRequest) = found
  have hfound : found.1 ∈ areaStatuses := by
    rw [← hsearch]
    split
    · exact searchOffset_status
    · exact hzero
  obtain ⟨err, req⟩ := found
  dsimp only
  split
  · split
    · exact areaAlloc_status malloc alloc interface s
    · exact rangeCheck_status
  · exact hfound

/-- A release, which may find no area. -/
theorem areaRelease_status (free : α → σ → σ) (areaReq : AreaRequest) (s : σ) :
    (doCppAreaRelease free areaReq list s).1 ∈ areaStatuses := by
  induction list with
  | nil => exact show -ENOENT ∈ areaStatuses by decide
  | cons area rest ih =>
    unfold doCppAreaRelease
    split
    · split
      · exact show (0 : ℤ) ∈ areaStatuses by decide
      · exact show -EBUSY ∈ areaStatuses by decide
    · exact ih

end Statuses

/-! ### Page arithmetic

The masks of the source, read as statements about natural numbers. -/

section Pages

theorem pageSize_toNat : pageSize.toNat = 4096 := by decide

/-- The check on a size lets through no bit but that of the page. -/
theorem size_cases {size : UInt64} (h : size &&& ~~~pageSize = 0) : size = 0 ∨ size = pageSize := by
  -- every bit set in `size` is the one bit of `pageSize`
  have hsub : size.toNat &&& 2 ^ 12 = size.toNat := by
    have hall : (2 ^ 12 ||| (~~~pageSize).toNat) = 2 ^ 64 - 1 := by decide
    have hzero : size.toNat &&& (~~~pageSize).toNat = 0 := congrArg UInt64.toNat h
    calc size.toNat &&& 2 ^ 12
        = (size.toNat &&& 2 ^ 12) ||| (size.toNat &&& (~~~pageSize).toNat) := by
          rw [hzero, Nat.or_zero]
      _ = size.toNat &&& (2 ^ 64 - 1) := by rw [← Nat.and_or_distrib_left, hall]
      _ = size.toNat := Nat.and_two_pow_sub_one_of_lt_two_pow size.toNat_lt
  rw [Nat.and_two_pow] at hsub
  cases hbit : size.toNat.testBit 12 with
  | false =>
    rw [hbit] at hsub
    exact .inl (UInt64.toNat_inj.mp (by simpa using hsub.symm))
  | true =>
    rw [hbit] at hsub
    exact .inr (UInt64.toNat_inj.mp (by simpa [pageSize_toNat] using hsub.symm))

/-- A page-aligned offset. -/
def Aligned (o : UInt64) : Prop := o.toNat % 4096 = 0

/-- The check on an offset lets through no bit below the page. -/
theorem aligned_of_and {o : UInt64} (h : o &&& ~~~pageMask = 0) : Aligned o := by
  have hmask : (~~~pageMask).toNat = 2 ^ 12 - 1 := by decide
  have hnat := congrArg UInt64.toNat h
  rwa [UInt64.toNat_and, hmask, Nat.and_two_pow_sub_one_eq_mod] at hnat

/-- The end of a granted area is aligned. -/
theorem Aligned.add {o size : UInt64} (ho : Aligned o) (hs : size = 0 ∨ size = pageSize) :
    Aligned (o + size) := by
  unfold Aligned at *
  rw [UInt64.toNat_add]
  rcases hs with rfl | rfl
  · simp only [UInt64.toNat_zero]
    omega
  · rw [pageSize_toNat]
    omega

/-- The topmost page. -/
def topPage : UInt64 := pageMask

theorem topPage_toNat : topPage.toNat = 2 ^ 64 - 4096 := by decide

/-- Aligned pages end inside the address space. -/
theorem Aligned.add_le {o : UInt64} (ho : Aligned o) : o.toNat + 4096 ≤ 2 ^ 64 := by
  have hlt := o.toNat_lt
  unfold Aligned at ho
  omega

/-- The end of a page other than the topmost does not wrap. -/
theorem Aligned.lt_add {o : UInt64} (ho : Aligned o) (htop : o ≠ topPage) : o < o + pageSize := by
  have hle := ho.add_le
  have hne : o.toNat ≠ 2 ^ 64 - 4096 := fun h =>
    htop (UInt64.toNat_inj.mp (h.trans topPage_toNat.symm))
  rw [UInt64.lt_iff_toNat_lt, UInt64.toNat_add, pageSize_toNat, Nat.mod_eq_of_lt (by omega)]
  omega

end Pages

/-! ### Sequences of calls -/

/-- A request, with what the allocations in it come to, or a release. -/
inductive AreaCall (α : Type) where
  | request (interface : UInt16) (areaReq : AreaRequest) (malloc : Bool) (area : Option α)
  | release (areaReq : AreaRequest)

/-- The return value of a call and the table after it. -/
def AreaCall.run (list : List (NfpDevCppArea α)) : AreaCall α → ℤ × List (NfpDevCppArea α)
  | .request interface areaReq malloc area =>
    let q := doCppAreaRequest malloc (fun _ _ => (area, ())) interface areaReq list ()
    (q.1, q.2.2.1)
  | .release areaReq =>
    let q := doCppAreaRelease (fun _ _ => ()) areaReq list ()
    (q.1, q.2.1)

/-- Calls in any order on a table that starts empty. -/
def areaSystem (α : Type) : System (List (NfpDevCppArea α)) (AreaCall α) :=
  .ofStep (· = []) fun list call => some (call.run list).2

/-- The range of an area, in integers. -/
def AreaRequest.range (q : AreaRequest) : Set ℕ :=
  Set.Ico q.offset.toNat (q.offset.toNat + q.size.toNat)

/-- A table in order. -/
structure TableOk (list : List (NfpDevCppArea α)) : Prop where
  distinct : list.Pairwise fun a b => a.req.offset ≠ b.req.offset
  disjoint : list.Pairwise fun a b => Disjoint a.req.range b.req.range
  no_wrap : ∀ a ∈ list, a.req.offset.toNat + a.req.size.toNat ≤ 2 ^ 64

/-- What a call is to do to the table: a request grants one new area or changes nothing, a
release removes exactly the area it names, if there is one. -/
def CallOutcome (list list' : List (NfpDevCppArea α)) (err : ℤ) : AreaCall α → Prop
  | .request interface areaReq _ _ =>
    (err = 0 ∧ ∃ o a,
      list' = list ++ [⟨interface.toUInt32, { areaReq with offset := o }, a, 0⟩]) ∨
    (err < 0 ∧ list' = list)
  | .release areaReq =>
    (err = 0 ∧ ∃ pre a post, list = pre ++ a :: post ∧ a.req.offset = areaReq.offset ∧
      list' = pre ++ post ∧ ∀ b ∈ pre ++ post, b.req.offset ≠ areaReq.offset) ∨
    (err < 0 ∧ list' = list ∧ ∀ b ∈ list, b.req.offset ≠ areaReq.offset)

/-- A call that leaves a table in order and has done what it was asked for. -/
structure AreaCallOk (t : Transition (List (NfpDevCppArea α)) (AreaCall α)) : Prop where
  table : TableOk t.dst
  outcome : CallOutcome t.src t.dst (t.label.run t.src).1 t.label

/-- The request does not take the offset of a live area where the overlap test is blind: one
of the two ranges is empty, or both are the topmost page. -/
def NoBlindSpot (list : List (NfpDevCppArea α)) : AreaCall α → Prop
  | .request _ areaReq malloc area => malloc = true → area.isSome = true →
    ∀ o, offsetTaken list areaReq = some o → ∀ a ∈ list, a.req.offset = o →
      areaReq.size ≠ 0 ∧ a.req.size ≠ 0 ∧ o ≠ topPage
  | .release _ => True

instance (list : List (NfpDevCppArea α)) : DecidablePred (NoBlindSpot list)
  | .request _ areaReq malloc area =>
    decidable_of_iff (malloc = true → area.isSome = true →
        (offsetTaken list areaReq).all (fun o => decide (∀ a ∈ list, a.req.offset = o →
          areaReq.size ≠ 0 ∧ a.req.size ≠ 0 ∧ o ≠ topPage)) = true) <| by
      simp only [NoBlindSpot, Option.all_eq_true, decide_eq_true_eq]
  | .release _ => isTrue trivial

/-- The invariant of runs that meet `NoBlindSpot`. -/
structure TableInv (list : List (NfpDevCppArea α)) : Prop where
  aligned : ∀ a ∈ list, Aligned a.req.offset
  size : ∀ a ∈ list, a.req.size = 0 ∨ a.req.size = pageSize
  vma : ∀ a ∈ list, a.vma = 0
  distinct : list.Pairwise fun a b => a.req.offset ≠ b.req.offset

section

variable {list list' : List (NfpDevCppArea α)} {areaReq : AreaRequest} {o : UInt64}

/-- What is known of an offset that is taken. -/
theorem TableInv.offsetTaken (hI : TableInv list) (h : offsetTaken list areaReq = some o) :
    (areaReq.size = 0 ∨ areaReq.size = pageSize) ∧ Aligned o ∧
      rangeFree list areaReq o = true := by
  unfold NfpUdpEcho.offsetTaken at h
  split at h
  · cases h
  next hsize =>
  refine ⟨size_cases (not_not.mp hsize), ?_⟩
  split at h
  · have hfree : rangeFree list areaReq o = true := List.find?_some h
    refine ⟨?_, hfree⟩
    -- zero is aligned, and so is the end of every granted area
    rcases List.mem_cons.mp (List.mem_of_find?_eq_some h) with rfl | hmem
    · rfl
    · obtain ⟨a, ha, rfl⟩ := List.mem_map.mp hmem
      exact (hI.aligned a ha).add (hI.size a ha)
  · obtain ⟨⟨halign, hfree⟩, ho⟩ := Option.ite_none_right_eq_some.mp h
    obtain rfl := Option.some.inj ho
    exact ⟨aligned_of_and halign, hfree⟩

/-- Outside the blind spots the overlap test keeps the offset of a live area from being
granted again. -/
theorem TableInv.ne_of_free (hI : TableInv list) (h : NfpUdpEcho.offsetTaken list areaReq = some o)
    (hspot : ∀ a ∈ list, a.req.offset = o → areaReq.size ≠ 0 ∧ a.req.size ≠ 0 ∧ o ≠ topPage) :
    ∀ a ∈ list, a.req.offset ≠ o := by
  intro a ha heq
  obtain ⟨hreq, hlive, htop⟩ := hspot a ha heq
  obtain ⟨hsize, halign, hfree⟩ := hI.offsetTaken h
  have hpage := hsize.resolve_left hreq
  have hpage' := (hI.size a ha).resolve_left hlive
  have hlt := halign.lt_add htop
  refine rangeFree_iff.mp hfree a ha ⟨?_, ?_⟩
  · rw [heq, hpage']
    exact hlt
  · rw [heq, hpage]
    exact hlt

/-- Distinct pages do not overlap, and none of them reaches over the end of the address space. -/
theorem TableInv.ok (hI : TableInv list) : TableOk list where
  distinct := hI.distinct
  disjoint := by
    refine hI.distinct.imp_of_mem fun {a b} ha hb hne => ?_
    -- two different pages are a page apart
    have hane : a.req.offset.toNat ≠ b.req.offset.toNat := fun h => hne (UInt64.toNat_inj.mp h)
    have ha4 := hI.aligned a ha
    have hb4 := hI.aligned b hb
    unfold Aligned at ha4 hb4
    have hsize : ∀ c ∈ list, c.req.size.toNat ≤ 4096 := by
      intro c hc
      rcases hI.size c hc with h | h <;> rw [h]
      · exact Nat.zero_le _
      · exact pageSize_toNat.le
    have hsa := hsize a ha
    have hsb := hsize b hb
    refine Set.disjoint_left.mpr fun x hxa hxb => ?_
    simp only [AreaRequest.range, Set.mem_Ico] at hxa hxb
    omega
  no_wrap := by
    intro a ha
    have hle := (hI.aligned a ha).add_le
    rcases hI.size a ha with h | h <;> rw [h]
    · have : (0 : UInt64).toNat = 0 := rfl
      omega
    · rwa [pageSize_toNat]

/-- A newly granted area. -/
theorem TableInv.grant (hI : TableInv list) {interface : UInt32} {a : α}
    (h : NfpUdpEcho.offsetTaken list areaReq = some o) (hnew : ∀ a ∈ list, a.req.offset ≠ o) :
    TableInv (list ++ [⟨interface, { areaReq with offset := o }, a, 0⟩]) := by
  obtain ⟨hsize, halign, -⟩ := hI.offsetTaken h
  refine ⟨?_, ?_, ?_, ?_⟩
  · simpa only [List.forall_mem_append, List.forall_mem_singleton] using ⟨hI.aligned, halign⟩
  · simpa only [List.forall_mem_append, List.forall_mem_singleton] using ⟨hI.size, hsize⟩
  · simpa only [List.forall_mem_append, List.forall_mem_singleton, and_true] using hI.vma
  · refine List.pairwise_append.mpr ⟨hI.distinct, List.pairwise_singleton _ _, ?_⟩
    simpa using hnew

/-- Fewer areas keep what is known of all of them. -/
theorem TableInv.sublist (hI : TableInv list) (h : list'.Sublist list) : TableInv list' where
  aligned a ha := hI.aligned a (h.subset ha)
  size a ha := hI.size a (h.subset ha)
  vma a ha := hI.vma a (h.subset ha)
  distinct := hI.distinct.sublist h

/-- What a request does: it grants an area at the offset it takes, or fails. -/
theorem request_cases (interface : UInt16) (areaReq : AreaRequest) (malloc : Bool)
    (area : Option α) (list : List (NfpDevCppArea α)) :
    (∃ o a, malloc = true ∧ area = some a ∧ offsetTaken list areaReq = some o ∧
      (AreaCall.request interface areaReq malloc area).run list
        = (0, list ++ [⟨interface.toUInt32, { areaReq with offset := o }, a, 0⟩])) ∨
      (((AreaCall.request interface areaReq malloc area).run list).1 < 0 ∧
        ((AreaCall.request interface areaReq malloc area).run list).2 = list) := by
  unfold AreaCall.run
  rcases doCppAreaRequest_cases malloc (fun _ _ => (area, ())) interface areaReq list () with
    ⟨o, ho, heq⟩ | ⟨-, hneg, hsame⟩
  · simp only [heq]
    cases malloc with
    | false => exact .inr ⟨show -ENOMEM < 0 by decide, rfl⟩
    | true =>
      cases area with
      | none => exact .inr ⟨show -EINVAL < 0 by decide, rfl⟩
      | some a => exact .inl ⟨o, a, rfl, rfl, ho, rfl⟩
  · exact .inr ⟨hneg, congrArg Prod.fst hsame⟩

/-- **Invariant preservation** and the outcome of a call, outside the blind spots. -/
theorem TableInv.step (hI : TableInv list) (call : AreaCall α) (hspot : NoBlindSpot list call) :
    TableInv (call.run list).2 ∧ CallOutcome list (call.run list).2 (call.run list).1 call := by
  cases call with
  | request interface areaReq malloc area =>
    rcases request_cases interface areaReq malloc area list with
      ⟨o, a, hmalloc, harea, ho, heq⟩ | ⟨hneg, hsame⟩
    · have hnew := hI.ne_of_free ho (hspot hmalloc (by rw [harea]; rfl) o ho)
      rw [heq]
      exact ⟨hI.grant ho hnew, .inl ⟨rfl, o, a, rfl⟩⟩
    · rw [hsame]
      exact ⟨hI, .inr ⟨hneg, rfl⟩⟩
  | release areaReq =>
    unfold AreaCall.run
    rcases doCppAreaRelease_cases (fun _ _ => ()) areaReq list () hI.vma with
      ⟨pre, a, post, rfl, ha, hpre, heq⟩ | ⟨hnone, heq⟩
    · simp only [heq]
      have hsub : (pre ++ post).Sublist (pre ++ a :: post) :=
        (List.sublist_cons_self a post).append_left pre
      refine ⟨hI.sublist hsub, .inl ⟨rfl, pre, a, post, rfl, ha, rfl, ?_⟩⟩
      -- later areas have other offsets because the table has no two of one offset
      have hdist := List.pairwise_cons.mp (List.pairwise_append.mp hI.distinct).2.1
      refine List.forall_mem_append.mpr ⟨hpre, fun b hb heq => ?_⟩
      exact hdist.1 b hb (ha.trans heq.symm)
    · simp only [heq]
      exact ⟨hI, .inr ⟨by decide, rfl, hnone⟩⟩

/-- A request granted in a blind spot spoils the table. -/
theorem TableInv.noBlindSpot_of_ok (call : AreaCall α)
    (hok : TableOk (call.run list).2) : NoBlindSpot list call := by
  cases call with
  | release areaReq => trivial
  | request interface areaReq malloc area =>
    intro hmalloc harea o ho a ha heq
    rcases request_cases interface areaReq malloc area list with
      ⟨o', h, -, -, ho', hrun⟩ | ⟨hneg, -⟩
    · obtain rfl : o' = o := Option.some.inj (ho'.symm.trans ho)
      have hdist := hok.distinct
      rw [hrun] at hdist
      have := (List.pairwise_append.mp hdist).2.2 a ha _ (List.mem_singleton.mpr rfl)
      exact absurd heq this
    · -- with an offset taken and both allocations made the request is granted
      rcases doCppAreaRequest_cases malloc (fun _ _ => (area, ())) interface areaReq list () with
        ⟨o', -, hrun⟩ | ⟨hnone, -⟩
      · obtain ⟨h, rfl⟩ := Option.isSome_iff_exists.mp harea
        subst hmalloc
        unfold AreaCall.run at hneg
        simp only [hrun] at hneg
        exact absurd hneg (lt_irrefl 0)
      · rw [ho] at hnone
        cases hnone

end

/-- **When the area table is in order.** In a sequence of requests and releases every call
leaves a table of distinct, disjoint ranges and does to it what it should, exactly when no
request is granted in a blind spot of the overlap test. -/
theorem areaTable_ok_iff (α : Type) {h : List (Transition (List (NfpDevCppArea α)) (AreaCall α))}
    {list : List (NfpDevCppArea α)} (he : Exec (areaSystem α) h list) :
    (∀ t ∈ h, AreaCallOk t) ↔ ∀ t ∈ h, NoBlindSpot t.src t.label := by
  have hinit : ∀ l : List (NfpDevCppArea α), l = [] → TableInv l := by
    rintro l rfl
    exact ⟨by simp, by simp, by simp, List.Pairwise.nil⟩
  refine he.exact hinit ?_ ?_ ?_
  · rintro list call _ hI ⟨⟩ hspot
    exact (hI.step call hspot).1
  · rintro list call _ hI ⟨⟩ hspot
    obtain ⟨hI', hout⟩ := hI.step call hspot
    exact ⟨hI'.ok, hout⟩
  · rintro list call _ - ⟨⟩ hok
    exact TableInv.noBlindSpot_of_ok call hok.table

/-- Two pages are granted, at the offsets zero and 0x1000; the first is released, refused to a
request that names the second, and granted again. -/
theorem areaTable_ok_iff_two : ∃ h list, Exec (areaSystem Unit) h list ∧
    list.map (·.req.offset) = [0x1000, 0] ∧
    (∀ t ∈ h, NoBlindSpot t.src t.label) ∧ (∀ t ∈ h, AreaCallOk t) := by
  let request (offset : UInt64) : AreaCall Unit :=
    .request 0 ⟨offset, 0, 0, pageSize⟩ true (some ())
  have hrun : (runLabels (guarded (fun list (call : AreaCall Unit) => some (call.run list).2)
      NoBlindSpot) [] [request wildcard, request wildcard, .release ⟨0, 0, 0, 0⟩, request 0x1000,
        request wildcard]).map (·.map (·.req.offset)) = some [0x1000, 0] := by decide +kernel
  obtain ⟨h, list, he, -, hspot, hoffs⟩ := Exec.exists_of_guarded_run (· = []) _ rfl hrun
  exact ⟨h, list, he, hoffs, hspot, (areaTable_ok_iff Unit he).mpr hspot⟩

/-- Two requests of size zero at offset zero are both granted. -/
theorem areaTable_duplicate : ¬ ∀ list : List (NfpDevCppArea Unit),
    (areaSystem Unit).Reachable list → TableOk list := by
  intro hall
  let call : AreaCall Unit := .request 0 ⟨0, 0, 0, 0⟩ true (some ())
  have hrun : (runLabels (fun list (call : AreaCall Unit) => some (call.run list).2) []
      [call, call]).map (·.map (·.req.offset)) = some [0, 0] := by decide
  obtain ⟨list, hreach, hoffs⟩ := System.Reachable.of_run (· = []) _ rfl hrun
  have hdist := List.pairwise_map.mpr (hall list hreach).distinct
  rw [hoffs] at hdist
  exact absurd hdist (by decide)

end NfpUdpEcho
