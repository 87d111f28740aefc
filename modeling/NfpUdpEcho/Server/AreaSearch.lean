import Mathlib.Data.List.MinMax
import Mathlib.Order.Interval.Set.Disjoint
import NfpUdpEcho.Server.AreaTable

/-!
# What an area request is answered

The search for a free offset tries the end of one area after the other, in the order of the list,
and tests each against all of them. The largest end collides with no area, so the search never
ends without an offset (`searchOffset_finds`).

A request is to be refused when it is not made of pages or when it meets an area, and granted
otherwise (`AreaLaw`). The mask of the size has one bit instead of twelve, so only sizes of zero
and one page are let through: this is the exact condition for the law (`areaLaw_iff`), but for
the empty requests inside of an area, which meet nothing and are refused.
-/

namespace NfpUdpEcho

open Errno

variable {α σ : Type} {list : List (NfpDevCppArea α)} {areaReq : AreaRequest} {o : UInt64}

/-- The end of an area, as the program computes it. -/
def NfpDevCppArea.endOffset (a : NfpDevCppArea α) : UInt64 := a.req.offset + a.req.size

/-- The search ends with an offset: zero, or the first end that is free. -/
structure SearchFinds (list : List (NfpDevCppArea α)) (areaReq : AreaRequest) : Prop where
  status : (searchOffset list areaReq).1 = 0
  request : { areaReq with offset := (searchOffset list areaReq).2.offset } =
    (searchOffset list areaReq).2
  free : nfpDevCppRangeCheck list (searchOffset list areaReq).2 = 0
  zero : nfpDevCppRangeCheck list { areaReq with offset := 0 } = 0 →
    (searchOffset list areaReq).2.offset = 0
  first : nfpDevCppRangeCheck list { areaReq with offset := 0 } ≠ 0 →
    ∃ pre a post, list = pre ++ a :: post ∧ (searchOffset list areaReq).2.offset = a.endOffset ∧
      ∀ b ∈ pre, nfpDevCppRangeCheck list { areaReq with offset := b.endOffset } ≠ 0
  aligned : (∀ a ∈ list, Aligned a.req.offset ∧ Aligned a.req.size) →
    Aligned (searchOffset list areaReq).2.offset

/-! ### The search -/

theorem Aligned.endOffset {a : NfpDevCppArea α} (h : Aligned a.req.offset ∧ Aligned a.req.size) :
    Aligned a.endOffset := by
  obtain ⟨hoffset, hsize⟩ := h
  unfold Aligned at *
  rw [NfpDevCppArea.endOffset, UInt64.toNat_add]
  omega

/-- **The largest end is free.** -/
theorem exists_free_end (areaReq : AreaRequest) (hne : list ≠ []) :
    ∃ a ∈ list, rangeFree list areaReq a.endOffset = true := by
  cases hmax : list.argmax fun a => a.endOffset.toNat with
  | none => exact absurd (List.argmax_eq_none.mp hmax) hne
  | some a =>
    refine ⟨a, List.argmax_mem hmax, rangeFree_iff.mpr fun b hb hmeet => ?_⟩
    have hle : b.endOffset.toNat ≤ a.endOffset.toNat :=
      List.le_of_mem_argmax (f := fun a : NfpDevCppArea α => a.endOffset.toNat) hb hmax
    -- the range starts at the largest end, and `b` ends before it
    have hlt := UInt64.lt_iff_toNat_lt.mp hmeet.1
    exact absurd hlt (not_lt.mpr hle)

/-- What the search comes to, by whether zero is free. -/
theorem searchOffset_cases (list : List (NfpDevCppArea α)) (areaReq : AreaRequest) :
    ∃ o, searchOffset list areaReq = (0, { areaReq with offset := o }) ∧
      rangeFree list areaReq o = true ∧
      (rangeFree list areaReq 0 = true ∧ o = 0 ∨
        rangeFree list areaReq 0 ≠ true ∧ ∃ pre a post, list = pre ++ a :: post ∧
          o = a.endOffset ∧ ∀ b ∈ pre, rangeFree list areaReq b.endOffset ≠ true) := by
  by_cases hzero : rangeFree list areaReq 0 = true
  · have hcheck : nfpDevCppRangeCheck list { areaReq with offset := 0 } = 0 := beq_iff_eq.mp hzero
    refine ⟨0, ?_, hzero, .inl ⟨hzero, rfl⟩⟩
    unfold searchOffset
    dsimp only
    rw [hcheck]
    rfl
  have hcheck : nfpDevCppRangeCheck list { areaReq with offset := 0 } < 0 :=
    lt_of_le_of_ne (rangeCheck_le list _) fun h => hzero (beq_iff_eq.mpr h)
  -- zero is taken, so there is an area
  have hne : list ≠ [] := by
    rintro rfl
    exact hzero rfl
  have hstart : searchOffset list areaReq =
      searchEnds list list { areaReq with offset := 0 } _ := if_pos hcheck
  rw [hstart]
  rcases searchEnds_spec list list { areaReq with offset := 0 } hcheck with
    ⟨o, hfind, hsearch⟩ | ⟨hnone, -⟩
  · refine ⟨o, hsearch, List.find?_some hfind, .inr ⟨hzero, ?_⟩⟩
    -- the first end that passes splits the list of ends, and so the list of areas
    obtain ⟨-, pre, post, hsplit, hpre⟩ := List.find?_eq_some_iff_append.mp hfind
    obtain ⟨pre', post', rfl, rfl, hcons⟩ := List.map_eq_append_iff.mp hsplit
    obtain ⟨a, post', rfl, rfl, -⟩ := List.map_eq_cons_iff.mp hcons
    refine ⟨pre', a, post', rfl, rfl, fun b hb hfree => ?_⟩
    have hbad := hpre _ (List.mem_map_of_mem hb)
    rw [Bool.not_eq_true'] at hbad
    exact Bool.false_ne_true (hbad.symm.trans hfree)
  · -- the end that is free is among those tried
    obtain ⟨a, ha, hfree⟩ := exists_free_end areaReq hne
    have hbad := List.find?_eq_none.mp hnone _ (List.mem_map_of_mem ha)
    exact absurd hfree hbad

/-- **The search for an offset** finds one in every table. -/
theorem searchOffset_finds (list : List (NfpDevCppArea α)) (areaReq : AreaRequest) :
    SearchFinds list areaReq := by
  obtain ⟨o, hsearch, hfree, hcase⟩ := searchOffset_cases list areaReq
  have hiff (o : UInt64) : rangeFree list areaReq o = true ↔
      nfpDevCppRangeCheck list { areaReq with offset := o } = 0 := beq_iff_eq
  -- the fields are read off the two ways in which the search ends
  refine ⟨?_, ?_, ?_, ?_, ?_, ?_⟩ <;> rw [hsearch]
  · exact (hiff o).mp hfree
  · intro hzero
    rcases hcase with ⟨-, ho⟩ | ⟨hnot, -⟩
    · exact ho
    · exact absurd ((hiff 0).mpr hzero) hnot
  · intro hzero
    rcases hcase with ⟨hok, -⟩ | ⟨-, pre, a, post, hlist, ho, hpre⟩
    · exact absurd ((hiff 0).mp hok) hzero
    · exact ⟨pre, a, post, hlist, ho, fun b hb => (not_congr (hiff _)).mp (hpre b hb)⟩
  · intro haligned
    rcases hcase with ⟨-, rfl⟩ | ⟨-, pre, a, post, rfl, rfl, -⟩
    · rfl
    · exact Aligned.endOffset (haligned a (List.mem_append_right _ List.mem_cons_self))

/-- A wildcard request of a size that is let through is one for the offset that the search
finds. -/
theorem doCppAreaRequest_wildcard (malloc : Bool) (alloc : AreaRequest → σ → Option α × σ)
    (interface : UInt16) (list : List (NfpDevCppArea α)) (s : σ) (hwild : areaReq.offset = wildcard)
    (hsize : areaReq.size &&& ~~~pageSize = 0) :
    doCppAreaRequest malloc alloc interface areaReq list s =
      let q := (searchOffset list areaReq).2
      ((nfpDevCppAreaAlloc malloc alloc interface q list s).1, q,
        (nfpDevCppAreaAlloc malloc alloc interface q list s).2) := by
  have hfinds := searchOffset_finds list areaReq
  unfold doCppAreaRequest
  rw [if_neg (not_not.mpr hsize), if_neg fun h => h.1 hwild]
  -- the offset found is tested once more
  simp only [if_pos hwild, hfinds.status, hfinds.free, ge_iff_le, le_refl, if_true]

/-! ### The law of requests -/

/-- A request in whole pages. -/
def AreaRequest.Paged (q : AreaRequest) : Prop :=
  Aligned q.size ∧ (q.offset = wildcard ∨ Aligned q.offset)

/-- A live area of whole pages, whose end does not wrap. -/
structure AreaRequest.Live (q : AreaRequest) : Prop where
  offset : Aligned q.offset
  size : Aligned q.size
  no_wrap : q.offset.toNat + q.size.toNat < 2 ^ 64

/-- The request asks for a range that shares an address with an area. -/
def Collides (list : List (NfpDevCppArea α)) (areaReq : AreaRequest) : Prop :=
  areaReq.offset ≠ wildcard ∧ ∃ a ∈ list, ¬Disjoint areaReq.range a.req.range

/-- No range that the request may be granted wraps. -/
def RequestFits (list : List (NfpDevCppArea α)) (areaReq : AreaRequest) : Prop :=
  areaReq.offset.toNat + areaReq.size.toNat < 2 ^ 64 ∨
  areaReq.offset = wildcard ∧
    ∀ a ∈ list, a.req.offset.toNat + a.req.size.toNat + areaReq.size.toNat < 2 ^ 64

/-- What a request is to be answered: `-EINVAL` when it is not in pages, `-ETXTBSY` when it
collides, and otherwise a new area, if the library has one. -/
structure AreaLaw (σ : Type) (list : List (NfpDevCppArea α)) (areaReq : AreaRequest) : Prop where
  invalid : ¬areaReq.Paged → ∀ malloc alloc interface (s : σ),
    (doCppAreaRequest malloc alloc interface areaReq list s).1 = -EINVAL ∧
    (doCppAreaRequest malloc alloc interface areaReq list s).2.2 = (list, s)
  busy : areaReq.Paged → Collides list areaReq → ∀ malloc alloc interface (s : σ),
    (doCppAreaRequest malloc alloc interface areaReq list s).1 = -ETXTBSY ∧
    (doCppAreaRequest malloc alloc interface areaReq list s).2.2 = (list, s)
  granted : areaReq.Paged → ¬Collides list areaReq → ∃ o,
    (areaReq.offset ≠ wildcard → o = areaReq.offset) ∧
    (areaReq.offset = wildcard → Aligned o ∧
      ∀ a ∈ list, Disjoint { areaReq with offset := o }.range a.req.range) ∧
    ∀ alloc interface (s s' : σ) area,
      alloc { areaReq with offset := o } s = (some area, s') →
      doCppAreaRequest true alloc interface areaReq list s =
        (0, { areaReq with offset := o },
          list ++ [⟨interface.toUInt32, { areaReq with offset := o }, area, 0⟩], s')

/-- The request is for one page, or it is for none at an offset that is not inside of an area, or
it is not in pages. -/
def OnePage (list : List (NfpDevCppArea α)) (areaReq : AreaRequest) : Prop :=
  ¬areaReq.Paged ∨ areaReq.size = pageSize ∨
  areaReq.size = 0 ∧ (areaReq.offset = wildcard ∨
    ∀ a ∈ list, ¬(a.req.offset < areaReq.offset ∧ areaReq.offset < a.endOffset))

/-! ### The tests -/

theorem and_not_pageSize_iff {size : UInt64} :
    size &&& ~~~pageSize = 0 ↔ size = 0 ∨ size = pageSize := by
  refine ⟨size_cases, ?_⟩
  rintro (rfl | rfl) <;> decide

theorem and_not_pageMask_iff : o &&& ~~~pageMask = 0 ↔ Aligned o := by
  refine ⟨aligned_of_and, fun h => UInt64.toNat_inj.mp ?_⟩
  rw [UInt64.toNat_and, show (~~~pageMask).toNat = 2 ^ 12 - 1 from by decide,
    Nat.and_two_pow_sub_one_eq_mod]
  exact h

theorem rangeCheck_of_not_free (h : rangeFree list areaReq areaReq.offset ≠ true) :
    nfpDevCppRangeCheck list areaReq = -ETXTBSY := by
  induction list with
  | nil => exact absurd rfl h
  | cons a rest ih =>
    rw [nfpDevCppRangeCheck]
    split
    · rfl
    · next hnot =>
      refine ih fun hfree => h ?_
      rw [rangeFree_iff] at hfree ⊢
      exact List.forall_mem_cons.mpr ⟨hnot, hfree⟩

/-- Two ranges share an address: they overlap and neither is empty. -/
theorem not_disjoint_range_iff {q q' : AreaRequest} : ¬Disjoint q.range q'.range ↔
    q.offset.toNat < q'.offset.toNat + q'.size.toNat ∧
      q'.offset.toNat < q.offset.toNat + q.size.toNat ∧ 0 < q.size.toNat ∧ 0 < q'.size.toNat := by
  rw [AreaRequest.range, AreaRequest.range, Set.Ico_disjoint_Ico]
  omega

/-- The overlap test of ranges that do not wrap. -/
theorem overlaps_iff (areaReq : AreaRequest) {a : NfpDevCppArea α} (ha : a.req.Live)
    (hfits : areaReq.offset.toNat + areaReq.size.toNat < 2 ^ 64) :
    areaReq.offset < a.req.offset + a.req.size ∧ areaReq.offset + areaReq.size > a.req.offset ↔
      areaReq.offset.toNat < a.req.offset.toNat + a.req.size.toNat ∧
        a.req.offset.toNat < areaReq.offset.toNat + areaReq.size.toNat := by
  rw [gt_iff_lt, UInt64.lt_iff_toNat_lt, UInt64.lt_iff_toNat_lt, UInt64.toNat_add,
    UInt64.toNat_add, Nat.mod_eq_of_lt ha.no_wrap, Nat.mod_eq_of_lt hfits]

/-! ### The answers -/

section Answers

variable (malloc : Bool) (alloc : AreaRequest → σ → Option α × σ) (interface : UInt16) (s : σ)

theorem request_size_refused (hsize : ¬(areaReq.size = 0 ∨ areaReq.size = pageSize)) :
    doCppAreaRequest malloc alloc interface areaReq list s = (-EINVAL, areaReq, list, s) :=
  if_pos (mt and_not_pageSize_iff.mp hsize)

theorem request_offset_refused (hwild : areaReq.offset ≠ wildcard)
    (hoffset : ¬Aligned areaReq.offset) :
    doCppAreaRequest malloc alloc interface areaReq list s = (-EINVAL, areaReq, list, s) := by
  unfold doCppAreaRequest
  rw [if_pos (c := areaReq.offset ≠ wildcard ∧ _) ⟨hwild, mt and_not_pageMask_iff.mp hoffset⟩,
    ite_self]

/-- A request for an offset is one test. -/
theorem request_explicit (hsize : areaReq.size = 0 ∨ areaReq.size = pageSize)
    (hwild : areaReq.offset ≠ wildcard) (hoffset : Aligned areaReq.offset) :
    doCppAreaRequest malloc alloc interface areaReq list s =
      if rangeFree list areaReq areaReq.offset = true then
        ((nfpDevCppAreaAlloc malloc alloc interface areaReq list s).1, areaReq,
          (nfpDevCppAreaAlloc malloc alloc interface areaReq list s).2)
      else (-ETXTBSY, areaReq, list, s) := by
  unfold doCppAreaRequest
  rw [if_neg (not_not.mpr (and_not_pageSize_iff.mpr hsize)),
    if_neg fun h => h.2 (and_not_pageMask_iff.mpr hoffset)]
  simp only [if_neg hwild, ge_iff_le, le_refl, if_true]
  by_cases hfree : rangeFree list areaReq areaReq.offset = true
  · have hcheck : nfpDevCppRangeCheck list areaReq = 0 := beq_iff_eq.mp hfree
    simp only [hcheck, hfree, le_refl, if_true]
  · rw [rangeCheck_of_not_free hfree, if_neg hfree]
    rfl

/-- An allocation that succeeds. -/
theorem areaAlloc_some {s' : σ} {area : α} (h : alloc areaReq s = (some area, s')) :
    nfpDevCppAreaAlloc true alloc interface areaReq list s =
      (0, list ++ [⟨interface.toUInt32, areaReq, area, 0⟩], s') := by
  rw [nfpDevCppAreaAlloc, if_pos rfl, h]

end Answers

/-- A request for nothing collides with nothing; the test finds it inside of areas. -/
theorem empty_free_iff (hsize : areaReq.size = 0) :
    rangeFree list areaReq areaReq.offset = true ↔
      ∀ a ∈ list, ¬(a.req.offset < areaReq.offset ∧ areaReq.offset < a.endOffset) := by
  rw [rangeFree_iff]
  refine forall₂_congr fun a _ => not_congr ?_
  rw [hsize, UInt64.add_zero, and_comm]
  rfl

theorem not_collides_empty (hsize : areaReq.size = 0) : ¬Collides list areaReq := by
  rintro ⟨-, a, -, hmeet⟩
  rw [not_disjoint_range_iff, hsize] at hmeet
  exact absurd hmeet.2.2.1 (lt_irrefl 0)

theorem aligned_of_size {size : UInt64} (h : size = 0 ∨ size = pageSize) : Aligned size := by
  rcases h with rfl | rfl <;> rfl

theorem OnePage.size (h : OnePage list areaReq) (hpaged : areaReq.Paged) :
    areaReq.size = 0 ∨ areaReq.size = pageSize := by
  rcases h with hnot | hsize | ⟨hsize, -⟩
  · exact absurd hpaged hnot
  · exact .inr hsize
  · exact .inl hsize

section Law

variable (hlive : ∀ a ∈ list, a.req.Live)

include hlive

/-- One page at an offset collides exactly when the overlap test says so. -/
theorem page_free_iff (hsize : areaReq.size = pageSize) (hwild : areaReq.offset ≠ wildcard)
    (hoffset : Aligned areaReq.offset)
    (hfits : areaReq.offset.toNat + areaReq.size.toNat < 2 ^ 64) :
    rangeFree list areaReq areaReq.offset = true ↔ ¬Collides list areaReq := by
  have hmeets (a) (ha : a ∈ list) : ¬Disjoint areaReq.range a.req.range ↔
      areaReq.offset < a.req.offset + a.req.size ∧
        areaReq.offset + areaReq.size > a.req.offset := by
    rw [overlaps_iff areaReq (hlive a ha) hfits, not_disjoint_range_iff, hsize, pageSize_toNat]
    -- an empty area is at a page, not inside of one
    have haligned := (hlive a ha).offset
    unfold Aligned at haligned hoffset
    omega
  rw [rangeFree_iff, Collides]
  constructor
  · rintro hfree ⟨-, a, ha, hmeet⟩
    exact hfree a ha ((hmeets a ha).mp hmeet)
  · intro hnot a ha hover
    exact hnot ⟨hwild, a, ha, (hmeets a ha).mpr hover⟩

/-- The range that the search grants meets no area. -/
theorem searchOffset_disjoint (hfits : RequestFits list areaReq)
    (hwild : areaReq.offset = wildcard) : ∀ a ∈ list, Disjoint
      { areaReq with offset := (searchOffset list areaReq).2.offset }.range a.req.range := by
  obtain ⟨o, hsearch, hfree, hcase⟩ := searchOffset_cases list areaReq
  rw [hsearch]
  dsimp only
  -- the range does not wrap, at zero or at the end of an area
  have hroom : o.toNat + areaReq.size.toNat < 2 ^ 64 := by
    rcases hfits with hsmall | ⟨-, hends⟩
    · have hmax : areaReq.offset.toNat = 2 ^ 64 - 1 := by rw [hwild]; decide
      have ho := o.toNat_lt
      omega
    · rcases hcase with ⟨-, rfl⟩ | ⟨-, pre, a, post, rfl, rfl, -⟩
      · rw [UInt64.toNat_zero, zero_add]
        exact areaReq.size.toNat_lt
      · have ha : a ∈ pre ++ a :: post := List.mem_append_right _ List.mem_cons_self
        rw [NfpDevCppArea.endOffset, UInt64.toNat_add, Nat.mod_eq_of_lt (hlive a ha).no_wrap]
        exact hends a ha
  intro a ha
  by_contra hmeet
  have hover := not_disjoint_range_iff.mp hmeet
  refine rangeFree_iff.mp hfree a ha ?_
  exact (overlaps_iff { areaReq with offset := o } (hlive a ha) hroom).mpr ⟨hover.1, hover.2.1⟩

/-- An explicit request for a page or for nothing is granted exactly when it does not collide. -/
theorem explicit_free_iff (hone : OnePage list areaReq) (hpaged : areaReq.Paged)
    (hwild : areaReq.offset ≠ wildcard)
    (hfits : areaReq.offset.toNat + areaReq.size.toNat < 2 ^ 64) :
    rangeFree list areaReq areaReq.offset = true ↔ ¬Collides list areaReq := by
  rcases hone with hnot | hsize | ⟨hsize, hinside⟩
  · exact absurd hpaged hnot
  · exact page_free_iff hlive hsize hwild (hpaged.2.resolve_left hwild) hfits
  · exact iff_of_true ((empty_free_iff hsize).mpr (hinside.resolve_left hwild))
      (not_collides_empty hsize)

/-- Requests for one page are answered as they are to be. -/
theorem areaLaw_of_onePage (hfits : RequestFits list areaReq) (hone : OnePage list areaReq) :
    AreaLaw σ list areaReq where
  invalid hnot malloc alloc interface s := by
    -- the size is of pages, or the mask refuses it before the offset is looked at
    by_cases hsize : areaReq.size = 0 ∨ areaReq.size = pageSize
    · obtain ⟨hwild, hoffset⟩ := not_or.mp fun h => hnot ⟨aligned_of_size hsize, h⟩
      rw [request_offset_refused malloc alloc interface s hwild hoffset]
      exact ⟨rfl, rfl⟩
    · rw [request_size_refused malloc alloc interface s hsize]
      exact ⟨rfl, rfl⟩
  busy hpaged hmeet malloc alloc interface s := by
    have hwild := hmeet.1
    have hroom := hfits.resolve_right fun h => hwild h.1
    rw [request_explicit malloc alloc interface s (hone.size hpaged) hwild
      (hpaged.2.resolve_left hwild),
      if_neg fun hfree => (explicit_free_iff hlive hone hpaged hwild hroom).mp hfree hmeet]
    exact ⟨rfl, rfl⟩
  granted hpaged hnot := by
    have hsize := hone.size hpaged
    -- the offset is searched for, or it is tested
    by_cases hwild : areaReq.offset = wildcard
    · have hfinds := searchOffset_finds list areaReq
      refine ⟨(searchOffset list areaReq).2.offset, fun h => absurd hwild h, fun _ =>
        ⟨hfinds.aligned fun a ha => ⟨(hlive a ha).offset, (hlive a ha).size⟩,
          searchOffset_disjoint hlive hfits hwild⟩, fun alloc interface s s' area halloc => ?_⟩
      rw [hfinds.request] at halloc ⊢
      rw [doCppAreaRequest_wildcard true alloc interface list s hwild
        (and_not_pageSize_iff.mpr hsize)]
      dsimp only
      rw [areaAlloc_some alloc interface s halloc]
    · have hroom := hfits.resolve_right fun h => hwild h.1
      refine ⟨areaReq.offset, fun _ => rfl, fun h => absurd h hwild,
        fun alloc interface s s' area halloc => ?_⟩
      rw [request_explicit true alloc interface s hsize hwild (hpaged.2.resolve_left hwild),
        if_pos ((explicit_free_iff hlive hone hpaged hwild hroom).mpr hnot),
        areaAlloc_some alloc interface s halloc]

end Law

theorem AreaLaw.granted_zero (h : AreaLaw σ list areaReq) (hpaged : areaReq.Paged)
    (hnot : ¬Collides list areaReq) (area : α) (s : σ) :
    (doCppAreaRequest true (fun _ s => (some area, s)) 0 areaReq list s).1 = 0 := by
  obtain ⟨o, -, -, hgrant⟩ := h.granted hpaged hnot
  rw [hgrant (fun _ s => (some area, s)) 0 s s area rfl]

/-- Requests for other sizes, and for nothing inside of an area, are refused. -/
theorem AreaLaw.onePage (h : AreaLaw σ list areaReq) (area : α) (s : σ) :
    OnePage list areaReq := by
  by_contra hone
  obtain ⟨hpaged, hone⟩ := not_or.mp hone
  obtain ⟨hpage, hempty⟩ := not_or.mp hone
  have hpaged := not_not.mp hpaged
  -- a size of whole pages other than one is zero, or is refused by the mask
  by_cases hzero : areaReq.size = 0
  · -- the test finds the empty range inside of an area
    obtain ⟨hwild, hinside⟩ := not_or.mp fun hor => hempty ⟨hzero, hor⟩
    have hgrant := h.granted_zero hpaged (not_collides_empty hzero) area s
    rw [request_explicit true _ 0 s (.inl hzero) hwild (hpaged.2.resolve_left hwild),
      if_neg (mt (empty_free_iff hzero).mp hinside)] at hgrant
    exact absurd hgrant (show -ETXTBSY ≠ 0 by decide)
  · have hsize : ¬(areaReq.size = 0 ∨ areaReq.size = pageSize) := not_or.mpr ⟨hzero, hpage⟩
    -- refused with `-EINVAL`, where the law has `-ETXTBSY` or a grant
    by_cases hmeet : Collides list areaReq
    · have hbusy := (h.busy hpaged hmeet true (fun _ s => (some area, s)) 0 s).1
      rw [request_size_refused true _ 0 s hsize] at hbusy
      exact absurd hbusy (show -EINVAL ≠ -ETXTBSY by decide)
    · have hgrant := h.granted_zero hpaged hmeet area s
      rw [request_size_refused true _ 0 s hsize] at hgrant
      exact absurd hgrant (show -EINVAL ≠ 0 by decide)

/-- **Area requests** are answered by the law exactly when they are for one page, or for none at
an offset that is not inside of an area. -/
theorem areaLaw_iff [Nonempty α] [Nonempty σ] (list : List (NfpDevCppArea α))
    (areaReq : AreaRequest) (hlive : ∀ a ∈ list, a.req.Live) (hfits : RequestFits list areaReq) :
    AreaLaw σ list areaReq ↔ OnePage list areaReq := by
  obtain ⟨area⟩ := ‹Nonempty α›
  obtain ⟨s⟩ := ‹Nonempty σ›
  exact ⟨fun h => h.onePage area s, areaLaw_of_onePage hlive hfits⟩

/-- The second page of the aperture is asked for while the first is granted. -/
theorem areaLaw_second_page :
    AreaLaw Unit [⟨0, ⟨0, 0, 0, 4096⟩, (), 0⟩] ⟨4096, 0, 0, 4096⟩ := by
  refine (areaLaw_iff _ _ ?_ (.inl (by decide))).mpr (.inr (.inl rfl))
  intro a ha
  obtain rfl := List.mem_singleton.mp ha
  exact ⟨rfl, rfl, by decide⟩

/-- Two pages are two bits of the size. -/
theorem areaLaw_false : ¬∀ (list : List (NfpDevCppArea Unit)) (areaReq : AreaRequest),
    (∀ a ∈ list, a.req.Live) → RequestFits list areaReq → AreaLaw Unit list areaReq := by
  intro hall
  have hlaw := hall [] ⟨0, 0, 0, 8192⟩ (fun _ ha => (by cases ha)) (.inl (by decide))
  have hgrant := hlaw.granted_zero ⟨rfl, .inr rfl⟩ (fun h => (by
    obtain ⟨_, ha, -⟩ := h.2
    cases ha)) () ()
  exact absurd hgrant (by decide)

end NfpUdpEcho
