import Mathlib.Data.List.Nodup
import Mathlib.Data.List.Infix

/-!
# Doubly linked lists

The links of a list in memory, as two functions: `next` takes an element to the one after it and
no element to the first, `prev` takes an element to the one before it. `IsList` says that they
link the elements of a list: wherever the list is split, the last element before the split and
the first one behind it point at each other.

`IsList.push` and `IsList.erase` are what inserting at the front and unlinking do to the list,
with as many links written as the code of such lists writes.

Saying the links through the splits of the list, and not through its indices, is what keeps the
proofs short: an operation that takes a list apart gives a split of the old list for every split of
the new one, and the old links are read there. `next` of nothing is the head pointer, so the empty
list needs no case of its own in the code that walks the links.

* `isList_nil`: a list without elements is a head pointer that points at nothing.
* `IsList.push`: a split of the longer list is either before its new head or inside the old list.
* `IsList.erase`: a split of the shorter list is on one side of the element that went, and the two
  links next to it are the only ones that have to be written.
-/

namespace LinkedList

variable {α : Type}

/-- `next` and `prev` link the elements of `xs`, each of which is there once: at every split of the
list, the element before it and the element behind it point at each other. -/
structure IsList (next prev : Option α → Option α) (xs : List α) : Prop where
  nodup : xs.Nodup
  next : ∀ l r, l ++ r = xs → next l.getLast? = r.head?
  prev : ∀ l r, l ++ r = xs → r ≠ [] → prev r.head? = l.getLast?

variable {next prev next' prev' : Option α → Option α} {xs : List α} {x : α}

theorem isList_nil : IsList next prev [] ↔ next none = none := by
  refine ⟨fun h => h.next [] [] rfl, fun h => ⟨.nil, fun l r hlr => ?_, fun l r hlr hr => ?_⟩⟩
  · obtain ⟨rfl, rfl⟩ := List.append_eq_nil_iff.mp hlr
    exact h
  · exact absurd (List.append_eq_nil_iff.mp hlr).2 hr

/-- **Inserting at the front.** -/
theorem IsList.push (h : IsList next prev xs) (hx : x ∉ xs)
    (hfirst : next' none = some x) (hrest : next' (some x) = next none)
    (hnext : ∀ y, y ≠ x → next' (some y) = next (some y))
    (hnone : prev' (some x) = none) (hback : next none ≠ none → prev' (next none) = some x)
    (hprev : ∀ y, y ≠ x → some y ≠ next none → prev' (some y) = prev (some y)) :
    IsList next' prev' (x :: xs) := by
  have hhead : next none = xs.head? := h.next [] xs rfl
  refine ⟨List.nodup_cons.mpr ⟨hx, h.nodup⟩, fun l r hlr => ?_, fun l r hlr hr => ?_⟩
  -- forward: the split is in front of the new element, or a split of the old list with the new
  -- element on its left
  · obtain ⟨rfl, rfl⟩ | ⟨l, rfl, rfl⟩ := List.append_eq_cons_iff.mp hlr
    · exact hfirst
    · cases hl : l.getLast? with
      | none =>
        -- the new element is the only one before the split
        obtain rfl := List.getLast?_eq_none_iff.mp hl
        exact hrest.trans hhead
      | some y =>
        have hy : y ≠ x := fun he => hx (he ▸ List.mem_append_left _ (List.mem_of_getLast? hl))
        rw [List.getLast?_cons, hl, Option.getD_some, hnext y hy, ← hl]
        exact h.next l r rfl
  · obtain ⟨rfl, rfl⟩ | ⟨l, rfl, rfl⟩ := List.append_eq_cons_iff.mp hlr
    -- backward: only the old first element, if there is one, gets another predecessor
    · exact hnone
    · obtain ⟨y, r, rfl⟩ := List.exists_cons_of_ne_nil hr
      have hy : y ≠ x := fun he => hx (he ▸ List.mem_append_right _ List.mem_cons_self)
      cases hl : l.getLast? with
      | none =>
        obtain rfl := List.getLast?_eq_none_iff.mp hl
        have hne : next none ≠ none := by rw [hhead]; simp
        have hyfirst := hback hne
        rwa [hhead] at hyfirst
      | some z =>
        -- `y` is not the old first element, since that one is already in `l`
        have hyhead : some y ≠ next none := by
          intro he
          have hmem : y ∈ l := by
            cases l with
            | nil => cases hl
            | cons w l =>
              obtain rfl : y = w := Option.some.inj (he.trans hhead)
              exact List.mem_cons_self
          exact List.disjoint_of_nodup_append h.nodup hmem List.mem_cons_self
        rw [List.getLast?_cons, hl, Option.getD_some, List.head?_cons, hprev y hy hyhead, ← hl]
        exact h.prev l (y :: r) rfl (List.cons_ne_nil _ _)

/-- **Unlinking.** Only the neighbours of the element change. -/
theorem IsList.erase [DecidableEq α] (h : IsList next prev xs) (hx : x ∈ xs)
    (hjoin : next' (prev (some x)) = next (some x))
    (hback : next (some x) ≠ none → prev' (next (some x)) = prev (some x))
    (hnext : ∀ y, y ≠ some x → y ≠ prev (some x) → next' y = next y)
    (hprev : ∀ y, y ≠ x → some y ≠ next (some x) → prev' (some y) = prev (some y)) :
    IsList next' prev' (xs.erase x) := by
  obtain ⟨l₀, r₀, rfl⟩ := List.mem_iff_append.mp hx
  have hnodup := List.nodup_middle.mp h.nodup
  obtain ⟨hxmem, hnodup⟩ := List.nodup_cons.mp hnodup
  have hxl : x ∉ l₀ := fun hmem => hxmem (List.mem_append_left _ hmem)
  have hxr : x ∉ r₀ := fun hmem => hxmem (List.mem_append_right _ hmem)
  have hbefore : prev (some x) = l₀.getLast? :=
    h.prev l₀ (x :: r₀) rfl (List.cons_ne_nil _ _)
  have hafter : next (some x) = r₀.head? := by
    have hsplit := h.next (l₀ ++ [x]) r₀ (by simp)
    rwa [List.getLast?_concat] at hsplit
  -- from here on the links of the element are the ends of the two parts around it
  rw [hbefore] at hjoin hback hnext
  rw [hafter] at hjoin hback hprev
  rw [List.erase_append_right _ hxl, List.erase_cons_head]
  obtain ⟨hnl, hnr, hdisj⟩ := List.nodup_append'.mp hnodup
  refine ⟨hnodup, fun l r hlr => ?_, fun l r hlr hr => ?_⟩
  -- forward
  · obtain ⟨c, rfl, rfl⟩ | ⟨c, rfl, rfl⟩ := List.append_eq_append_iff.mp hlr
    · -- the split is before the element
      cases c with
      | nil => simpa using hjoin
      | cons y c =>
        have hold := h.next l (y :: c ++ x :: r₀) (by simp)
        rw [hnext, hold]
        · rfl
        · exact fun he => hxl (List.mem_append_left _ (List.mem_of_getLast? he))
        · intro he
          obtain ⟨z, hz⟩ : ∃ z, (y :: c).getLast? = some z := by simp [List.getLast?_cons]
          rw [List.getLast?_append, hz] at he
          exact List.disjoint_of_nodup_append hnl (List.mem_of_getLast? he)
            (List.mem_of_getLast? hz)
    · -- it is behind
      cases hc : c.getLast? with
      | none =>
        obtain rfl := List.getLast?_eq_none_iff.mp hc
        simpa using hjoin
      | some z =>
        have hold := h.next (l₀ ++ x :: c) r (by simp)
        have hzc := List.mem_of_getLast? hc
        have hlast : (l₀ ++ x :: c).getLast? = some z := by
          rw [List.getLast?_append, List.getLast?_cons, hc]
          rfl
        rw [hlast] at hold
        rw [List.getLast?_append, hc, Option.some_or, hnext, hold]
        · rintro he
          obtain rfl := Option.some.inj he
          exact hxr (List.mem_append_left _ hzc)
        · exact fun he => hdisj (List.mem_of_getLast? he.symm) (List.mem_append_left _ hzc)
  · -- backward, with the same two cases
    obtain ⟨c, rfl, rfl⟩ | ⟨c, rfl, rfl⟩ := List.append_eq_append_iff.mp hlr
    · cases c with
      | nil =>
        rw [List.nil_append] at hr ⊢
        rw [hback (by simpa using hr), List.append_nil]
      | cons y c =>
        have hyl : y ∈ l ++ y :: c := List.mem_append_right _ List.mem_cons_self
        have hold := h.prev l (y :: c ++ x :: r₀) (by simp) (List.cons_ne_nil _ _)
        rw [List.cons_append, List.head?_cons, hprev y, ← hold]
        · rfl
        · exact fun he => hxl (he ▸ hyl)
        · exact fun he => hdisj hyl (List.mem_of_head? he.symm)
    · obtain ⟨w, r, rfl⟩ := List.exists_cons_of_ne_nil hr
      cases hc : c.getLast? with
      | none =>
        obtain rfl := List.getLast?_eq_none_iff.mp hc
        simpa using hback (by simp)
      | some z =>
        have hold := h.prev (l₀ ++ x :: c) (w :: r) (by simp) (List.cons_ne_nil _ _)
        have hwr : w ∈ c ++ w :: r := List.mem_append_right _ List.mem_cons_self
        rw [List.getLast?_append, List.getLast?_cons, hc] at hold
        rw [List.head?_cons, hprev w, List.getLast?_append, hc]
        · exact hold
        · exact fun he => hxr (he ▸ hwr)
        · intro he
          obtain ⟨v, c, rfl⟩ := List.exists_cons_of_ne_nil (l := c) (by rintro rfl; cases hc)
          obtain rfl : w = v := Option.some.inj he
          exact List.disjoint_of_nodup_append hnr List.mem_cons_self List.mem_cons_self

end LinkedList
