import Mathlib.Data.List.Basic
import Mathlib.Logic.Function.Basic

/-!
# In-place compaction of an array

A program that drops entries of an array without a second one walks it with a reading and a
writing cursor: a kept entry is copied down to the writing cursor, a dropped one is passed
over. Since the writing cursor never overtakes the reading one, what is left is the list of the
kept entries, in order (`entries_compact`).
-/

namespace InPlace

variable {α : Type}

/-- The `n` entries of `a` from index `lo` on. -/
def entries (a : ℕ → α) (lo n : ℕ) : List α := (List.range' lo n).map a

@[simp] theorem entries_zero (a : ℕ → α) (lo : ℕ) : entries a lo 0 = [] := rfl

theorem entries_succ (a : ℕ → α) (lo n : ℕ) :
    entries a lo (n + 1) = a lo :: entries a (lo + 1) n := rfl

theorem entries_concat (a : ℕ → α) (lo n : ℕ) :
    entries a lo (n + 1) = entries a lo n ++ [a (lo + n)] := by
  rw [entries, List.range'_1_concat, List.map_append]
  rfl

@[simp] theorem length_entries (a : ℕ → α) (lo n : ℕ) : (entries a lo n).length = n := by
  rw [entries, List.length_map, List.length_range']

theorem mem_entries {a : ℕ → α} {lo n : ℕ} {x : α} :
    x ∈ entries a lo n ↔ ∃ i, lo ≤ i ∧ i < lo + n ∧ a i = x := by
  simp only [entries, List.mem_map, List.mem_range'_1, and_assoc]

theorem entries_congr {a b : ℕ → α} {lo n : ℕ} (h : ∀ i, lo ≤ i → i < lo + n → a i = b i) :
    entries a lo n = entries b lo n := by
  refine List.map_congr_left fun i hi => ?_
  obtain ⟨hlo, hhi⟩ := List.mem_range'_1.mp hi
  exact h i hlo hhi

/-- Writing outside the entries leaves them alone. -/
theorem entries_update (a : ℕ → α) {lo n i : ℕ} (x : α) (h : i < lo ∨ lo + n ≤ i) :
    entries (Function.update a i x) lo n = entries a lo n := by
  refine entries_congr fun k hlo hhi => Function.update_of_ne ?_ _ _
  omega

/-! ### The loop -/

variable (keep : α → Bool) (f : α → α)

/-- The loop over the `n` entries from the reading cursor `i` on, with the writing cursor `j`:
the array and the writing cursor it ends with. A kept entry may be changed by `f`. -/
def compact : ℕ → ℕ → ℕ → (ℕ → α) → (ℕ → α) × ℕ
  | 0, _, j, a => (a, j)
  | n + 1, i, j, a =>
    if keep (a i) then compact n (i + 1) (j + 1) (Function.update a j (f (a i)))
    else compact n (i + 1) j a

variable {keep f}

/-- The loop does not write below the writing cursor. -/
theorem compact_below {n i j k : ℕ} {a : ℕ → α} (hk : k < j) :
    (compact keep f n i j a).1 k = a k := by
  induction n generalizing i j a with
  | zero => rfl
  | succ n ih =>
    unfold compact
    split
    · rw [ih (Nat.lt_succ_of_lt hk), Function.update_of_ne (Nat.ne_of_lt hk)]
    · exact ih hk

/-- The writing cursor moves once for each kept entry. -/
theorem compact_end {n i j : ℕ} {a : ℕ → α} (hji : j ≤ i) :
    (compact keep f n i j a).2 = j + ((entries a i n).filter keep).length := by
  induction n generalizing i j a with
  | zero => rfl
  | succ n ih =>
    unfold compact
    rw [entries_succ, List.filter_cons]
    split
    · rw [ih (by omega), entries_update a _ (by omega), List.length_cons]
      omega
    · exact ih (by omega)

/-- **Compaction.** From the writing cursor on stand the kept entries, in order. -/
theorem entries_compact {n i j : ℕ} {a : ℕ → α} (hji : j ≤ i) :
    entries (compact keep f n i j a).1 j ((entries a i n).filter keep).length =
      ((entries a i n).filter keep).map f := by
  induction n generalizing i j a with
  | zero => rfl
  | succ n ih =>
    unfold compact
    rw [entries_succ, List.filter_cons]
    split
    · have hrest := ih (i := i + 1) (j := j + 1) (a := Function.update a j (f (a i))) (by omega)
      rw [entries_update a _ (by omega)] at hrest
      rw [List.length_cons, entries_succ, List.map_cons, hrest, compact_below (Nat.lt_succ_self j),
        Function.update_self]
    · exact ih (by omega)

end InPlace
