import Mathlib.Data.List.Basic
import Mathlib.Order.Lattice.Nat

/-!
# Splitting a range into consecutive segments

A transfer over `[lo, hi)` is carried out segment by segment. `Tiles lo hi l` says that the
segments `l`, each given by its start and its length, are non-empty, follow each other
without gap or overlap, and cover exactly the range. `split` is the usual way to cut a range:
a first segment of any length, then segments of the granularity `g`, then the rest.
-/

namespace Tiling

/-- The segments `l` partition `[lo, hi)`, in order. -/
def Tiles : ℕ → ℕ → List (ℕ × ℕ) → Prop
  | lo, hi, [] => lo = hi
  | lo, hi, g :: l => g.1 = lo ∧ 0 < g.2 ∧ Tiles (lo + g.2) hi l

/-- A segment inside one window of `g`. -/
def InWindow (g : ℕ) (s : ℕ × ℕ) : Prop := s.1 / g = (s.1 + s.2 - 1) / g

instance (g : ℕ) (s : ℕ × ℕ) : Decidable (InWindow g s) := inferInstanceAs (Decidable (_ = _))

/-- The range of `cnt` from `lo`, its first segment of length `cur`. -/
def split (g lo cur cnt : ℕ) : List (ℕ × ℕ) :=
  if 0 < cnt ∧ 0 < cur then
    (lo, cur) :: split g (lo + cur) (min g (cnt - cur)) (cnt - cur)
  else []
termination_by cnt
decreasing_by omega

variable {g lo cur cnt : ℕ}

theorem split_zero : split g lo cur 0 = [] := by
  rw [split, if_neg (by omega)]

theorem split_pos (hcnt : 0 < cnt) (hcur : 0 < cur) :
    split g lo cur cnt = (lo, cur) :: split g (lo + cur) (min g (cnt - cur)) (cnt - cur) := by
  rw [split, if_pos ⟨hcnt, hcur⟩]

/-- A range that is its own first segment. -/
theorem split_self (hcnt : 0 < cnt) : split g lo cnt cnt = [(lo, cnt)] := by
  rw [split_pos hcnt hcnt, Nat.sub_self, split_zero]

/-- The split covers the range. -/
theorem split_tiles (hg : 0 < g) (hcur : 0 < cnt → 0 < cur) (hle : cur ≤ cnt) :
    Tiles lo (lo + cnt) (split g lo cur cnt) := by
  induction cnt using Nat.strongRecOn generalizing lo cur with
  | ind cnt ih =>
    rcases Nat.eq_zero_or_pos cnt with rfl | hpos
    · rw [split_zero]
      exact rfl
    · have hcur := hcur hpos
      rw [split_pos hpos hcur]
      have hrest : Tiles (lo + cur) (lo + cur + (cnt - cur)) _ :=
        ih (cnt - cur) (by omega) (by omega) (Nat.min_le_right g _)
      rw [show lo + cur + (cnt - cur) = lo + cnt by omega] at hrest
      exact ⟨rfl, hcur, hrest⟩

/-- After a first segment that ends on a boundary, or covers the range, every segment is
inside a window. -/
theorem split_inWindow (hg : 0 < g) (hfirst : 0 < cnt → 0 < cur → InWindow g (lo, cur))
    (hend : cur < cnt → g ∣ lo + cur) : ∀ s ∈ split g lo cur cnt, InWindow g s := by
  induction cnt using Nat.strongRecOn generalizing lo cur with
  | ind cnt ih =>
    rcases Nat.eq_zero_or_pos cnt with rfl | hpos
    · simp [split_zero]
    rcases Nat.eq_zero_or_pos cur with rfl | hcur
    · rw [split, if_neg (by omega)]
      simp
    rw [split_pos hpos hcur]
    refine List.forall_mem_cons.mpr ⟨hfirst hpos hcur, ?_⟩
    refine ih (cnt - cur) (by omega) ?_ ?_
    · -- the next segment starts at a boundary and is no longer than the granularity
      intro hrest hmin
      obtain ⟨k, hk⟩ := hend (by omega)
      show (lo + cur) / g = (lo + cur + min g (cnt - cur) - 1) / g
      have hlast : lo + cur + min g (cnt - cur) - 1 = g * k + (min g (cnt - cur) - 1) := by omega
      rw [hlast, hk, Nat.mul_div_cancel_left k hg, Nat.mul_add_div hg,
        Nat.div_eq_of_lt (show min g (cnt - cur) - 1 < g by omega), Nat.add_zero]
    · intro hlt
      rw [show min g (cnt - cur) = g by omega]
      exact Nat.dvd_add (hend (by omega)) (Nat.dvd_refl g)

end Tiling
