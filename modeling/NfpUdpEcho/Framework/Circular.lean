import Mathlib.Tactic.Ring
import Mathlib.Tactic.Linarith
import Mathlib.Data.Nat.ModEq

/-!
# Slots of a circular buffer

A circular buffer of `N` slots of `p` bytes each places its `k`-th entry, counted from
the start of time, at byte offset `(k % N) * p`. The lemmas below recover facts about
the absolute counts from facts about the offsets, which is what a program holding only
offsets has to rely on: two counts less than a lap apart are equal exactly when their
offsets are (`slot_eq_iff`), the next offset equals the other end's exactly one slot
before a full lap (`slot_succ_eq_iff`), and different slots share no byte
(`slot_bytes_disjoint`).
-/

namespace Circular

/-- Byte offset of the `k`-th entry in a buffer of `N` slots of `p` bytes. -/
def slot (N p k : ℕ) : ℕ := k % N * p

variable {N p : ℕ}

@[simp] theorem slot_zero : slot N p 0 = 0 := by simp [slot]

/-- A slot lies inside the buffer. -/
theorem slot_add_le (hN : 0 < N) (k : ℕ) : slot N p k + p ≤ N * p := by
  have hlt : k % N + 1 ≤ N := Nat.mod_lt k hN
  calc slot N p k + p = (k % N + 1) * p := by unfold slot; ring
    _ ≤ N * p := Nat.mul_le_mul_right p hlt

theorem slot_eq_of_mod_eq {a b : ℕ} (h : a % N = b % N) : slot N p a = slot N p b := by
  unfold slot
  rw [h]

theorem slot_inj (hp : 0 < p) {a b : ℕ} : slot N p a = slot N p b ↔ a % N = b % N :=
  ⟨fun h => Nat.eq_of_mul_eq_mul_right hp h, slot_eq_of_mod_eq⟩

/-- The next slot, by the rule "add the entry size, back to zero at the capacity". -/
theorem slot_succ (hN : 0 < N) (hp : 0 < p) (k : ℕ) :
    slot N p (k + 1) = if N * p ≤ slot N p k + p then 0 else slot N p k + p := by
  have hk : k % N < N := Nat.mod_lt k hN
  have hsum : slot N p k + p = (k % N + 1) * p := by unfold slot; ring
  rw [hsum]
  by_cases hlast : k % N + 1 = N
  · rw [hlast, if_pos le_rfl]
    unfold slot
    rw [← Nat.mod_add_mod, hlast, Nat.mod_self, Nat.zero_mul]
  · have hlt : k % N + 1 < N := by omega
    rw [if_neg (Nat.not_le.mpr (Nat.mul_lt_mul_of_pos_right hlt hp))]
    unfold slot
    rw [← Nat.mod_add_mod, Nat.mod_eq_of_lt hlt]

/-- The next slot, by the rule "add the entry size modulo the capacity". -/
theorem slot_succ_mod (hN : 0 < N) (hp : 0 < p) (k : ℕ) :
    (slot N p k + p) % (N * p) = slot N p (k + 1) := by
  rw [slot_succ hN hp]
  have hle := slot_add_le (p := p) hN k
  split
  · next h => rw [le_antisymm hle h, Nat.mod_self]
  · next h => exact Nat.mod_eq_of_lt (Nat.not_le.mp h)

/-- Two counts less than a lap apart have the same offset exactly when they are equal. -/
theorem slot_eq_iff (hp : 0 < p) {a b : ℕ} (hab : a ≤ b) (hb : b < a + N) :
    slot N p a = slot N p b ↔ a = b := by
  rw [slot_inj hp]
  refine ⟨fun h => ?_, fun h => by rw [h]⟩
  have hdvd : N ∣ b - a := (Nat.modEq_iff_dvd' hab).mp h
  have hzero : b - a = 0 := Nat.eq_zero_of_dvd_of_lt hdvd (by omega)
  omega

/-- The full test: with less than a lap between the ends, the slot after `b` has the
offset of `a` exactly when `b + 1` is a whole lap ahead of `a`. -/
theorem slot_succ_eq_iff (hp : 0 < p) {a b : ℕ} (hab : a ≤ b) (hb : b < a + N) :
    slot N p (b + 1) = slot N p a ↔ b + 1 = a + N := by
  rw [slot_inj hp]
  refine ⟨fun h => ?_, fun h => by rw [h, Nat.add_mod_right]⟩
  have hdvd : N ∣ b + 1 - a := (Nat.modEq_iff_dvd' (by omega)).mp h.symm
  have hle : N ≤ b + 1 - a := Nat.le_of_dvd (by omega) hdvd
  omega

/-- The bytes from one offset round to another: with less than a lap between the ends, those of
the entries between them. -/
theorem slot_distance (hp : 0 < p) {a b : ℕ} (hab : a ≤ b) (hb : b < a + N) :
    (if slot N p b < slot N p a then N * p - slot N p a + slot N p b
      else slot N p b - slot N p a) = (b - a) * p := by
  have hN : 0 < N := by omega
  have ha : a % N < N := Nat.mod_lt a hN
  have hmod : b % N = (a % N + (b - a)) % N := by
    rw [Nat.mod_add_mod, Nat.add_sub_cancel' hab]
  unfold slot
  simp only [Nat.mul_lt_mul_right hp]
  by_cases hwrap : a % N + (b - a) < N
  · -- the entries between do not pass the end of the buffer
    rw [Nat.mod_eq_of_lt hwrap] at hmod
    rw [if_neg (by omega), ← Nat.sub_mul, hmod, Nat.add_sub_cancel_left]
  · have hlt : a % N + (b - a) - N < N := by omega
    rw [Nat.mod_eq_sub_mod (not_lt.mp hwrap), Nat.mod_eq_of_lt hlt] at hmod
    rw [if_pos (by omega), ← Nat.sub_mul, ← Nat.add_mul]
    exact congrArg (· * p) (by omega)

/-- Bytes of two slots coincide only when the slots do. -/
theorem slot_bytes_disjoint {a b i j : ℕ} (hi : i < p) (hj : j < p)
    (h : slot N p a + i = slot N p b + j) : slot N p a = slot N p b ∧ i = j := by
  unfold slot at h ⊢
  have hdiv : a % N = b % N := by
    have hp : 0 < p := by omega
    have h1 := congrArg (· / p) h
    simpa [Nat.mul_comm _ p, Nat.mul_add_div hp, Nat.div_eq_of_lt hi, Nat.div_eq_of_lt hj] using h1
  rw [hdiv] at h
  exact ⟨by rw [hdiv], by omega⟩

end Circular
