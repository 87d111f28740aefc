import Mathlib.Data.Nat.ModEq

/-!
# Copies between memories addressed by machine words

A DMA engine reads consecutive addresses of one memory and writes consecutive addresses of
another, where the addresses are words and wrap. `blit` is one such transfer. `Copied` says what
a number of them amount to: byte `k` of the frame has gone from address `s k` to address `d k`,
for arbitrary placements `s` and `d`, and nothing else has changed. A placement that is
contiguous but for one seam takes two transfers (`copied_of_two`).
-/

namespace WordMem

variable {v w : ℕ} {A B C : Type}

/-- `dst` after the `n` bytes at `a` of `src` have been copied to `b`. -/
def blit (src : BitVec v → UInt8) (a : BitVec v) (n : ℕ) (dst : BitVec w → UInt8)
    (b : BitVec w) : BitVec w → UInt8 := fun x =>
  if (x - b).toNat < n then src (a + BitVec.ofNat v (x - b).toNat) else dst x

/-- `dst'` is `dst` but for the `L` bytes at `d`, which are those of `src` at `s`. -/
structure Copied (src : A → UInt8) (s : ℕ → A) (dst : B → UInt8) (d : ℕ → B) (L : ℕ)
    (dst' : B → UInt8) : Prop where
  bytes : ∀ k < L, dst' (d k) = src (s k)
  frame : ∀ x, (∀ k < L, x ≠ d k) → dst' x = dst x

/-- A frame copied on carries the same bytes. -/
theorem Copied.trans {src : A → UInt8} {mid mid' : B → UInt8} {dst dst' : C → UInt8}
    {s : ℕ → A} {m : ℕ → B} {d : ℕ → C} {L k : ℕ} (h : Copied src s mid m L mid')
    (h' : Copied mid' m dst d L dst') (hk : k < L) : dst' (d k) = src (s k) := by
  rw [h'.bytes k hk, h.bytes k hk]

theorem add_ofNat_sub (b : BitVec w) {k : ℕ} (hk : k < 2 ^ w) :
    (b + BitVec.ofNat w k - b).toNat = k := by
  rw [BitVec.add_comm, BitVec.add_sub_cancel, BitVec.toNat_ofNat, Nat.mod_eq_of_lt hk]

theorem add_ofNat_inj (b : BitVec w) {i j : ℕ} (hi : i < 2 ^ w) (hj : j < 2 ^ w)
    (h : b + BitVec.ofNat w i = b + BitVec.ofNat w j) : i = j := by
  rw [← add_ofNat_sub b hi, h, add_ofNat_sub b hj]

variable {src : BitVec v → UInt8} {a a₁ a₂ : BitVec v} {dst : BitVec w → UInt8}
  {b b₁ b₂ : BitVec w} {n m k : ℕ}

@[simp] theorem blit_zero : blit src a 0 dst b = dst := rfl

theorem blit_in (hk : k < n) (hn : n ≤ 2 ^ w) :
    blit src a n dst b (b + BitVec.ofNat w k) = src (a + BitVec.ofNat v k) := by
  unfold blit
  rw [add_ofNat_sub b (Nat.lt_of_lt_of_le hk hn), if_pos hk]

theorem blit_start (hn : 0 < n) : blit src a n dst b b = src a := by
  unfold blit
  rw [BitVec.sub_self]
  exact (if_pos hn).trans (congrArg src (BitVec.add_zero a))

theorem blit_out {x : BitVec w} (h : ∀ k < n, x ≠ b + BitVec.ofNat w k) :
    blit src a n dst b x = dst x := by
  unfold blit
  refine if_neg fun hlt => h _ hlt ?_
  rw [BitVec.ofNat_toNat, BitVec.setWidth_eq, BitVec.add_comm, BitVec.sub_add_cancel]

/-- Whatever a transfer leaves at an address is a byte of the source, at an offset in the
transfer, or what was there. -/
theorem blit_cases (x : BitVec w) :
    (∃ k < n, x = b + BitVec.ofNat w k ∧ blit src a n dst b x = src (a + BitVec.ofNat v k)) ∨
      blit src a n dst b x = dst x := by
  by_cases h : (x - b).toNat < n
  · refine .inl ⟨_, h, ?_, if_pos h⟩
    rw [BitVec.ofNat_toNat, BitVec.setWidth_eq, BitVec.add_comm, BitVec.sub_add_cancel]
  · exact .inr (if_neg h)

/-- **Two transfers**, of the first `m` bytes and of the `n` after them. -/
theorem copied_of_two {s : ℕ → BitVec v} {d : ℕ → BitVec w} {L : ℕ} (hL : m + n = L)
    (hlen : L ≤ 2 ^ w)
    (hs₁ : ∀ k < m, s k = a₁ + BitVec.ofNat v k) (hd₁ : ∀ k < m, d k = b₁ + BitVec.ofNat w k)
    (hs₂ : ∀ k < n, s (m + k) = a₂ + BitVec.ofNat v k)
    (hd₂ : ∀ k < n, d (m + k) = b₂ + BitVec.ofNat w k)
    (hinj : ∀ i < m, ∀ j < n, d i ≠ d (m + j)) :
    Copied src s dst d L (blit src a₂ n (blit src a₁ m dst b₁) b₂) where
  bytes k hk := by
    by_cases hm : k < m
    · rw [blit_out fun j hj => by rw [← hd₂ j hj]; exact hinj k hm j hj, hd₁ k hm,
        blit_in hm (by omega), hs₁ k hm]
    · obtain ⟨j, rfl⟩ := Nat.exists_eq_add_of_le (Nat.le_of_not_lt hm)
      have hj : j < n := by omega
      rw [hd₂ j hj, blit_in hj (by omega), hs₂ j hj]
  frame x hx := by
    rw [blit_out fun j hj => ?_, blit_out fun i hi => ?_]
    · rw [← hd₁ i hi]
      exact hx i (by omega)
    · rw [← hd₂ j hj]
      exact hx (m + j) (by omega)

end WordMem
