import Mathlib.Algebra.CharP.Two
import Mathlib.Algebra.Field.ZMod
import Mathlib.RingTheory.AdjoinRoot

/-!
# Cyclic redundancy checks

A register of `w` bits is a polynomial over the field of two elements (`toPoly`). A check has a
generator, of degree `w`; `p` are its other coefficients. The register is shifted by one place
for every bit (`shift`) and takes a byte in at its upper end (`update`).

In the ring of residues modulo the generator, shifting is the multiplication by the root
(`residue_shift`), so that a register that has taken in a message is the message times the
`w`-th power of the root (`residue_run`). With an odd generator the root is a unit, and a
message that differs from another in at most `w` successive bits leaves another register
(`run_ne_of_window`).

Nothing here is about one polynomial or one width: the generator is a parameter, and a user shows
that the bits of its own code compute `shift` and `update`. The degree of what is left of a message
is below that of the generator, so equal residues are equal registers (`eq_of_mk_eq`).
-/

open Polynomial

namespace Crc

variable {w : ℕ}

/-- The polynomial of a register. -/
noncomputable def toPoly (x : BitVec w) : (ZMod 2)[X] :=
  ∑ i ∈ Finset.range w, C (if x.getLsbD i then 1 else 0) * X ^ i

/-- The coefficients are the bits. -/
theorem coeff_toPoly (x : BitVec w) (i : ℕ) :
    (toPoly x).coeff i = if x.getLsbD i then 1 else 0 := by
  rw [toPoly, finsetSum_coeff]
  simp only [coeff_C_mul, coeff_X_pow, mul_ite, mul_one, mul_zero, Finset.sum_ite_eq,
    Finset.mem_range]
  by_cases hi : i < w
  · rw [if_pos hi]
  · rw [if_neg hi, BitVec.getLsbD_of_ge x i (not_lt.mp hi)]
    rfl

/-- A register has `w` bits. -/
theorem degree_toPoly_lt (x : BitVec w) : (toPoly x).degree < w := by
  refine (degree_lt_iff_coeff_zero _ _).mpr fun i hi => ?_
  rw [coeff_toPoly, BitVec.getLsbD_of_ge x i hi]
  rfl

/-- In the field of two elements adding is the exclusive or. -/
theorem toPoly_xor (x y : BitVec w) : toPoly (x ^^^ y) = toPoly x + toPoly y := by
  ext i
  rw [coeff_add, coeff_toPoly, coeff_toPoly, coeff_toPoly, BitVec.getLsbD_xor]
  cases x.getLsbD i <;> cases y.getLsbD i <;> rfl

/-! ### The register

One bit, then one byte, then a message, each as an equation in the ring of residues. -/

/-- One place, with the other coefficients of the generator. -/
def shift (p x : BitVec w) : BitVec w := (x <<< 1) ^^^ (if x.msb then p else 0)

/-- One byte. -/
def update (p x : BitVec w) (b : BitVec 8) : BitVec w :=
  (shift p)^[8] (x ^^^ (b.setWidth w <<< (w - 8)))

/-- A message. -/
def run (p x : BitVec w) (bs : List (BitVec 8)) : BitVec w := bs.foldl (update p) x

/-- The generator. -/
noncomputable def generator (p : BitVec w) : (ZMod 2)[X] := X ^ w + toPoly p

variable (p : BitVec w)

/-- The top coefficient is one and stands for the bit that is shifted out. -/
theorem monic_generator : (generator p).Monic := monic_X_pow_add (degree_toPoly_lt p)

/-- The generator is one degree above every register. -/
theorem natDegree_generator : (generator p).natDegree = w := by
  refine natDegree_eq_of_degree_eq_some ?_
  rw [generator, degree_add_eq_left_of_degree_lt] <;> rw [degree_X_pow]
  exact degree_toPoly_lt p

/-- Residues modulo the generator. -/
abbrev Residue : Type := AdjoinRoot (generator p)

/-- The residue of a register. -/
noncomputable def residue (x : BitVec w) : Residue p := AdjoinRoot.mk _ (toPoly x)

/-- Taking the residue is linear. -/
theorem residue_xor (x y : BitVec w) : residue p (x ^^^ y) = residue p x + residue p y := by
  rw [residue, toPoly_xor, map_add]
  rfl

/-- A polynomial of a degree below `w` is known from its residue. -/
theorem eq_of_mk_eq {f g : (ZMod 2)[X]} (hf : f.degree < w) (hg : g.degree < w)
    (h : AdjoinRoot.mk (generator p) f = AdjoinRoot.mk (generator p) g) : f = g := by
  have hdegree : (generator p).degree = w := by
    rw [degree_eq_natDegree (monic_generator p).ne_zero, natDegree_generator]
  refine sub_eq_zero.mp (eq_zero_of_dvd_of_degree_lt (AdjoinRoot.mk_eq_mk.mp h) ?_)
  rw [hdegree]
  exact lt_of_le_of_lt (degree_sub_le f g) (max_lt hf hg)

/-- The bit that leaves the register is the coefficient at `w`. -/
theorem toPoly_shiftLeft_one (x : BitVec w) :
    toPoly (x <<< 1) + (if x.msb then X ^ w else 0) = X * toPoly x := by
  ext i
  have htop : (if x.msb then X ^ w else 0 : (ZMod 2)[X]).coeff i =
      if x.msb ∧ i = w then 1 else 0 := by
    cases x.msb <;> simp [coeff_X_pow]
  rw [coeff_add, coeff_toPoly, BitVec.getLsbD_shiftLeft, htop]
  cases i with
  | zero =>
    have hlow : ¬(x.msb = true ∧ 0 = w) := by
      rintro ⟨hmsb, rfl⟩
      rw [BitVec.eq_nil x] at hmsb
      cases hmsb
    simp [hlow]
  | succ i =>
    rw [coeff_X_mul, coeff_toPoly, BitVec.msb_eq_getLsbD_last]
    by_cases hlast : i + 1 = w
    · subst hlast
      simp
    · by_cases hi : i + 1 < w
      · simp [hi, hlast]
      · simp [hi, hlast, BitVec.getLsbD_of_ge x i (by omega)]

/-- **Shifting is the multiplication by the root.** -/
theorem residue_shift (x : BitVec w) :
    residue p (shift p x) = AdjoinRoot.root (generator p) * residue p x := by
  rw [residue, residue, ← AdjoinRoot.mk_X, ← map_mul, ← toPoly_shiftLeft_one, shift, toPoly_xor]
  refine AdjoinRoot.mk_eq_mk.mpr ?_
  rw [add_sub_add_left_eq_sub]
  cases x.msb with
  | false =>
    have hzero : toPoly (0#w) = 0 := by
      ext i
      simp [coeff_toPoly]
    simp [hzero]
  | true =>
    refine ⟨1, ?_⟩
    simp only [if_true, generator, CharTwo.sub_eq_add]
    ring

/-- Several places at once. -/
theorem residue_shifts (n : ℕ) (x : BitVec w) :
    residue p ((shift p)^[n] x) = AdjoinRoot.root (generator p) ^ n * residue p x := by
  induction n with
  | zero => rw [Function.iterate_zero, id, pow_zero, one_mul]
  | succ n ih => rw [Function.iterate_succ', Function.comp, residue_shift, ih, pow_succ', mul_assoc]

/-- A byte at the upper end of a register. -/
theorem toPoly_high (b : BitVec 8) (hw : 8 ≤ w) :
    toPoly (b.setWidth w <<< (w - 8)) = X ^ (w - 8) * toPoly b := by
  ext i
  rw [coeff_X_pow_mul', coeff_toPoly, coeff_toPoly, BitVec.getLsbD_shiftLeft,
    BitVec.getLsbD_setWidth]
  by_cases hi : w - 8 ≤ i
  · by_cases hiw : i < w
    · simp [hi, hiw, show i - (w - 8) < w by omega]
    · simp [hi, hiw, BitVec.getLsbD_of_ge b (i - (w - 8)) (by omega)]
  · simp [hi]

/-- **One byte**, with what it adds. -/
theorem residue_update (hw : 8 ≤ w) (x : BitVec w) (b : BitVec 8) :
    residue p (update p x b) = AdjoinRoot.root (generator p) ^ 8 * residue p x +
      AdjoinRoot.root (generator p) ^ w * AdjoinRoot.mk _ (toPoly b) := by
  have hpow : (8 : ℕ) + (w - 8) = w := Nat.add_sub_cancel' hw
  rw [update, residue_shifts, residue_xor, mul_add]
  congr 1
  rw [residue, toPoly_high b hw, map_mul, map_pow, AdjoinRoot.mk_X, ← mul_assoc, ← pow_add, hpow]

/-! ### Messages

The bits of a message are the coefficients of a polynomial, the first byte at the top. -/

/-- The polynomial of a message, whose first bit is the highest. -/
noncomputable def message (bs : List (BitVec 8)) : (ZMod 2)[X] :=
  bs.foldl (fun f b => X ^ 8 * f + toPoly b) 0

/-- A message behind a prefix, byte after byte. -/
theorem foldl_message (bs : List (BitVec 8)) (f : (ZMod 2)[X]) :
    bs.foldl (fun f b => X ^ 8 * f + toPoly b) f = X ^ (8 * bs.length) * f + message bs := by
  induction bs generalizing f with
  | nil => simp [message]
  | cons b bs ih =>
    have hfirst : message (b :: bs) = X ^ (8 * bs.length) * (X ^ 8 * 0 + toPoly b) + message bs :=
      ih _
    rw [List.foldl_cons, ih, hfirst, List.length_cons, Nat.mul_succ, pow_add]
    ring

/-- The first part of a message stands above the second. -/
theorem message_append (u v : List (BitVec 8)) :
    message (u ++ v) = X ^ (8 * v.length) * message u + message v := by
  rw [message, List.foldl_append, foldl_message]
  rfl

/-- One more byte moves the others up by eight places. -/
theorem message_snoc (u : List (BitVec 8)) (b : BitVec 8) :
    message (u ++ [b]) = X ^ 8 * message u + toPoly b := by
  rw [message, List.foldl_append]
  rfl

/-- The same for a single coefficient. -/
theorem coeff_message_snoc (u : List (BitVec 8)) (b : BitVec 8) (i : ℕ) :
    (message (u ++ [b])).coeff i =
      if 8 ≤ i then (message u).coeff (i - 8) else if b.getLsbD i then 1 else 0 := by
  rw [message_snoc, coeff_add, coeff_X_pow_mul', coeff_toPoly]
  by_cases hi : 8 ≤ i
  · simp [hi]
  · simp [hi]

/-- A message has eight coefficients for each of its bytes. -/
theorem degree_message_lt (bs : List (BitVec 8)) :
    (message bs).degree < (8 * bs.length : ℕ) := by
  refine (degree_lt_iff_coeff_zero _ _).mpr fun i hi => ?_
  induction bs using List.reverseRecOn generalizing i with
  | nil => exact coeff_zero i
  | append_singleton bs b ih =>
    rw [List.length_append, List.length_singleton] at hi
    rw [coeff_message_snoc, if_pos (by omega)]
    exact ih (i - 8) (by omega)

/-- A message is known from its polynomial and its length. -/
theorem message_injective {u v : List (BitVec 8)} (hlen : u.length = v.length)
    (h : message u = message v) : u = v := by
  induction u using List.reverseRecOn generalizing v with
  | nil => exact (List.length_eq_zero_iff.mp hlen.symm).symm
  | append_singleton u b ih =>
    rw [List.length_append, List.length_singleton] at hlen
    obtain ⟨v, c, rfl⟩ := (List.eq_nil_or_concat' v).resolve_left fun hnil => by
      rw [hnil] at hlen
      cases hlen
    rw [List.length_append, List.length_singleton, Nat.add_right_cancel_iff] at hlen
    have hcoeff (i : ℕ) := congrArg (fun f : (ZMod 2)[X] => f.coeff i) h
    simp only [coeff_message_snoc] at hcoeff
    have huv : message u = message v := by
      ext i
      simpa using hcoeff (i + 8)
    have hbc : b = c := by
      refine BitVec.eq_of_getLsbD_eq fun i hi => ?_
      have hbit := hcoeff i
      simp only [if_neg (not_le.mpr hi)] at hbit
      cases hb : b.getLsbD i <;> cases hc : c.getLsbD i <;> simp [hb, hc] at hbit ⊢
    rw [ih hlen huv, hbc]

/-- **A register that has taken in a message.** -/
theorem residue_run (hw : 8 ≤ w) (x : BitVec w) (bs : List (BitVec 8)) :
    residue p (run p x bs) = AdjoinRoot.root (generator p) ^ (8 * bs.length) * residue p x +
      AdjoinRoot.root (generator p) ^ w * AdjoinRoot.mk _ (message bs) := by
  induction bs using List.reverseRecOn with
  | nil => simp [run, message]
  | append_singleton bs b ih =>
    rw [run, List.foldl_append, List.foldl_cons, List.foldl_nil, residue_update p hw,
      show bs.foldl (update p) x = run p x bs from rfl, ih, message_snoc, map_add, map_mul, map_pow,
      AdjoinRoot.mk_X, List.length_append, List.length_singleton, Nat.mul_succ, pow_add]
    ring

/-- The register of an empty start is the remainder of the message. -/
theorem toPoly_run (hw : 8 ≤ w) (bs : List (BitVec 8)) :
    toPoly (run p 0 bs) = (X ^ w * message bs) %ₘ generator p := by
  have hzero : residue p 0 = 0 := by
    have hpoly : toPoly (0#w) = 0 := by
      ext i
      simp [coeff_toPoly]
    exact (congrArg _ hpoly).trans (map_zero _)
  have hrun := residue_run p hw 0 bs
  rw [hzero, mul_zero, zero_add, ← AdjoinRoot.mk_X, ← map_pow, ← map_mul] at hrun
  have hdegree : (generator p).degree = w := by
    rw [degree_eq_natDegree (monic_generator p).ne_zero, natDegree_generator]
  rw [← modByMonic_eq_of_dvd_sub (monic_generator p) (AdjoinRoot.mk_eq_mk.mp hrun)]
  refine ((modByMonic_eq_self_iff (monic_generator p)).mpr ?_).symm
  rw [hdegree]
  exact degree_toPoly_lt _

/-! ### What is detected

Two messages of one length differ by a polynomial. If that is short, and moved up by a number of
places only, the generator does not divide it. -/

variable {p}

/-- The root of an odd generator is a unit. -/
theorem isUnit_root (hp : p.getLsbD 0 = true) (hw : 0 < w) :
    IsUnit (AdjoinRoot.root (generator p)) := by
  have hconst : (generator p).coeff 0 = 1 := by
    rw [generator, coeff_add, coeff_toPoly, if_pos hp, coeff_X_pow, if_neg hw.ne, zero_add]
  have hdiv : X * (generator p).divX + C 1 = generator p := by
    rw [← hconst]
    exact X_mul_divX_add _
  have hroot : AdjoinRoot.root (generator p) * AdjoinRoot.mk _ (generator p).divX + 1 = 0 := by
    have h := congrArg (AdjoinRoot.mk (generator p)) hdiv
    rwa [map_add, map_mul, AdjoinRoot.mk_X, AdjoinRoot.mk_self, map_one, map_one] at h
  refine IsUnit.of_mul_eq_one (-AdjoinRoot.mk _ (generator p).divX) ?_
  rw [mul_neg, eq_neg_of_add_eq_zero_left hroot, neg_neg]

/-- **A burst is detected.** Two messages that differ in a window of at most `w` bits leave
different registers. -/
theorem run_ne_of_window (hw : 8 ≤ w) (hp : p.getLsbD 0 = true) (x : BitVec w)
    (a b : List (BitVec 8)) {u v : List (BitVec 8)} (hlen : u.length = v.length)
    (hshort : 8 * u.length ≤ w) (hne : u ≠ v) :
    run p x (a ++ u ++ b) ≠ run p x (a ++ v ++ b) := by
  intro h
  have hunit := isUnit_root hp (by omega)
  have hres := congrArg (residue p) h
  have hlength : (a ++ u ++ b).length = (a ++ v ++ b).length := by
    simp only [List.length_append, hlen]
  rw [residue_run p hw, residue_run p hw, hlength] at hres
  have hmsg := (hunit.pow w).mul_left_cancel (add_left_cancel hres)
  simp only [message_append, map_add, map_mul, map_pow, AdjoinRoot.mk_X, hlen] at hmsg
  have huv := add_left_cancel ((hunit.pow _).mul_left_cancel (add_right_cancel hmsg))
  have hdegree (u : List (BitVec 8)) (hu : 8 * u.length ≤ w) : (message u).degree < w :=
    lt_of_lt_of_le (degree_message_lt u) (by exact_mod_cast hu)
  exact hne (message_injective hlen
    (eq_of_mk_eq p (hdegree u hshort) (hdegree v (hlen ▸ hshort)) huv))

end Crc
