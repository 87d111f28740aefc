import Mathlib.Data.Fintype.Basic
import Mathlib.Logic.Function.Basic

/-!
# Memory filled byte by byte

A transfer into memory, by a copy loop or by a DMA engine, writes the bytes of its region
one at a time and in no promised order. `Holds m off data done` says that the bytes `done`
of the region at `off` have arrived. A byte of the transfer extends it (`Holds.insert`), and
a write outside the region leaves it alone (`Holds.frame`).
-/

namespace ByteMem

abbrev Mem := ℕ → UInt8

/-- Write one byte. -/
def Mem.write (m : Mem) (a : ℕ) (b : UInt8) : Mem := Function.update m a b

/-- Copy `len` bytes from `src` to `dst`. -/
def Mem.copy (m : Mem) (dst : ℕ) (from' : Mem) (src len : ℕ) : Mem := fun a =>
  if dst ≤ a ∧ a < dst + len then from' (src + (a - dst)) else m a

/-- The `len` bytes at `src`. -/
def Mem.load (m : Mem) (src len : ℕ) : List UInt8 := (List.range len).map fun i => m (src + i)

/-- Write some bytes at `dst`. -/
def Mem.store (m : Mem) (dst : ℕ) (bytes : List UInt8) : Mem :=
  m.copy dst (fun i => bytes.getD i 0) 0 bytes.length

/-- Exchange the `n` bytes at `a` and those at `b`. -/
def Mem.exchange (m : Mem) (a b n : ℕ) : Mem := (m.copy a m b n).copy b m a n

/-- Where the byte at `k` comes from in an exchange. -/
def exchanged (a b n k : ℕ) : ℕ :=
  if a ≤ k ∧ k < a + n then b + (k - a)
  else if b ≤ k ∧ k < b + n then a + (k - b)
  else k

theorem exchanged_of_not {a b n k : ℕ} (ha : ¬ (a ≤ k ∧ k < a + n))
    (hb : ¬ (b ≤ k ∧ k < b + n)) : exchanged a b n k = k := by
  unfold exchanged
  rw [if_neg ha, if_neg hb]

theorem Mem.exchange_apply (m : Mem) {a b n : ℕ} (h : a + n ≤ b ∨ b + n ≤ a) (k : ℕ) :
    m.exchange a b n k = m (exchanged a b n k) := by
  unfold Mem.exchange Mem.copy exchanged
  by_cases ha : a ≤ k ∧ k < a + n
  · have hb : ¬ (b ≤ k ∧ k < b + n) := by omega
    rw [if_neg hb, if_pos ha, if_pos ha]
  · rw [if_neg ha, if_neg ha]
    split
    · rfl
    · rfl

theorem Mem.copy_of_lt (m m' : Mem) {dst src len k : ℕ} (hk : k < len) :
    m.copy dst m' src len (dst + k) = m' (src + k) := by
  unfold Mem.copy
  rw [if_pos ⟨Nat.le_add_right dst k, by omega⟩, Nat.add_sub_cancel_left]

theorem Mem.copy_of_not (m m' : Mem) {dst src len a : ℕ} (ha : a < dst ∨ dst + len ≤ a) :
    m.copy dst m' src len a = m a := by
  unfold Mem.copy
  exact if_neg (by omega)

@[simp] theorem Mem.length_load (m : Mem) (src len : ℕ) : (m.load src len).length = len := by
  rw [load, List.length_map, List.length_range]

theorem Mem.load_apply (m : Mem) {src len k : ℕ} (hk : k < len) :
    (m.load src len).getD k 0 = m (src + k) := by
  rw [load, List.getD_eq_getElem?_getD, List.getElem?_map, List.getElem?_range hk]
  rfl

theorem Mem.load_append (m : Mem) (src len len' : ℕ) :
    m.load src len ++ m.load (src + len) len' = m.load src (len + len') := by
  rw [load, load, load, List.range_add, List.map_append, List.map_map]
  congr 1
  refine List.map_congr_left fun i _ => ?_
  rw [Function.comp_apply, Nat.add_assoc]

/-- Copying is loading and storing. -/
theorem Mem.store_load (m m' : Mem) (dst src len : ℕ) :
    m.store dst (m'.load src len) = m.copy dst m' src len := by
  funext a
  unfold Mem.store Mem.copy
  rw [length_load]
  split
  next h =>
    rw [Nat.zero_add]
    exact load_apply m' (by omega)
  next => rfl

theorem Mem.store_nil (m : Mem) (dst : ℕ) : m.store dst [] = m := by
  funext a
  exact copy_of_not m _ (by rw [List.length_nil]; omega)

/-- Loading what was stored. -/
theorem Mem.load_store (m : Mem) (dst : ℕ) (bytes : List UInt8) :
    (m.store dst bytes).load dst bytes.length = bytes := by
  refine List.ext_getElem (length_load _ dst _) fun i _ hi => ?_
  simp [load, store, copy, hi]

/-- Loading what was not stored. -/
theorem Mem.load_store_of_not (m : Mem) {src dst len : ℕ} {bytes : List UInt8}
    (h : src + len ≤ dst ∨ dst + bytes.length ≤ src) :
    (m.store dst bytes).load src len = m.load src len := by
  refine List.map_congr_left fun i hi => ?_
  have hlt := List.mem_range.mp hi
  exact copy_of_not m _ (h.imp (by omega) (by omega))

/-- Storing right behind what is loaded. -/
theorem Mem.load_store_behind (m : Mem) (src len : ℕ) (bytes : List UInt8) :
    (m.store (src + len) bytes).load src (len + bytes.length) = m.load src len ++ bytes := by
  rw [← load_append, load_store_of_not m (.inl le_rfl), load_store]

theorem Mem.ofFn_eq_load (m : Mem) (src len : ℕ) :
    List.ofFn (fun i : Fin len => m (src + i)) = m.load src len := by
  refine List.ext_getElem (by simp) fun i _ _ => ?_
  simp [load]

/-- Only the bytes that are copied matter. -/
theorem Mem.copy_congr (m : Mem) {m₁ m₂ : Mem} {dst src₁ src₂ len : ℕ}
    (h : ∀ k < len, m₁ (src₁ + k) = m₂ (src₂ + k)) :
    m.copy dst m₁ src₁ len = m.copy dst m₂ src₂ len := by
  funext a
  unfold Mem.copy
  split
  next ha => exact h _ (by omega)
  next => rfl

/-! ### Memories that agree -/

/-- Two memories hold the same below `n`. -/
def Agree (n : ℕ) (m m' : Mem) : Prop := ∀ k < n, m k = m' k

section Agree

variable {n n' : ℕ} {m m' source source' : Mem}

theorem Agree.refl (n : ℕ) (m : Mem) : Agree n m m := fun _ _ => rfl

theorem Agree.mono (h : Agree n m m') (hle : n' ≤ n) : Agree n' m m' :=
  fun k hk => h k (hk.trans_le hle)

theorem Agree.load (h : Agree n m m') : m.load 0 n = m'.load 0 n := by
  refine List.map_congr_left fun i hi => ?_
  rw [Nat.zero_add]
  exact h i (List.mem_range.mp hi)

/-- A copy behind what agrees extends it. -/
theorem Agree.copy {len : ℕ} (h : Agree n m m') (hsource : Agree len source source') :
    Agree (n + len) (m.copy n source 0 len) (m'.copy n source' 0 len) := by
  intro k hk
  unfold Mem.copy
  split
  next hin =>
    rw [Nat.zero_add]
    exact hsource _ (by omega)
  next hout => exact h k (by omega)

/-- What is stored at the start agrees, whatever was there. -/
theorem agree_store (m m' : Mem) (bytes : List UInt8) :
    Agree bytes.length (m.store 0 bytes) (m'.store 0 bytes) := by
  intro k hk
  unfold Mem.store Mem.copy
  rw [if_pos (by omega), if_pos (by omega)]

end Agree

variable {n off a : ℕ} {m : Mem} {data data' : Fin n → UInt8} {done : Finset (Fin n)}
  {b : UInt8} {i : Fin n}

@[simp] theorem Mem.write_self (m : Mem) (a : ℕ) (b : UInt8) : m.write a b a = b :=
  Function.update_self ..

theorem Mem.write_of_ne {c : ℕ} (h : c ≠ a) : m.write a b c = m c :=
  Function.update_of_ne h ..

/-- The same byte written in two places: below `L` that makes no difference when it is in both
already, as far as they are below. -/
theorem Mem.write_agree_iff {c L : ℕ} (h : a ≠ c) :
    (∀ k < L, m.write a b k = m.write c b k) ↔ (a < L → m a = b) ∧ (c < L → m c = b) := by
  constructor
  · intro hall
    refine ⟨fun hlt => ?_, fun hlt => ?_⟩
    · have hbyte := hall a hlt
      rw [write_self, write_of_ne h] at hbyte
      exact hbyte.symm
    · have hbyte := hall c hlt
      rw [write_self, write_of_ne h.symm] at hbyte
      exact hbyte
  · rintro ⟨ha, hc⟩ k hk
    by_cases hka : k = a
    · subst hka
      rw [write_self, write_of_ne h]
      exact (ha hk).symm
    · rw [write_of_ne hka]
      by_cases hkc : k = c
      · subst hkc
        rw [write_self]
        exact hc hk
      · rw [write_of_ne hkc]

/-- The bytes `done` of the region at `off` are those of `data`. -/
def Holds (m : Mem) (off : ℕ) (data : Fin n → UInt8) (done : Finset (Fin n)) : Prop :=
  ∀ i ∈ done, m (off + i) = data i

/-- The `n` bytes at `off`. -/
def region (n : ℕ) (m : Mem) (off : ℕ) : Fin n → UInt8 := fun i => m (off + i)

theorem holds_region : Holds m off (region n m off) done := fun _ _ => rfl

theorem Holds.empty : Holds m off data ∅ := by simp [Holds]

/-- One more byte of the transfer. -/
theorem Holds.insert (h : Holds m off data done) (hb : b = data i) :
    Holds (m.write (off + i) b) off data (insert i done) := by
  intro j hj
  rcases eq_or_ne j i with rfl | hne
  · rw [Mem.write_self, hb]
  · have hmem : j ∈ done := (Finset.mem_insert.mp hj).resolve_left hne
    have haddr : off + (j : ℕ) ≠ off + i := fun h => hne (Fin.ext (Nat.add_left_cancel h))
    rw [Mem.write_of_ne haddr]
    exact h j hmem

/-- A byte written elsewhere. -/
theorem Holds.frame (h : Holds m off data done) (ha : ∀ j : Fin n, off + j ≠ a) :
    Holds (m.write a b) off data done := by
  intro j hj
  rw [Mem.write_of_ne (ha j)]
  exact h j hj

/-- Any byte of a region that has arrived in full. -/
theorem Holds.byte (h : Holds m off data Finset.univ) (i : Fin n) : m (off + i) = data i :=
  h i (Finset.mem_univ i)

end ByteMem
