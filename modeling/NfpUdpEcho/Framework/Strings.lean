import Mathlib.Data.List.Basic
import Mathlib.Data.List.TakeWhile
import Mathlib.Tactic.Common

/-!
# Strings in a buffer

A string lies in a buffer up to the first zero. `strlen` counts its cells and has no answer where
the buffer ends before a zero. A table is pairs of strings, one behind the other: `Packed` says
that a reader that goes from pair to pair, and never past `stop`, reads these and stops. It is
what `encode` writes (`packed_iff`), and the reader has no choice (`Packed.unique`).

A `ZString` carries the fact that it holds no zero, so that a string in a buffer is a split of the
buffer at its first zero (`Holds`) and never needs to be searched for: `findIdx?_chars` and
`takeWhile_chars` are the two searches on such a split, and `Holds.strlen` and `Holds.stringAt` are
what a caller uses. `holds_of_strlen` goes the other way, from a search that succeeds to the split.

In a table every key is non-empty, which is what lets the reader tell a pair from the end. Both
directions of `packed_iff` are inductions, on the reader's steps and on the pairs, and each pair
takes `drop_behind` twice to get behind its key and its value.
-/

namespace Strings

variable {α : Type} [Zero α]

/-- A string, without the zero behind it. -/
@[ext]
structure ZString (α : Type) [Zero α] where
  chars : List α
  clean : (0 : α) ∉ chars
deriving DecidableEq

/-- The string `s` is in the buffer at `i`. -/
def Holds (buf : List α) (i : ℕ) (s : ZString α) : Prop :=
  ∃ rest, buf.drop i = s.chars ++ 0 :: rest

variable {buf rest : List α} {i n : ℕ} {s s' : ZString α} {ps ps' : List (ZString α × ZString α)}

/-- What is behind the string. -/
theorem drop_behind (h : buf.drop i = s.chars ++ 0 :: rest) :
    buf.drop (i + s.chars.length + 1) = rest := by
  calc buf.drop (i + s.chars.length + 1)
      = (buf.drop i).drop (s.chars.length + 1) := by rw [List.drop_drop, Nat.add_assoc]
    _ = rest := by
        rw [h, List.drop_append, List.drop_of_length_le (Nat.le_succ _), Nat.add_sub_cancel_left]
        rfl

section Search

variable [DecidableEq α]

/-- The cells before the first zero at `i` or behind it. -/
def strlen (buf : List α) (i : ℕ) : Option ℕ := (buf.drop i).findIdx? (· = 0)

/-- The string at `i`. -/
def stringAt (buf : List α) (i : ℕ) : ZString α where
  chars := (buf.drop i).takeWhile (· ≠ 0)
  clean h := by simpa using List.mem_takeWhile_imp h

/-- The first zero is the one behind the string. -/
theorem findIdx?_chars (s : ZString α) (rest : List α) :
    (s.chars ++ 0 :: rest).findIdx? (· = 0) = some s.chars.length := by
  -- none of its own characters is one
  have hnone : s.chars.findIdx? (· = 0) = none := by
    rw [List.findIdx?_eq_none_iff]
    exact fun x hx => decide_eq_false fun h => s.clean (h ▸ hx)
  rw [List.findIdx?_append, hnone, List.findIdx?_cons, if_pos (decide_eq_true rfl)]
  simp

/-- What is before it is the string. -/
theorem takeWhile_chars (s : ZString α) (rest : List α) :
    (s.chars ++ 0 :: rest).takeWhile (· ≠ 0) = s.chars := by
  have hall : ∀ x ∈ s.chars, decide (x ≠ 0) = true :=
    fun x hx => decide_eq_true fun h => s.clean (h ▸ hx)
  rw [List.takeWhile_append_of_pos hall, List.takeWhile_cons_of_neg (by simp), List.append_nil]

/-- `strlen` of a string in the buffer is its length. -/
theorem Holds.strlen (h : Holds buf i s) : strlen buf i = some s.chars.length := by
  obtain ⟨rest, h⟩ := h
  rw [Strings.strlen, h, findIdx?_chars]

/-- The string that is there is the one that is read. -/
theorem Holds.stringAt (h : Holds buf i s) : stringAt buf i = s := by
  obtain ⟨rest, h⟩ := h
  ext1
  exact (congrArg (List.takeWhile (· ≠ 0)) h).trans (takeWhile_chars s rest)

/-- Where `strlen` has an answer, there is a string of that length. -/
theorem holds_of_strlen (h : strlen buf i = some n) :
    Holds buf i (stringAt buf i) ∧ (stringAt buf i).chars.length = n := by
  obtain ⟨hn, hzero, hbefore⟩ := List.findIdx?_eq_some_iff_getElem.mp h
  -- the cell that the search found is the zero
  have hsplit : buf.drop i = (buf.drop i).take n ++ 0 :: (buf.drop i).drop (n + 1) := by
    have hcell : (buf.drop i)[n] = 0 := of_decide_eq_true hzero
    calc buf.drop i
        = (buf.drop i).take n ++ (buf.drop i).drop n := (List.take_append_drop n _).symm
      _ = (buf.drop i).take n ++ 0 :: (buf.drop i).drop (n + 1) := by
          rw [List.drop_eq_getElem_cons hn, hcell]
  -- and no cell before it is one
  have hclean : (0 : α) ∉ (buf.drop i).take n := by
    intro hmem
    obtain ⟨j, hj, hcell⟩ := List.mem_iff_getElem.mp hmem
    rw [List.length_take] at hj
    rw [List.getElem_take] at hcell
    exact hbefore j (by omega) (decide_eq_true hcell)
  have hholds : Holds buf i ⟨(buf.drop i).take n, hclean⟩ := ⟨_, hsplit⟩
  rw [hholds.stringAt]
  refine ⟨hholds, ?_⟩
  rw [List.length_take]
  exact Nat.min_eq_left (Nat.le_of_lt hn)

/-- There is a zero as long as the last cell is one. -/
theorem exists_strlen (hlast : buf.getLast? = some 0) (hi : i < buf.length) :
    ∃ n, strlen buf i = some n := by
  have hmem : (0 : α) ∈ buf.drop i := by
    refine List.mem_of_getLast? ?_
    rw [List.getLast?_drop, if_neg (Nat.not_le.mpr hi), hlast]
  have hany : (buf.drop i).any (· = 0) = true :=
    List.any_eq_true.mpr ⟨0, hmem, decide_eq_true rfl⟩
  exact Option.isSome_iff_exists.mp (List.findIdx?_isSome.trans hany)

end Search

/-! ### Tables -/

/-- The strings of the pairs, one behind the other. -/
def encode : List (ZString α × ZString α) → List α
  | [] => []
  | (k, v) :: ps => k.chars ++ 0 :: (v.chars ++ 0 :: encode ps)

/-- What a reader at `i` reads that stops at an empty key or at `stop`. -/
inductive Packed (buf : List α) (stop : ℕ) : ℕ → List (ZString α × ZString α) → Prop where
  -- an empty key
  | empty {i : ℕ} : buf[i]? = some 0 → Packed buf stop i []
  -- the end, which is not read
  | stop {i : ℕ} : stop ≤ i → i < buf.length → Packed buf stop i []
  -- the reader goes on only if the pair ends at `stop` or before it
  | pair {i : ℕ} {k v : ZString α} {ps : List (ZString α × ZString α)} : k.chars ≠ [] →
      Holds buf i k → Holds buf (i + k.chars.length + 1) v →
      i + k.chars.length + 1 + v.chars.length + 1 ≤ stop →
      Packed buf stop (i + k.chars.length + 1 + v.chars.length + 1) ps →
      Packed buf stop i ((k, v) :: ps)

variable {stop : ℕ}

/-- A string is at one length only. -/
theorem Holds.eq [DecidableEq α] (h : Holds buf i s) (h' : Holds buf i s') : s = s' :=
  h.stringAt.symm.trans h'.stringAt

/-- The first cell of a key. -/
theorem Holds.head (h : Holds buf i s) (hne : s.chars ≠ []) : ∃ x ≠ 0, buf[i]? = some x := by
  obtain ⟨rest, h⟩ := h
  obtain ⟨x, xs, hs⟩ := List.exists_cons_of_ne_nil hne
  refine ⟨x, fun hx => s.clean (by rw [hs, hx]; exact List.mem_cons_self), ?_⟩
  rw [← Nat.add_zero i, ← List.getElem?_drop, h, hs]
  rfl

/-- **The reader has no choice**: two tables at one place are the same. -/
theorem Packed.unique [DecidableEq α] (h : Packed buf stop i ps) (h' : Packed buf stop i ps') :
    ps = ps' := by
  induction h generalizing ps' with
  | empty hzero =>
    cases h' with
    | empty _ => rfl
    | stop _ _ => rfl
    -- a key that is not empty begins with another cell than the zero that is there
    | pair hne hk _ _ _ =>
      obtain ⟨x, hx, hcell⟩ := hk.head hne
      exact absurd (Option.some.inj (hcell.symm.trans hzero)) hx
  | stop hstop _ =>
    cases h' with
    | empty _ => rfl
    | stop _ _ => rfl
    | pair _ _ _ hle _ => omega
  | pair hne hk hv hle _ ih =>
    cases h' with
    | empty hzero =>
      obtain ⟨x, hx, hcell⟩ := hk.head hne
      exact absurd (Option.some.inj (hcell.symm.trans hzero)) hx
    | stop hstop _ => omega
    | pair hne' hk' hv' hle' hps =>
      -- the same key and the same value, and the rest by induction
      obtain rfl := hk.eq hk'
      obtain rfl := hv.eq hv'
      rw [ih hps]

/-- **A table is what `encode` writes**, with an empty key or the end behind it. -/
theorem packed_iff : Packed buf stop i ps ↔
    ∃ rest, buf.drop i = encode ps ++ rest ∧ (∀ p ∈ ps, p.1.chars ≠ []) ∧
      (ps ≠ [] → i + (encode ps).length ≤ stop) ∧
      (rest.head? = some 0 ∨ rest ≠ [] ∧ stop ≤ i + (encode ps).length) := by
  constructor
  · intro h
    induction h with
    | @empty i hzero =>
      refine ⟨buf.drop i, rfl, nofun, absurd rfl, .inl ?_⟩
      rw [List.head?_drop, hzero]
    | @stop i hstop hlt =>
      exact ⟨buf.drop i, rfl, nofun, absurd rfl,
        .inr ⟨fun he => absurd (List.drop_eq_nil_iff.mp he) (Nat.not_le.mpr hlt), hstop⟩⟩
    | @pair i k v ps hne hk hv hle _ ih =>
      obtain ⟨rest, hdrop, hkeys, hlen, hend⟩ := ih
      obtain ⟨restk, hk⟩ := hk
      obtain ⟨restv, hv⟩ := hv
      have hlength : (encode ((k, v) :: ps)).length =
          k.chars.length + 1 + v.chars.length + 1 + (encode ps).length := by
        simp only [encode, List.length_append, List.length_cons]
        omega
      -- the rest is what is behind the last pair, for every pair of the table
      refine ⟨rest, ?_, ?_, fun _ => ?_, ?_⟩
      · rw [hk, ← drop_behind hk, hv, ← drop_behind hv, hdrop, encode]
        simp
      · exact List.forall_mem_cons.mpr ⟨hne, hkeys⟩
      · by_cases hps : ps = []
        · subst hps
          rw [hlength, encode, List.length_nil]
          omega
        · have := hlen hps
          omega
      · have hsum : i + (encode ((k, v) :: ps)).length =
            i + k.chars.length + 1 + v.chars.length + 1 + (encode ps).length := by omega
        rw [hsum]
        exact hend
  · rintro ⟨rest, hdrop, hkeys, hlen, hend⟩
    -- on the pairs: `hdrop` gives the first of them and, by `drop_behind`, what the rest is read
    -- from
    induction ps generalizing i with
    | nil =>
      rw [encode, List.nil_append] at hdrop
      rw [encode, List.length_nil, Nat.add_zero] at hend
      -- no pair is left: an empty key, or the end
      obtain hzero | ⟨hne, hstop⟩ := hend
      · refine .empty ?_
        rw [← List.head?_drop, hdrop, hzero]
      · refine .stop hstop ?_
        rw [← hdrop] at hne
        exact Nat.not_le.mp fun h => hne (List.drop_eq_nil_of_le h)
    | cons p ps ih =>
      obtain ⟨k, v⟩ := p
      have hk : buf.drop i = k.chars ++ 0 :: (v.chars ++ 0 :: (encode ps ++ rest)) := by
        rw [hdrop, encode]
        simp
      have hv := drop_behind hk
      have hlength : (encode ((k, v) :: ps)).length =
          k.chars.length + 1 + v.chars.length + 1 + (encode ps).length := by
        simp only [encode, List.length_append, List.length_cons]
        omega
      have hle := hlen (List.cons_ne_nil _ _)
      refine .pair (hkeys _ List.mem_cons_self) ⟨_, hk⟩ ⟨_, hv⟩ (by omega) (ih ?_ ?_ ?_ ?_)
      · exact drop_behind hv
      · exact fun q hq => hkeys q (List.mem_cons_of_mem _ hq)
      · intro _
        omega
      · have hsum : i + (encode ((k, v) :: ps)).length =
            i + k.chars.length + 1 + v.chars.length + 1 + (encode ps).length := by omega
        rwa [hsum] at hend

end Strings
