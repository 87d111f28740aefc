import Mathlib.Data.Nat.Digits.Lemmas
import Mathlib.Data.UInt
import Mathlib.Tactic.IntervalCases

/-!
# Numerals

What a C program prints for a number, and what it reads back. Digits are numbers, the highest
first. `padded w b n` are the digits of `n` in base `b` as `printf` writes them with precision
`w`; `strtoul` is the function of that name.

The two are inverse in both directions: a printed number is read as itself (`value_padded`,
`strtoul_text`), and digits that are as many as the precision, or more without a leading zero,
are printed for the number they stand for (`padded_value`).
-/

namespace Numeral

/-- The number that digits stand for. -/
def value (b : ℕ) (ds : List ℕ) : ℕ := Nat.ofDigits b ds.reverse

/-- The digits of `n`, at least `w` of them. -/
def padded (w b n : ℕ) : List ℕ := (Nat.digits b n).reverse.leftpad w 0

/-- Digits as they are printed. -/
def text (ds : List ℕ) : List Char := ds.map Nat.digitChar

section Digits

variable {b w n : ℕ} {ds ds' : List ℕ}

theorem length_padded (w b n : ℕ) : (padded w b n).length = max w (Nat.digits b n).length := by
  rw [padded, List.length_leftpad, List.length_reverse]

theorem padded_lt (hb : 1 < b) : ∀ d ∈ padded w b n, d < b := by
  intro d hd
  rcases List.mem_append.mp hd with hzero | hdigit
  · rw [List.eq_of_mem_replicate hzero]
    omega
  · exact Nat.digits_lt_base hb (List.mem_reverse.mp hdigit)

/-- What is printed stands for the number. -/
theorem value_padded (w b n : ℕ) : value b (padded w b n) = n := by
  have hrev : (padded w b n).reverse =
      Nat.digits b n ++ List.replicate (w - (Nat.digits b n).reverse.length) 0 := by
    rw [padded, List.leftpad, List.reverse_append, List.reverse_reverse, List.reverse_replicate]
  rw [value, hrev, Nat.ofDigits_append_replicate_zero, Nat.ofDigits_digits]

/-- As many digits of the same number are the same digits. -/
theorem value_inj (hb : 1 < b) (hlen : ds.length = ds'.length) (hds : ∀ d ∈ ds, d < b)
    (hds' : ∀ d ∈ ds', d < b) (h : value b ds = value b ds') : ds = ds' := by
  have hrev : ds.reverse = ds'.reverse := by
    refine Nat.ofDigits_inj_of_len_eq hb ?_ ?_ ?_ h
    · rw [List.length_reverse, List.length_reverse, hlen]
    · exact fun d hd => hds d (List.mem_reverse.mp hd)
    · exact fun d hd => hds' d (List.mem_reverse.mp hd)
  exact List.reverse_inj.mp hrev

theorem value_lt (hb : 1 < b) (hds : ∀ d ∈ ds, d < b) : value b ds < b ^ ds.length := by
  rw [value, ← List.length_reverse]
  exact Nat.ofDigits_lt_base_pow_length hb fun d hd => hds d (List.mem_reverse.mp hd)

theorem value_cons (b d : ℕ) (ds : List ℕ) :
    value b (d :: ds) = value b ds + b ^ ds.length * d := by
  rw [value, List.reverse_cons, Nat.ofDigits_append, Nat.ofDigits_singleton, List.length_reverse]
  rfl

/-- Two digits or more stand for more in a larger base. -/
theorem value_lt_value {b' : ℕ} (hb : b < b') (hlen : 1 < ds.length) (hhead : ds.head? ≠ some 0) :
    value b ds < value b' ds := by
  cases ds with
  | nil => cases hlen
  | cons d ds =>
    have hd : 0 < d := Nat.pos_of_ne_zero fun h => hhead (congrArg some h)
    have hpow : b ^ ds.length < b' ^ ds.length :=
      Nat.pow_lt_pow_left hb (Nat.pos_iff_ne_zero.mp (Nat.lt_of_succ_lt_succ hlen))
    rw [value_cons, value_cons]
    exact add_lt_add_of_le_of_lt (Nat.ofDigits_monotone _ hb.le)
      (Nat.mul_lt_mul_of_pos_right hpow hd)

/-- Digits without more leading zeros than the precision asks for are what is printed. -/
theorem padded_value (hb : 1 < b) (hds : ∀ d ∈ ds, d < b) (hle : w ≤ ds.length)
    (hhead : w < ds.length → ds.head? ≠ some 0) : padded w b (value b ds) = ds := by
  refine value_inj hb ?_ (padded_lt hb) hds (value_padded w b _)
  rw [length_padded]
  rcases Nat.lt_or_eq_of_le hle with hlt | heq
  · -- with no zero in front, the digits are those of the number
    have hdigits : Nat.digits b (value b ds) = ds.reverse := by
      refine Nat.digits_ofDigits b hb _ (fun d hd => hds d (List.mem_reverse.mp hd)) fun hne => ?_
      have hds0 : ds ≠ [] := fun hnil => hne (by rw [hnil]; rfl)
      rw [List.getLast_reverse]
      intro hzero
      exact hhead hlt ((List.head?_eq_some_head hds0).trans (congrArg some hzero))
    rw [hdigits, List.length_reverse]
    exact Nat.max_eq_right hle
  · rw [heq]
    refine Nat.max_eq_left ?_
    rw [Nat.digits_length_le_iff hb]
    exact value_lt hb hds

end Digits

/-! ### Reading -/

/-- What a character counts as a digit, 36 where it is none. -/
def digitVal (c : Char) : ℕ :=
  if '0' ≤ c ∧ c ≤ '9' then c.toNat - '0'.toNat
  else if 'a' ≤ c ∧ c ≤ 'z' then c.toNat - 'a'.toNat + 10
  else if 'A' ≤ c ∧ c ≤ 'Z' then c.toNat - 'A'.toNat + 10
  else 36

/-- `isspace`. -/
def isSpace (c : Char) : Bool := c = ' ' ∨ 9 ≤ c.toNat ∧ c.toNat ≤ 13

/-- A sign, and what comes behind it. -/
def sign : List Char → Bool × List Char
  | '-' :: s => (true, s)
  | '+' :: s => (false, s)
  | s => (false, s)

/-- The `0x` of a number in base 16. -/
def skipPrefix : List Char → List Char
  | '0' :: x :: c :: s =>
    if (x = 'x' ∨ x = 'X') ∧ digitVal c < 16 then c :: s else '0' :: x :: c :: s
  | s => s

/-- The digits that a string starts with. -/
def leading (b : ℕ) (s : List Char) : List ℕ :=
  (s.takeWhile fun c => digitVal c < b).map digitVal

/-- `strtoul(s, NULL, b)`, and whether it sets `errno`. -/
def strtoul (b : ℕ) (s : List Char) : UInt64 × Bool :=
  let (neg, s) := sign (s.dropWhile isSpace)
  let n := value b (leading b (if b = 16 then skipPrefix s else s))
  if 2 ^ 64 ≤ n then (-1, true)
  else (if neg then -UInt64.ofNat n else UInt64.ofNat n, false)

section Reading

variable {b d : ℕ} {ds : List ℕ}

/-- A digit is read as the number it was printed for. -/
theorem digitVal_digitChar (hd : d < 16) : digitVal (Nat.digitChar d) = d := by
  interval_cases d <;> decide

theorem isSpace_digitChar (hd : d < 16) : isSpace (Nat.digitChar d) = false := by
  interval_cases d <;> decide

/-- A printed digit is no sign, no prefix and no separator. -/
theorem digitChar_ne (hd : d < 16) {c : Char}
    (hc : c ∈ ['-', '+', 'x', 'X', ':', '.', '\x00']) : Nat.digitChar d ≠ c := by
  rintro rfl
  revert hc
  interval_cases d <;> decide

theorem leading_text (hb : b ≤ 16) (hds : ∀ d ∈ ds, d < b) : leading b (text ds) = ds := by
  induction ds with
  | nil => rfl
  | cons d ds ih =>
    have hd := hds d List.mem_cons_self
    have hval := digitVal_digitChar (hd.trans_le hb)
    have hpos : decide (digitVal (Nat.digitChar d) < b) = true := by
      rw [hval]
      exact decide_eq_true hd
    have hrest := ih fun d' hd' => hds d' (List.mem_cons_of_mem d hd')
    rw [leading, text] at hrest
    rw [leading, text, List.map_cons, List.takeWhile_cons, if_pos hpos, List.map_cons, hval, hrest]

/-- Numbers printed alike are equal. -/
theorem text_padded_inj {w n n' : ℕ} (hlt : 1 < b) (hb : b ≤ 16)
    (h : text (padded w b n) = text (padded w b n')) : n = n' := by
  have hleading := congrArg (leading b) h
  rw [leading_text hb (padded_lt hlt), leading_text hb (padded_lt hlt)] at hleading
  have hvalue := congrArg (value b) hleading
  rwa [value_padded, value_padded] at hvalue

theorem dropWhile_text (hb : b ≤ 16) (hds : ∀ d ∈ ds, d < b) :
    (text ds).dropWhile isSpace = text ds := by
  cases ds with
  | nil => rfl
  | cons d ds =>
    have hd := isSpace_digitChar ((hds d List.mem_cons_self).trans_le hb)
    refine List.dropWhile_cons_of_neg ?_
    rw [hd]
    exact Bool.false_ne_true

theorem sign_text (hb : b ≤ 16) (hds : ∀ d ∈ ds, d < b) : sign (text ds) = (false, text ds) := by
  cases ds with
  | nil => rfl
  | cons d ds =>
    have hd := (hds d List.mem_cons_self).trans_le hb
    have hminus : Nat.digitChar d ≠ '-' := digitChar_ne hd (by decide)
    have hplus : Nat.digitChar d ≠ '+' := digitChar_ne hd (by decide)
    simp [text, sign, hminus, hplus]

theorem skipPrefix_text (hb : b ≤ 16) (hds : ∀ d ∈ ds, d < b) : skipPrefix (text ds) = text ds := by
  rcases ds with _ | ⟨d, _ | ⟨d', _ | ⟨d'', ds⟩⟩⟩
  · rfl
  · simp [text, skipPrefix]
  · simp [text, skipPrefix]
  · -- no printed digit is the letter of a prefix
    have hd := (hds d' (List.mem_cons_of_mem d List.mem_cons_self)).trans_le hb
    have hx : Nat.digitChar d' ≠ 'x' := digitChar_ne hd (by decide)
    have hX : Nat.digitChar d' ≠ 'X' := digitChar_ne hd (by decide)
    simp only [text, List.map_cons]
    unfold skipPrefix
    split
    · next heq =>
      obtain ⟨hzero, hrest⟩ := List.cons.inj heq
      obtain ⟨rfl, -⟩ := List.cons.inj hrest
      rw [if_neg fun h => h.1.elim hx hX, heq]
    · rfl

/-- Printed digits are read as the number they stand for, if it has 64 bits. -/
theorem strtoul_text (hb : b ≤ 16) (hds : ∀ d ∈ ds, d < b) :
    strtoul b (text ds) =
      if 2 ^ 64 ≤ value b ds then (-1, true) else (UInt64.ofNat (value b ds), false) := by
  simp only [strtoul, dropWhile_text hb hds, sign_text hb hds, skipPrefix_text hb hds, ite_self,
    leading_text hb hds]
  rfl

end Reading

end Numeral
