import Mathlib.Data.List.Basic
import Mathlib.Data.List.Infix
import NfpUdpEcho.Framework.Loop

/-!
# Programs that talk over a stream

A `Proc` is one end of a blocking stream socket: a sequential program that writes and reads
bytes and may compute in between. A header or a struct goes in one `write` or `read`, which is
never cut short; a payload goes through a loop that moves any non-empty chunk at a time.

`Runs P i o Q` says that `P` has read the bytes `i`, written the bytes `o` and become `Q`. It
says nothing about the other end, so the two ends of a connection are specified apart:

* `Asks P req Takes`: `P` writes `req`, reads nothing before all of it is written, and when
  it ends it has read bytes that it takes for a reply;
* `Answers P req Fails Replies`: to the request `req`, `P` writes a reply once it has read all
  of it, or it fails without a word.

Both come with one rule for each construct. `Answers.settles` puts the two ends together.

The stream is a parameter of a single step and no part of the program, so that a run is what one end
does with whatever it is sent. Every spec is a statement about all runs of one program: it says what
may have been written and read at each moment, and not only at the end. That is what makes the two
of them fit together in `Answers.settles`, where the ends stop at moments of their own.

* `Runs.*_cases` invert a run of one construct: it has not got past the construct, or it has, and
  the rest is a run of what comes next. The loops take an induction, the others one step.
* The rules `Gets.*`, `Asks.*`, `Sends.*` and `Answers.*` have one inversion each for their proof,
  and what is common to a `write` and a loop that writes is `of_append`.
* `Only` and `Sending` are the two facts about what a program returns that hold whatever it is sent,
  and each is kept by a step.
-/

namespace Duplex

/-- `σ` and `ρ` are the states and results of the loops inside, `α` what the program returns. -/
inductive Proc (σ ρ α : Type) where
  | ret (a : α)
  | write (bytes : List UInt8) (k : Proc σ ρ α)
  /-- `while (len < n) len += write(fd, buf + len, n - len)`, with these bytes still to go. -/
  | writeLoop (bytes : List UInt8) (k : Proc σ ρ α)
  | read (n : ℕ) (k : List UInt8 → Proc σ ρ α)
  /-- `while (len < n) len += read(fd, buf + len, n - len)`, with `n` bytes still to come. -/
  | readLoop (n : ℕ) (got : List UInt8) (k : List UInt8 → Proc σ ρ α)
  | loop (body : σ → σ ⊕ ρ) (s : σ) (k : ρ → Proc σ ρ α)

namespace Proc

variable {σ ρ α : Type}

/-- The loop that writes a payload, left at once when there is none. -/
def writeAll (bytes : List UInt8) (k : Proc σ ρ α) : Proc σ ρ α :=
  if bytes = [] then k else .writeLoop bytes k

/-- The rest of a loop that reads a payload, with `got` read so far. -/
def readRest (n : ℕ) (got : List UInt8) (k : List UInt8 → Proc σ ρ α) : Proc σ ρ α :=
  if n = 0 then k got else .readLoop n got k

/-- The loop that reads a payload. -/
def readAll (n : ℕ) (k : List UInt8 → Proc σ ρ α) : Proc σ ρ α := readRest n [] k

/-- One step, with `input` in the stream and `m` the size of a chunk: how many bytes it reads,
what it writes, and the program it becomes. -/
def next (m : ℕ) (input : List UInt8) : Proc σ ρ α → Option (ℕ × List UInt8 × Proc σ ρ α)
  | ret _ => none
  | write bytes k => some (0, bytes, k)
  | writeLoop bytes k =>
    if 0 < m ∧ m ≤ bytes.length then some (0, bytes.take m, writeAll (bytes.drop m) k) else none
  | read n k => if n ≤ input.length then some (n, [], k (input.take n)) else none
  | readLoop n got k =>
    if 0 < m ∧ m ≤ n ∧ m ≤ input.length then
      some (m, [], readRest (n - m) (got ++ input.take m) k)
    else none
  | loop body s k =>
    match body s with
    | .inl s => some (0, [], loop body s k)
    | .inr r => some (0, [], k r)

/-- Nothing is left but to write, and then to return `a`. -/
def Sending (a : α) : Proc σ ρ α → Prop
  | ret b => b = a
  | write _ k => k.Sending a
  | writeLoop _ k => k.Sending a
  | _ => False

/-- A payload before it changes nothing of that. -/
theorem Sending.writeAll {a : α} {bytes : List UInt8} {k : Proc σ ρ α} (h : k.Sending a) :
    (writeAll bytes k).Sending a := by
  unfold Proc.writeAll
  split
  · exact h
  · exact h

/-- Whatever it reads, what it returns is as `Post` says. -/
def Only (Post : α → Prop) : Proc σ ρ α → Prop
  | ret a => Post a
  | write _ k => k.Only Post
  | writeLoop _ k => k.Only Post
  | read _ k => ∀ bytes, (k bytes).Only Post
  | readLoop _ _ k => ∀ bytes, (k bytes).Only Post
  | loop _ _ k => ∀ r, (k r).Only Post

/-- A loop that writes is no reason to return anything else. -/
theorem Only.writeAll {Post : α → Prop} {bytes : List UInt8} {k : Proc σ ρ α} (h : k.Only Post) :
    (writeAll bytes k).Only Post := by
  unfold Proc.writeAll
  split
  · exact h
  · exact h

/-- Neither is one that reads, if what is returned is fine for all it may read. -/
theorem Only.readRest {Post : α → Prop} {n : ℕ} {got : List UInt8} {k : List UInt8 → Proc σ ρ α}
    (h : ∀ bytes, (k bytes).Only Post) : (readRest n got k).Only Post := by
  unfold Proc.readRest
  split
  · exact h got
  · exact h

end Proc

open Proc

variable {σ ρ α : Type}

/-- The program has read `i`, has written `o` and is now the last argument. -/
inductive Runs : Proc σ ρ α → List UInt8 → List UInt8 → Proc σ ρ α → Prop where
  | refl {P : Proc σ ρ α} : Runs P [] [] P
  | step {P P' Q : Proc σ ρ α} {m n : ℕ} {input out i o : List UInt8} :
      P.next m input = some (n, out, P') → Runs P' i o Q → Runs P (input.take n ++ i) (out ++ o) Q

section Runs

variable {P P' Q : Proc σ ρ α} {i o bytes : List UInt8} {m n : ℕ} {k : Proc σ ρ α}
  {kb : List UInt8 → Proc σ ρ α} {kr : ρ → Proc σ ρ α} {body : σ → σ ⊕ ρ} {s : σ} {a : α}

/-- One more step at the end. -/
theorem Runs.snoc (h : Runs P i o Q) {Q' : Proc σ ρ α} {input out : List UInt8}
    (hn : Q.next m input = some (n, out, Q')) : Runs P (i ++ input.take n) (o ++ out) Q' := by
  induction h with
  | refl => simpa using Runs.step hn .refl
  | step h₁ _ ih =>
    rw [List.append_assoc, List.append_assoc]
    exact .step h₁ (ih hn)

/-- A program that only sends is one that only sends after every step. -/
theorem Runs.sending (h : Runs P i o Q) (hP : P.Sending a) : Q.Sending a := by
  induction h with
  | refl => exact hP
  | @step P P' _ _ _ _ _ _ _ hn _ ih =>
    apply ih
    cases P with
    | ret b => cases hn
    | write bytes k =>
      cases hn
      exact hP
    | writeLoop bytes k =>
      simp only [Proc.next, Option.ite_none_right_eq_some, Option.some.injEq, Prod.mk.injEq] at hn
      obtain ⟨-, -, -, rfl⟩ := hn
      exact Sending.writeAll hP
    -- it does not read, nor compute
    | read n k => cases hP
    | readLoop n got k => cases hP
    | loop body s k => cases hP

/-- What may be returned is the same after every step. -/
theorem Runs.only {Post : α → Prop} (h : Runs P i o Q) (hP : P.Only Post) : Q.Only Post := by
  induction h with
  | refl => exact hP
  | @step P P' _ _ _ _ _ _ _ hn _ ih =>
    apply ih
    cases P with
    | ret b => cases hn
    | write bytes k =>
      cases hn
      exact hP
    | writeLoop bytes k =>
      simp only [Proc.next, Option.ite_none_right_eq_some, Option.some.injEq, Prod.mk.injEq] at hn
      obtain ⟨-, -, -, rfl⟩ := hn
      exact Only.writeAll hP
    | read n k =>
      simp only [Proc.next, Option.ite_none_right_eq_some, Option.some.injEq, Prod.mk.injEq] at hn
      obtain ⟨-, -, -, rfl⟩ := hn
      exact hP _
    | readLoop n got k =>
      simp only [Proc.next, Option.ite_none_right_eq_some, Option.some.injEq, Prod.mk.injEq] at hn
      obtain ⟨-, -, -, rfl⟩ := hn
      exact Only.readRest hP
    | loop body s k =>
      simp only [Proc.next] at hn
      split at hn
      -- the loop goes on, or hands over its result
      next s' _ =>
        cases hn
        exact hP
      next r _ =>
        cases hn
        exact hP r

/-- A program that has returned does nothing more. -/
theorem Runs.ret_cases (h : Runs (.ret a) i o Q) : i = [] ∧ o = [] ∧ Q = .ret a := by
  cases h with
  | refl => exact ⟨rfl, rfl, rfl⟩
  | step hn _ => cases hn

/-- A write is not made yet, or its bytes come first. -/
theorem Runs.write_cases (h : Runs (.write bytes k) i o Q) :
    (i = [] ∧ o = [] ∧ Q = .write bytes k) ∨ ∃ o', o = bytes ++ o' ∧ Runs k i o' Q := by
  cases h with
  | refl => exact .inl ⟨rfl, rfl, rfl⟩
  | step hn h =>
    simp only [Proc.next, Option.some.injEq, Prod.mk.injEq] at hn
    obtain ⟨rfl, rfl, rfl⟩ := hn
    exact .inr ⟨_, rfl, by simpa using h⟩

/-- A read is not made yet, or its bytes come first. -/
theorem Runs.read_cases (h : Runs (.read n kb) i o Q) :
    (i = [] ∧ o = [] ∧ Q = .read n kb) ∨
      ∃ bytes i', bytes.length = n ∧ i = bytes ++ i' ∧ Runs (kb bytes) i' o Q := by
  cases h with
  | refl => exact .inl ⟨rfl, rfl, rfl⟩
  | step hn h =>
    simp only [Proc.next, Option.ite_none_right_eq_some, Option.some.injEq, Prod.mk.injEq] at hn
    obtain ⟨hle, rfl, rfl, rfl⟩ := hn
    exact .inr ⟨_, _, List.length_take_of_le hle, rfl, h⟩

/-- A loop that writes has some of its payload left, or all of it comes first. -/
theorem Runs.writeAll_cases (h : Runs (writeAll bytes k) i o Q) :
    (i = [] ∧ ∃ rest, rest ≠ [] ∧ bytes = o ++ rest ∧ Q = .writeLoop rest k) ∨
      ∃ o', o = bytes ++ o' ∧ Runs k i o' Q := by
  -- the induction is on the run, for every rest of the payload
  generalize hP : writeAll bytes k = P at h
  induction h generalizing bytes with
  | refl =>
    rw [writeAll] at hP
    split at hP
    next hnil => exact .inr ⟨[], by rw [hnil]; rfl, hP ▸ .refl⟩
    next hne => exact .inl ⟨rfl, bytes, hne, rfl, hP.symm⟩
  | step hn h ih =>
    rw [writeAll] at hP
    split at hP
    next hnil =>
      subst hP
      exact .inr ⟨_, by rw [hnil]; rfl, .step hn h⟩
    next hne =>
      subst hP
      simp only [Proc.next, Option.ite_none_right_eq_some, Option.some.injEq, Prod.mk.injEq] at hn
      obtain ⟨-, rfl, rfl, hP'⟩ := hn
      rw [List.take_zero, List.nil_append]
      -- the chunk is out, the induction has the rest
      rcases ih hP' with ⟨hi, rest, hrest, hdrop, hQ⟩ | ⟨o', ho, hk⟩
      · refine .inl ⟨hi, rest, hrest, ?_, hQ⟩
        rw [List.append_assoc, ← hdrop, List.take_append_drop]
      · refine .inr ⟨o', ?_, hk⟩
        rw [ho, ← List.append_assoc, List.take_append_drop]

/-- A loop that reads waits for more, or what it reads comes first. -/
theorem Runs.readRest_cases {got : List UInt8} (h : Runs (readRest n got kb) i o Q) :
    (o = [] ∧ i.length < n ∧ ∃ n' got', Q = .readLoop n' got' kb) ∨
      ∃ bytes i', bytes.length = n ∧ i = bytes ++ i' ∧ Runs (kb (got ++ bytes)) i' o Q := by
  -- the induction is on the run, for every number of bytes left and those before them
  generalize hP : readRest n got kb = P at h
  induction h generalizing n got with
  | refl =>
    rw [readRest] at hP
    split at hP
    next hzero => exact .inr ⟨[], [], hzero.symm, rfl, by rw [List.append_nil, hP]; exact .refl⟩
    next hne => exact .inl ⟨rfl, Nat.pos_of_ne_zero hne, n, got, hP.symm⟩
  | @step P₁ P₂ Q m c input out i o hn h ih =>
    rw [readRest] at hP
    split at hP
    next hzero =>
      subst hP
      refine .inr ⟨[], _, hzero.symm, rfl, ?_⟩
      rw [List.append_nil]
      exact .step hn h
    next hne =>
      subst hP
      simp only [Proc.next, Option.ite_none_right_eq_some, Option.some.injEq, Prod.mk.injEq] at hn
      obtain ⟨⟨-, hmn, hlen⟩, rfl, rfl, hP'⟩ := hn
      have htake : (input.take m).length = m := List.length_take_of_le hlen
      -- the chunk is in, the induction has the rest
      rcases ih hP' with ⟨ho, hi, hQ⟩ | ⟨bytes, i', hbytes, hi, hk⟩
      · refine .inl ⟨ho, ?_, hQ⟩
        rw [List.length_append, htake]
        omega
      · refine .inr ⟨input.take m ++ bytes, i', ?_, ?_, ?_⟩
        · rw [List.length_append, htake, hbytes]
          omega
        · rw [hi, List.append_assoc]
        · rwa [← List.append_assoc]

/-- A loop inside the program is still running, or it has a result. -/
theorem Runs.loop_cases (h : Runs (.loop body s kr) i o Q) :
    (i = [] ∧ o = [] ∧ ∃ s', Q = .loop body s' kr) ∨
      ∃ r, Loop.Returns body s r ∧ Runs (kr r) i o Q := by
  generalize hP : Proc.loop body s kr = P at h
  induction h generalizing s with
  | refl => exact .inl ⟨rfl, rfl, s, hP.symm⟩
  | step hn h ih =>
    subst hP
    simp only [Proc.next] at hn
    split at hn
    next s' hbody =>
      obtain ⟨rfl, rfl, hP'⟩ := by simpa using hn
      rcases ih hP' with hrun | ⟨r, hr, hk⟩
      · exact .inl hrun
      · exact .inr ⟨r, (Loop.returns_inl hbody).mpr hr, hk⟩
    next r hbody =>
      obtain ⟨rfl, rfl, rfl⟩ := by simpa using hn
      exact .inr ⟨r, (Loop.returns_inr hbody).mpr rfl, h⟩

end Runs

/-! ### What one end promises -/

section Specs

variable (P : Proc σ ρ α) (req : List UInt8)

/-- `P` only reads from here on, and when it ends it has read a reply it `Takes`. -/
def Gets (Takes : List UInt8 → Prop) : Prop :=
  ∀ i o Q, Runs P i o Q → o = [] ∧ ∀ a, Q = .ret a → Takes i

/-- `P` writes `req`, all of it before it reads anything. -/
def Asks (Takes : List UInt8 → Prop) : Prop :=
  ∀ i o Q, Runs P i o Q → o <+: req ∧ (i ≠ [] → o = req) ∧ ∀ a, Q = .ret a → o = req ∧ Takes i

/-- `P` writes `out` and returns `b`, with nothing left to do after the last byte. -/
def Sends (out : List UInt8) (b : α) : Prop :=
  ∀ o Q, Runs P [] o Q → o <+: out ∧ (∀ a, Q = .ret a → o = out ∧ a = b) ∧
    (o = out → Q = .ret b)

/-- Given the request, `P` sends one of the `Replies` after all of it, or fails in silence. -/
def Answers (Fails : α → Prop) (Replies : List UInt8 → α → Prop) : Prop :=
  ∀ i o Q, Runs P i o Q → i <+: req →
    (o ≠ [] → i = req ∧ ∃ out b, Replies out b ∧ o <+: out ∧ (o = out → Q = .ret b)) ∧
      ∀ a, Q = .ret a → Fails a ∨ (i = req ∧ Replies o a)

end Specs

section Rules

variable {P k : Proc σ ρ α} {req bytes out : List UInt8} {n : ℕ}
  {kb : List UInt8 → Proc σ ρ α} {kr : ρ → Proc σ ρ α} {body : σ → σ ⊕ ρ} {s : σ} {a b : α}
  {Takes : List UInt8 → Prop} {Fails : α → Prop} {Replies : List UInt8 → α → Prop}

/-- Having read nothing more, the program takes nothing more. -/
theorem Gets.ret (h : Takes []) : Gets (.ret a : Proc σ ρ α) Takes := by
  intro i o Q hrun
  obtain ⟨rfl, rfl, -⟩ := hrun.ret_cases
  exact ⟨rfl, fun _ _ => h⟩

/-- What a read returns comes first in the reply. -/
theorem Gets.read (h : ∀ bytes, bytes.length = n → Gets (kb bytes) fun i => Takes (bytes ++ i)) :
    Gets (.read n kb) Takes := by
  intro i o Q hrun
  rcases hrun.read_cases with ⟨rfl, rfl, rfl⟩ | ⟨bytes, i', hlen, rfl, hk⟩
  · exact ⟨rfl, fun a ha => by cases ha⟩
  · exact h bytes hlen i' o Q hk

/-- So does what a loop reads. -/
theorem Gets.readAll (h : ∀ bytes, bytes.length = n → Gets (kb bytes) fun i => Takes (bytes ++ i)) :
    Gets (.readAll n kb) Takes := by
  intro i o Q hrun
  rcases hrun.readRest_cases with ⟨rfl, -, n', got, rfl⟩ | ⟨bytes, i', hlen, rfl, hk⟩
  · exact ⟨rfl, fun a ha => by cases ha⟩
  · exact h bytes hlen i' o Q hk

/-- Nothing is left of the request. -/
theorem Asks.of_gets (h : Gets P Takes) : Asks P [] Takes := by
  intro i o Q hrun
  obtain ⟨rfl, htakes⟩ := h i o Q hrun
  exact ⟨List.nil_prefix, fun _ => rfl, fun a ha => ⟨rfl, htakes a ha⟩⟩

/-- What is written first comes first in the request. -/
theorem Asks.of_append (h : Asks k req Takes) {i o : List UInt8} {Q : Proc σ ρ α}
    (hrun : Runs k i o Q) : bytes ++ o <+: bytes ++ req ∧ (i ≠ [] → bytes ++ o = bytes ++ req) ∧
      ∀ a, Q = .ret a → bytes ++ o = bytes ++ req ∧ Takes i := by
  obtain ⟨hpre, hread, hret⟩ := h i o Q hrun
  refine ⟨(List.prefix_append_right_inj bytes).mpr hpre, ?_, ?_⟩
  · intro hi
    rw [hread hi]
  · intro a ha
    obtain ⟨ho, htakes⟩ := hret a ha
    exact ⟨by rw [ho], htakes⟩

/-- A write is the first part of the request. -/
theorem Asks.write (h : Asks k req Takes) : Asks (.write bytes k) (bytes ++ req) Takes := by
  intro i o Q hrun
  rcases hrun.write_cases with ⟨rfl, rfl, rfl⟩ | ⟨o', rfl, hk⟩
  · exact ⟨List.nil_prefix, fun hi => absurd rfl hi, fun a ha => by cases ha⟩
  · exact h.of_append hk

/-- So is a payload, and until it is out nothing is read. -/
theorem Asks.writeAll (h : Asks k req Takes) : Asks (.writeAll bytes k) (bytes ++ req) Takes := by
  intro i o Q hrun
  rcases hrun.writeAll_cases with ⟨rfl, rest, -, rfl, rfl⟩ | ⟨o', rfl, hk⟩
  · refine ⟨?_, fun hi => absurd rfl hi, fun a ha => by cases ha⟩
    rw [List.append_assoc]
    exact List.prefix_append _ _
  · exact h.of_append hk

/-- Nothing is left to send. -/
theorem Sends.ret : Sends (.ret b : Proc σ ρ α) [] b := by
  intro o Q hrun
  obtain ⟨-, rfl, rfl⟩ := hrun.ret_cases
  exact ⟨List.nil_prefix, fun a ha => ⟨rfl, by cases ha; rfl⟩, fun _ => rfl⟩

/-- What is written first comes first in what is sent. -/
theorem Sends.of_append (h : Sends k out b) {o : List UInt8} {Q : Proc σ ρ α}
    (hrun : Runs k [] o Q) : bytes ++ o <+: bytes ++ out ∧
      (∀ a, Q = .ret a → bytes ++ o = bytes ++ out ∧ a = b) ∧
      (bytes ++ o = bytes ++ out → Q = .ret b) := by
  obtain ⟨hpre, hret, hall⟩ := h o Q hrun
  refine ⟨(List.prefix_append_right_inj bytes).mpr hpre, ?_, ?_⟩
  · intro a ha
    obtain ⟨ho, hab⟩ := hret a ha
    exact ⟨by rw [ho], hab⟩
  · intro ho
    exact hall (List.append_cancel_left ho)

/-- A write is the first part. It must not be empty, or the program would not be done with the last
byte. -/
theorem Sends.write (hne : bytes ≠ []) (h : Sends k out b) :
    Sends (.write bytes k) (bytes ++ out) b := by
  intro o Q hrun
  rcases hrun.write_cases with ⟨-, rfl, rfl⟩ | ⟨o', rfl, hk⟩
  · refine ⟨List.nil_prefix, fun a ha => (by cases ha), fun ho => ?_⟩
    exact absurd (List.append_eq_nil_iff.mp ho.symm).1 hne
  · exact h.of_append hk

/-- A payload may be empty, since its loop is then left at once. -/
theorem Sends.writeAll (h : Sends k out b) : Sends (.writeAll bytes k) (bytes ++ out) b := by
  intro o Q hrun
  rcases hrun.writeAll_cases with ⟨-, rest, hrest, rfl, rfl⟩ | ⟨o', rfl, hk⟩
  · rw [List.append_assoc]
    refine ⟨List.prefix_append _ _, fun a ha => (by cases ha), fun ho => ?_⟩
    have hnil := List.append_cancel_left ((List.append_nil o).trans ho)
    exact absurd (List.append_eq_nil_iff.mp hnil.symm).1 hrest
  · exact h.of_append hk

/-- All of the request has been read. -/
theorem Answers.of_sends (h : Sends P out b) (hreply : Replies out b) :
    Answers P [] Fails Replies := by
  intro i o Q hrun hi
  obtain rfl := List.prefix_nil.mp hi
  obtain ⟨hpre, hret, hall⟩ := h o Q hrun
  refine ⟨fun _ => ⟨rfl, out, b, hreply, hpre, hall⟩, fun a ha => ?_⟩
  obtain ⟨rfl, rfl⟩ := hret a ha
  exact .inr ⟨rfl, hreply⟩

/-- A program that fails leaves the rest of the request where it is. -/
theorem Answers.fails (h : Fails a) : Answers (.ret a : Proc σ ρ α) req Fails Replies := by
  intro i o Q hrun _
  obtain ⟨-, rfl, rfl⟩ := hrun.ret_cases
  exact ⟨fun ho => absurd rfl ho, fun a' ha' => by cases ha'; exact .inl h⟩

/-- A program that waits for more than it is sent. -/
theorem Answers.waits (h : req.length < n) : Answers (.read n kb) req Fails Replies := by
  intro i o Q hrun hi
  rcases hrun.read_cases with ⟨rfl, rfl, rfl⟩ | ⟨bytes, i', hlen, rfl, -⟩
  · exact ⟨fun ho => absurd rfl ho, fun a ha => by cases ha⟩
  · have hle := hi.length_le
    rw [List.length_append] at hle
    omega

/-- The first part of the request is read first. -/
theorem Answers.of_append (h : Answers (kb bytes) req Fails Replies) {bytes' i o : List UInt8}
    {Q : Proc σ ρ α} (hlen : bytes'.length = bytes.length) (hi : bytes' ++ i <+: bytes ++ req)
    (hrun : Runs (kb bytes') i o Q) :
    (o ≠ [] → bytes' ++ i = bytes ++ req ∧
      ∃ out b, Replies out b ∧ o <+: out ∧ (o = out → Q = .ret b)) ∧
      ∀ a, Q = .ret a → Fails a ∨ (bytes' ++ i = bytes ++ req ∧ Replies o a) := by
  obtain ⟨rest, hrest⟩ := hi
  rw [List.append_assoc] at hrest
  -- the lengths agree, so that the same bytes were read
  obtain ⟨rfl, hreq⟩ := List.append_inj hrest hlen
  obtain ⟨hsend, hret⟩ := h i o Q hrun ⟨rest, hreq⟩
  refine ⟨fun ho => ?_, fun a ha => ?_⟩
  · obtain ⟨rfl, hout⟩ := hsend ho
    exact ⟨rfl, hout⟩
  · rcases hret a ha with hfail | ⟨rfl, hreply⟩
    · exact .inl hfail
    · exact .inr ⟨rfl, hreply⟩

/-- A read takes the first part of the request. -/
theorem Answers.read (hlen : bytes.length = n) (h : Answers (kb bytes) req Fails Replies) :
    Answers (.read n kb) (bytes ++ req) Fails Replies := by
  intro i o Q hrun hi
  rcases hrun.read_cases with ⟨rfl, rfl, rfl⟩ | ⟨bytes', i', hlen', rfl, hk⟩
  · exact ⟨fun ho => absurd rfl ho, fun a ha => by cases ha⟩
  · exact h.of_append (hlen'.trans hlen.symm) hi hk

/-- So does a loop that reads. -/
theorem Answers.readAll (hlen : bytes.length = n) (h : Answers (kb bytes) req Fails Replies) :
    Answers (.readAll n kb) (bytes ++ req) Fails Replies := by
  intro i o Q hrun hi
  rcases hrun.readRest_cases with ⟨rfl, -, n', got, rfl⟩ | ⟨bytes', i', hlen', rfl, hk⟩
  · exact ⟨fun ho => absurd rfl ho, fun a ha => by cases ha⟩
  · exact h.of_append (hlen'.trans hlen.symm) hi hk

/-- A loop inside may never end, and the request is then not answered. -/
theorem Answers.loop (h : ∀ r, Loop.Returns body s r → Answers (kr r) req Fails Replies) :
    Answers (.loop body s kr) req Fails Replies := by
  intro i o Q hrun hi
  rcases hrun.loop_cases with ⟨rfl, rfl, s', rfl⟩ | ⟨r, hr, hk⟩
  · exact ⟨fun ho => absurd rfl ho, fun a ha => by cases ha⟩
  · exact h r hr i o Q hk hi

end Rules

/-! ### The two ends of a connection

The two ends are run apart, and what is in the two streams is the difference between what one has
written and the other has read. -/

variable {σ' ρ' β : Type}

/-- However far the ends have come, with `up` and `down` in the streams: when `P` has ended the
streams are empty and `Q` has ended too, and when `Q` has, nothing is left for it to read. -/
def Settles (P : Proc σ ρ α) (Q : Proc σ' ρ' β) (Fails : β → Prop) : Prop :=
  ∀ i o P' i' o' Q' up down, Runs P i o P' → Runs Q i' o' Q' → o = i' ++ up → o' = i ++ down →
    (∀ a, P' = .ret a → up = [] ∧ down = [] ∧ ∃ b, Q' = .ret b ∧ ¬Fails b) ∧
      ∀ b, Q' = .ret b → ¬Fails b → up = []

/-- A request and an answer that is taken as a whole. -/
theorem Answers.settles {P : Proc σ ρ α} {Q : Proc σ' ρ' β} {req : List UInt8}
    {Takes : List UInt8 → Prop} {Fails : β → Prop} {Replies : List UInt8 → β → Prop}
    (hQ : Answers Q req Fails Replies) (hP : Asks P req Takes)
    (h_fails : ∀ out b, Replies out b → ¬Fails b) (h_nil : ¬Takes [])
    (h_whole : ∀ out b i, Replies out b → Takes i → i <+: out → i = out) : Settles P Q Fails := by
  intro i o P' i' o' Q' up down hrunP hrunQ hup hdown
  obtain ⟨hpre, -, hend⟩ := hP i o P' hrunP
  have hseen : i' <+: req := by
    rw [hup] at hpre
    exact (List.prefix_append i' up).trans hpre
  obtain ⟨hsend, hret⟩ := hQ i' o' Q' hrunQ hseen
  refine ⟨fun a ha => ?_, fun b hb hok => ?_⟩
  · -- the client has ended, with a reply that it takes
    obtain ⟨ho, htakes⟩ := hend a ha
    have hi : i ≠ [] := by
      rintro rfl
      exact h_nil htakes
    -- it has read something, so the reply is on its way
    have ho' : o' ≠ [] := by
      intro hnil
      rw [hdown] at hnil
      exact hi (List.append_eq_nil_iff.mp hnil).1
    obtain ⟨hreq, out, b, hreply, hout, hall⟩ := hsend ho'
    have hio' : i <+: o' := hdown ▸ List.prefix_append i down
    have hwhole : i = out := h_whole out b i hreply htakes (hio'.trans hout)
    have hfull : o' = out := hout.eq_of_length_le (hwhole ▸ hio'.length_le)
    refine ⟨?_, ?_, b, hall hfull, h_fails out b hreply⟩
    · rw [ho, hreq] at hup
      exact (List.append_cancel_left ((List.append_nil req).trans hup)).symm
    · rw [hfull, hwhole] at hdown
      exact (List.append_cancel_left ((List.append_nil out).trans hdown)).symm
  · -- the server has ended, and has read the whole request
    have hreq := ((hret b hb).resolve_left hok).1
    rw [hup, hreq] at hpre
    exact List.append_right_eq_self.mp (hpre.eq_of_length_le (by simp))

end Duplex
