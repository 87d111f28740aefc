import Mathlib.Data.List.Infix
import Mathlib.Data.Option.Basic
import NfpUdpEcho.Framework.Duplex

/-!
# Programs that make their system calls one by one

The reads and writes of a `Duplex.Proc` do what they are asked for. A `Sock` is the same program
with the result of every call before it: a write may take fewer bytes than it is given, a read
may return fewer than it asks for, and either may fail. The program decides what to make of
that.

`next_write`, `next_read` and their like say what one step of a construct is. `play` runs a
program against the answers of the socket and records what went through it; the rules
`play_write`, `play_read`, `play_writeAll` and `play_readRest` say what a run that has returned was
answered. `Whole S P` connects the two languages: when every call does what it is
asked for, `S` takes the steps of `P` (`Whole.next`).

A run is a list of answers, and not a relation, because what is to be said of it is often said of
the answers: which call failed, how many bytes the calls of a loop moved. `next` is partial: an
answer that the construct cannot get, such as one to a read where the program writes, has no step.

* The inversion lemmas come in two rows, one for a single step (`next_*`) and one for a run that
  returns (`play_*`). A proof about a program walks down it with the second row and never unfolds
  `play`.
* The two loops need an induction on the answers, and give either the whole payload or the call that
  failed.
* `Whole` is by constructors, so that a program is shown to be in it the way it is written, and
  `Whole.next` is an induction on them.
-/

namespace Socket

open Duplex

/-- `ω` are the operations that a program carries out, `α` is what it returns. -/
inductive Sock (σ ρ ω α : Type) where
  | ret (a : α)
  | perform (op : ω) (k : Sock σ ρ ω α)
  | loop (body : σ → σ ⊕ ρ) (s : σ) (k : ρ → Sock σ ρ ω α)
  /-- One `write`: how many bytes it takes, `none` for the result -1. -/
  | write (bytes : List UInt8) (k : Option ℕ → Sock σ ρ ω α)
  /-- One `read` of up to `n` bytes, `none` for the result -1. -/
  | read (n : ℕ) (k : Option (List UInt8) → Sock σ ρ ω α)
  /-- The rest of a loop that writes these bytes, left for `fail` when a call fails. -/
  | writeLoop (bytes : List UInt8) (fail k : Sock σ ρ ω α)
  /-- The rest of a loop that reads `n` bytes after those it has `got`. -/
  | readLoop (n : ℕ) (got : List UInt8) (fail k : List UInt8 → Sock σ ρ ω α)

/-- A step of a program, with what the socket answers to its call. -/
inductive Move where
  | compute
  | wrote (r : Option ℕ)
  | got (r : Option (List UInt8))

/-- What has gone through the socket: the bytes that were sent, those that single reads and those
that the loops received, and the operations that were carried out. -/
structure Record (ω : Type) where
  sent : List UInt8
  heard : List UInt8
  payload : List UInt8
  ops : List ω

variable {σ ρ ω α : Type}

namespace Record

/-- Nothing has gone through it. -/
def nil : Record ω := ⟨[], [], [], []⟩

/-- What has gone through it in two runs, one after the other. -/
def append (x y : Record ω) : Record ω :=
  ⟨x.sent ++ y.sent, x.heard ++ y.heard, x.payload ++ y.payload, x.ops ++ y.ops⟩

/-- Bytes that were sent, and nothing else. -/
def ofSent (bytes : List UInt8) : Record ω := { nil with sent := bytes }

/-- Bytes that a single read received. -/
def ofHeard (bytes : List UInt8) : Record ω := { nil with heard := bytes }

/-- Bytes that a loop received. -/
def ofPayload (bytes : List UInt8) : Record ω := { nil with payload := bytes }

/-- An operation that was carried out. -/
def ofOp (op : ω) : Record ω := ⟨[], [], [], [op]⟩

@[simp] theorem nil_append (x : Record ω) : nil.append x = x := rfl

theorem append_assoc (x y z : Record ω) : (x.append y).append z = x.append (y.append z) := by
  simp only [append, List.append_assoc]

theorem ofSent_append (bytes bytes' : List UInt8) :
    (ofSent bytes).append (ofSent bytes') = (ofSent (bytes ++ bytes') : Record ω) := rfl

theorem ofPayload_append (bytes bytes' : List UInt8) :
    (ofPayload bytes).append (ofPayload bytes') = (ofPayload (bytes ++ bytes') : Record ω) := rfl

end Record

namespace Sock

/-- The loop that writes a payload. -/
def writeAll (bytes : List UInt8) (fail k : Sock σ ρ ω α) : Sock σ ρ ω α :=
  if bytes = [] then k else .writeLoop bytes fail k

/-- The rest of a loop that reads a payload. -/
def readRest (n : ℕ) (got : List UInt8) (fail k : List UInt8 → Sock σ ρ ω α) : Sock σ ρ ω α :=
  if n = 0 then k got else .readLoop n got fail k

/-- The loop that reads a payload. -/
def readAll (n : ℕ) (fail k : List UInt8 → Sock σ ρ ω α) : Sock σ ρ ω α := readRest n [] fail k

/-- One step. A call moves at most as many bytes as it is given or asks for; a loop goes on
until it has moved them all, also when a call has moved none. -/
def next : Move → Sock σ ρ ω α → Option (Record ω × Sock σ ρ ω α)
  | .compute, perform op k => some (.ofOp op, k)
  | .compute, loop body s k =>
    match body s with
    | .inl s => some (.nil, loop body s k)
    | .inr r => some (.nil, k r)
  | .wrote none, write _ k => some (.nil, k none)
  | .wrote (some m), write bytes k =>
    if m ≤ bytes.length then some (.ofSent (bytes.take m), k (some m)) else none
  | .wrote none, writeLoop _ fail _ => some (.nil, fail)
  | .wrote (some m), writeLoop bytes fail k =>
    if m ≤ bytes.length then some (.ofSent (bytes.take m), writeAll (bytes.drop m) fail k)
    else none
  | .got none, read _ k => some (.nil, k none)
  | .got (some bytes), read n k =>
    if bytes.length ≤ n then some (.ofHeard bytes, k (some bytes)) else none
  | .got none, readLoop _ got fail _ => some (.nil, fail got)
  | .got (some bytes), readLoop n got fail k =>
    if bytes.length ≤ n then
      some (.ofPayload bytes, readRest (n - bytes.length) (got ++ bytes) fail k)
    else none
  | _, _ => none

end Sock

open Sock

/-- A run against these answers. -/
def play : List Move → Sock σ ρ ω α → Option (Record ω × Sock σ ρ ω α)
  | [], P => some (.nil, P)
  | mv :: moves, P => (P.next mv).bind fun x => (play moves x.2).map fun y => (x.1.append y.1, y.2)

/-! ### What a step does

For each construct, the answers it can get and what it goes on with. The two directions are used
apart: from left to right where a run is taken to pieces, from right to left where one is built. -/

/-- The bytes of a write that were taken. -/
def taken (bytes : List UInt8) : Option ℕ → List UInt8
  | none => []
  | some m => bytes.take m

/-- A call takes no more than it is given. -/
theorem length_taken_le (bytes : List UInt8) (r : Option ℕ) :
    (taken bytes r).length ≤ bytes.length := by
  cases r with
  | none => exact Nat.zero_le _
  | some m => exact List.length_take_le' m bytes

/-- A write that took all its bytes, or failed, can be told by the length of what was sent. -/
theorem taken_append_iff {bytes x y : List UInt8} {r : Option ℕ} (hne : bytes ≠ [])
    (hr : r = none ∨ r = some bytes.length) (hle : x.length ≤ y.length) :
    taken bytes r ++ x = bytes ++ y ↔ r ≠ none ∧ x = y := by
  rcases hr with rfl | rfl
  · -- what was left out is missing in the length
    refine iff_of_false (fun heq => ?_) fun h => h.1 rfl
    have hlen : x.length = (bytes ++ y).length := congrArg List.length heq
    rw [List.length_append] at hlen
    have hpos := List.length_pos_of_ne_nil hne
    omega
  · rw [taken, List.take_length, List.append_right_inj]
    exact ⟨fun heq => ⟨Option.some_ne_none _, heq⟩, fun h => h.2⟩

/-- The bytes of a read that were returned. -/
def received : Option (List UInt8) → List UInt8
  | none => []
  | some bytes => bytes

/-- One iteration of a loop. -/
def Sock.iterate (body : σ → σ ⊕ ρ) (x : σ) (k : ρ → Sock σ ρ ω α) : Sock σ ρ ω α :=
  match body x with
  | .inl y => .loop body y k
  | .inr r => k r

section Next

variable {mv : Move} {P : Sock σ ρ ω α} {rec : Record ω} {a : α} {op : ω} {body : σ → σ ⊕ ρ}
  {x : σ} {n : ℕ} {bytes got : List UInt8} {k fail : Sock σ ρ ω α} {kl : ρ → Sock σ ρ ω α}
  {kw : Option ℕ → Sock σ ρ ω α} {kr : Option (List UInt8) → Sock σ ρ ω α}
  {kb failb : List UInt8 → Sock σ ρ ω α}

/-- A program that has returned makes no step. -/
theorem next_ret : (Sock.ret a : Sock σ ρ ω α).next mv = none := by
  cases mv with
  | compute => rfl
  | wrote r => cases r <;> rfl
  | got r => cases r <;> rfl

/-- An operation is carried out, whatever the socket does. -/
theorem next_perform : (Sock.perform op k).next mv = some (rec, P) ↔
    mv = .compute ∧ rec = .ofOp op ∧ P = k := by
  constructor
  · intro h
    cases mv with
    | wrote r => cases r <;> cases h
    | got r => cases r <;> cases h
    | compute =>
      cases h
      exact ⟨rfl, rfl, rfl⟩
  · rintro ⟨rfl, rfl, rfl⟩
    rfl

/-- A loop makes one iteration. -/
theorem next_loop : (Sock.loop body x kl).next mv = some (rec, P) ↔
    mv = .compute ∧ rec = .nil ∧ P = .iterate body x kl := by
  have hcompute : (Sock.loop body x kl : Sock σ ρ ω α).next .compute =
      some (.nil, .iterate body x kl) := by
    rw [Sock.next, Sock.iterate]
    cases body x with
    | inl y => rfl
    | inr r => rfl
  constructor
  · intro h
    cases mv with
    | wrote r => cases r <;> cases h
    | got r => cases r <;> cases h
    | compute =>
      cases hcompute.symm.trans h
      exact ⟨rfl, rfl, rfl⟩
  · rintro ⟨rfl, rfl, rfl⟩
    exact hcompute

/-- A write takes some of its bytes or fails, and the program goes on with the result. -/
theorem next_write : (Sock.write bytes kw).next mv = some (rec, P) ↔
    ∃ r, mv = .wrote r ∧ (∀ m ∈ r, m ≤ bytes.length) ∧ rec = .ofSent (taken bytes r) ∧
      P = kw r := by
  constructor
  · intro h
    cases mv with
    -- the answer must be one to a write
    | compute => cases h
    | got r => cases r <;> cases h
    | wrote r =>
      cases r with
      | none =>
        cases h
        exact ⟨none, rfl, fun m hm => (by cases hm), rfl, rfl⟩
      | some m =>
        obtain ⟨hle, heq⟩ := Option.ite_none_right_eq_some.mp h
        cases heq
        exact ⟨some m, rfl, fun m' hm => Option.some.inj hm ▸ hle, rfl, rfl⟩
  · rintro ⟨r, rfl, hle, rfl, rfl⟩
    cases r with
    | none => rfl
    | some m => exact if_pos (hle m rfl)

/-- A read returns some bytes or fails, and the program goes on with the result. -/
theorem next_read : (Sock.read n kr).next mv = some (rec, P) ↔
    ∃ r, mv = .got r ∧ (∀ bytes ∈ r, bytes.length ≤ n) ∧ rec = .ofHeard (received r) ∧
      P = kr r := by
  constructor
  · intro h
    cases mv with
    -- the answer must be one to a read
    | compute => cases h
    | wrote r => cases r <;> cases h
    | got r =>
      cases r with
      | none =>
        cases h
        exact ⟨none, rfl, fun bytes hm => (by cases hm), rfl, rfl⟩
      | some bytes =>
        obtain ⟨hle, heq⟩ := Option.ite_none_right_eq_some.mp h
        cases heq
        exact ⟨some bytes, rfl, fun bytes' hm => Option.some.inj hm ▸ hle, rfl, rfl⟩
  · rintro ⟨r, rfl, hle, rfl, rfl⟩
    cases r with
    | none => rfl
    | some bytes => exact if_pos (hle bytes rfl)

/-- A loop that writes is left when a call fails, and goes on with what is left otherwise. -/
theorem next_writeLoop : (Sock.writeLoop bytes fail k).next mv = some (rec, P) ↔
    mv = .wrote none ∧ rec = .nil ∧ P = fail ∨
    ∃ m, mv = .wrote (some m) ∧ m ≤ bytes.length ∧ rec = .ofSent (bytes.take m) ∧
      P = .writeAll (bytes.drop m) fail k := by
  constructor
  · intro h
    cases mv with
    | compute => cases h
    | got r => cases r <;> cases h
    | wrote r =>
      cases r with
      | none =>
        cases h
        exact .inl ⟨rfl, rfl, rfl⟩
      | some m =>
        obtain ⟨hle, heq⟩ := Option.ite_none_right_eq_some.mp h
        cases heq
        exact .inr ⟨m, rfl, hle, rfl, rfl⟩
  · rintro (⟨rfl, rfl, rfl⟩ | ⟨m, rfl, hle, rfl, rfl⟩)
    · rfl
    · exact if_pos hle

/-- A loop that reads is left when a call fails, and goes on behind what came otherwise. -/
theorem next_readLoop : (Sock.readLoop n got failb kb).next mv = some (rec, P) ↔
    mv = .got none ∧ rec = .nil ∧ P = failb got ∨
    ∃ bytes, mv = .got (some bytes) ∧ bytes.length ≤ n ∧ rec = .ofPayload bytes ∧
      P = .readRest (n - bytes.length) (got ++ bytes) failb kb := by
  constructor
  · intro h
    cases mv with
    | compute => cases h
    | wrote r => cases r <;> cases h
    | got r =>
      cases r with
      | none =>
        cases h
        exact .inl ⟨rfl, rfl, rfl⟩
      | some bytes =>
        obtain ⟨hle, heq⟩ := Option.ite_none_right_eq_some.mp h
        cases heq
        exact .inr ⟨bytes, rfl, hle, rfl, rfl⟩
  · rintro (⟨rfl, rfl, rfl⟩ | ⟨bytes, rfl, hle, rfl, rfl⟩)
    · rfl
    · exact if_pos hle

end Next

/-! ### What a run was answered

A run of a program that returns gives away its first answers construct by construct; what is left of
it is a run of what comes behind. -/

section Play

variable {moves : List Move} {P : Sock σ ρ ω α} {rec : Record ω} {a : α} {bytes got : List UInt8}
  {n : ℕ} {k fail : Sock σ ρ ω α} {kw : Option ℕ → Sock σ ρ ω α}
  {kr : Option (List UInt8) → Sock σ ρ ω α} {kb failb : List UInt8 → Sock σ ρ ω α}

/-- A program that has returned is asked for nothing. -/
theorem play_ret (h : play moves (.ret a : Sock σ ρ ω α) = some (rec, P)) :
    moves = [] ∧ rec = .nil ∧ P = .ret a := by
  cases moves with
  | nil =>
    obtain ⟨rfl, rfl⟩ := Prod.mk.inj (Option.some.inj h)
    exact ⟨rfl, rfl, rfl⟩
  | cons mv moves =>
    rw [play, next_ret] at h
    cases h

/-- The same for a program that returns. -/
theorem play_answer {b : α} (h : play moves (.ret a : Sock σ ρ ω α) = some (rec, .ret b)) :
    moves = [] ∧ rec = .nil ∧ b = a := by
  obtain ⟨hmoves, hrec, hret⟩ := play_ret h
  exact ⟨hmoves, hrec, Sock.ret.inj hret⟩

/-- The first step of a run. -/
theorem play_cons {mv : Move} {Q : Sock σ ρ ω α} (h : play (mv :: moves) P = some (rec, Q)) :
    ∃ rec₁ P' rec₂, P.next mv = some (rec₁, P') ∧ play moves P' = some (rec₂, Q) ∧
      rec = rec₁.append rec₂ := by
  obtain ⟨⟨rec₁, P'⟩, hx, hy⟩ := Option.bind_eq_some_iff.mp h
  obtain ⟨⟨rec₂, Q'⟩, hplay, heq⟩ := Option.map_eq_some_iff.mp hy
  obtain ⟨rfl, rfl⟩ := Prod.mk.inj heq
  exact ⟨rec₁, P', rec₂, hx, hplay, rfl⟩

/-- A step before a run. -/
theorem play_step {mv : Move} {P' Q : Sock σ ρ ω α} {rec₁ rec₂ : Record ω}
    (hnext : P.next mv = some (rec₁, P')) (hplay : play moves P' = some (rec₂, Q)) :
    play (mv :: moves) P = some (rec₁.append rec₂, Q) := by
  rw [play, hnext, Option.bind_some, hplay]
  rfl

/-- The first answer is one to the write. -/
theorem play_write (h : play moves (.write bytes kw) = some (rec, .ret a)) :
    ∃ r rest rec', moves = .wrote r :: rest ∧ (∀ m ∈ r, m ≤ bytes.length) ∧
      play rest (kw r) = some (rec', .ret a) ∧
      rec = (Record.ofSent (taken bytes r)).append rec' := by
  cases moves with
  | nil => cases h
  | cons mv moves =>
    obtain ⟨rec₁, P', rec₂, hnext, hplay, rfl⟩ := play_cons h
    obtain ⟨r, rfl, hle, rfl, rfl⟩ := next_write.mp hnext
    exact ⟨r, moves, rec₂, rfl, hle, hplay, rfl⟩

/-- The first answer is one to the read. -/
theorem play_read (h : play moves (.read n kr) = some (rec, .ret a)) :
    ∃ r rest rec', moves = .got r :: rest ∧ (∀ bytes ∈ r, bytes.length ≤ n) ∧
      play rest (kr r) = some (rec', .ret a) ∧ rec = (Record.ofHeard (received r)).append rec' := by
  cases moves with
  | nil => cases h
  | cons mv moves =>
    obtain ⟨rec₁, P', rec₂, hnext, hplay, rfl⟩ := play_cons h
    obtain ⟨r, rfl, hle, rfl, rfl⟩ := next_read.mp hnext
    exact ⟨r, moves, rec₂, rfl, hle, hplay, rfl⟩

/-- The operation comes first, and needs no answer. -/
theorem play_perform {op : ω} (h : play moves (.perform op k) = some (rec, .ret a)) :
    ∃ rest rec', moves = .compute :: rest ∧ play rest k = some (rec', .ret a) ∧
      rec = (Record.ofOp op).append rec' := by
  cases moves with
  | nil => cases h
  | cons mv moves =>
    obtain ⟨rec₁, P', rec₂, hnext, hplay, rfl⟩ := play_cons h
    obtain ⟨rfl, rfl, rfl⟩ := next_perform.mp hnext
    exact ⟨moves, rec₂, rfl, hplay, rfl⟩

/-- The bytes that the calls of a loop moved. -/
def moved : List Move → List UInt8
  | .got (some bytes) :: moves => bytes ++ moved moves
  | _ :: moves => moved moves
  | [] => []

/-- A loop that writes a payload has written it, or a call has failed. -/
theorem play_writeAll (h : play moves (writeAll bytes fail k) = some (rec, .ret a)) :
    (∃ calls rest rec', moves = calls ++ rest ∧ (∀ mv ∈ calls, ∃ m, mv = .wrote (some m)) ∧
      play rest k = some (rec', .ret a) ∧ rec = (Record.ofSent bytes).append rec') ∨
    ∃ calls rest out rec', moves = calls ++ .wrote none :: rest ∧
      play rest fail = some (rec', .ret a) ∧ rec = (Record.ofSent out).append rec' := by
  -- on the answers, for every rest of the payload
  induction moves generalizing bytes rec with
  | nil =>
    unfold writeAll at h
    split at h
    next hnil =>
      subst hnil
      exact .inl ⟨[], [], rec, rfl, fun mv hmv => (by cases hmv), h, rfl⟩
    next => cases h
  | cons mv moves ih =>
    unfold writeAll at h
    split at h
    next hnil =>
      subst hnil
      exact .inl ⟨[], mv :: moves, rec, rfl, fun mv hmv => (by cases hmv), h, rfl⟩
    next =>
      obtain ⟨rec₁, P', rec₂, hnext, hplay, rfl⟩ := play_cons h
      rcases next_writeLoop.mp hnext with ⟨rfl, rfl, rfl⟩ | ⟨m, rfl, -, rfl, rfl⟩
      -- the call failed: this is the second case, with nothing sent by the loop
      · exact .inr ⟨[], moves, [], rec₂, rfl, hplay, rfl⟩
      -- the chunk is out, the induction has the rest
      rcases ih hplay with ⟨calls, rest, rec', rfl, hcalls, hrest, rfl⟩ |
        ⟨calls, rest, out, rec', rfl, hrest, rfl⟩
      · refine .inl ⟨.wrote (some m) :: calls, rest, rec', rfl, ?_, hrest, ?_⟩
        · exact List.forall_mem_cons.mpr ⟨⟨m, rfl⟩, hcalls⟩
        · rw [← Record.append_assoc, Record.ofSent_append, List.take_append_drop]
      · refine .inr ⟨.wrote (some m) :: calls, rest, bytes.take m ++ out, rec', rfl, hrest, ?_⟩
        rw [← Record.append_assoc, Record.ofSent_append]

/-- A loop that reads a payload has read it, or a call has failed before that. -/
theorem play_readRest (h : play moves (readRest n got failb kb) = some (rec, .ret a)) :
    (∃ calls rest rec', moves = calls ++ rest ∧ (∀ mv ∈ calls, ∃ bytes, mv = .got (some bytes)) ∧
      (moved calls).length = n ∧ play rest (kb (got ++ moved calls)) = some (rec', .ret a) ∧
      rec = (Record.ofPayload (moved calls)).append rec') ∨
    ∃ calls rest rec', moves = calls ++ .got none :: rest ∧
      (∀ mv ∈ calls, ∃ bytes, mv = .got (some bytes)) ∧ (moved calls).length < n ∧
      play rest (failb (got ++ moved calls)) = some (rec', .ret a) ∧
      rec = (Record.ofPayload (moved calls)).append rec' := by
  -- on the answers, for every number of bytes left and those before them
  induction moves generalizing n got rec with
  | nil =>
    unfold readRest at h
    split at h
    next hzero =>
      subst hzero
      refine .inl ⟨[], [], rec, rfl, fun mv hmv => (by cases hmv), rfl, ?_, rfl⟩
      rwa [moved, List.append_nil]
    next => cases h
  | cons mv moves ih =>
    unfold readRest at h
    split at h
    next hzero =>
      subst hzero
      refine .inl ⟨[], mv :: moves, rec, rfl, fun mv hmv => (by cases hmv), rfl, ?_, rfl⟩
      rwa [moved, List.append_nil]
    next hne =>
      obtain ⟨rec₁, P', rec₂, hnext, hplay, rfl⟩ := play_cons h
      rcases next_readLoop.mp hnext with ⟨rfl, rfl, rfl⟩ | ⟨bytes, rfl, hle, rfl, rfl⟩
      · refine .inr ⟨[], moves, rec₂, rfl, fun mv hmv => (by cases hmv), Nat.pos_of_ne_zero hne,
          ?_, rfl⟩
        rwa [moved, List.append_nil]
      -- the call succeeded
      have hcall {calls : List Move} (hcalls : ∀ mv ∈ calls, ∃ bytes, mv = .got (some bytes)) :
          ∀ mv ∈ Move.got (some bytes) :: calls, ∃ bytes, mv = .got (some bytes) :=
        List.forall_mem_cons.mpr ⟨⟨bytes, rfl⟩, hcalls⟩
      -- the chunk is in, the induction has the rest
      rcases ih hplay with ⟨calls, rest, rec', rfl, hcalls, hlen, hrest, rfl⟩ |
        ⟨calls, rest, rec', rfl, hcalls, hlen, hrest, rfl⟩
      · refine .inl ⟨.got (some bytes) :: calls, rest, rec', rfl, hcall hcalls, ?_, ?_, ?_⟩
        · rw [moved, List.length_append]
          omega
        · rwa [moved, ← List.append_assoc]
        · rw [← Record.append_assoc, Record.ofPayload_append]
          rfl
      · refine .inr ⟨.got (some bytes) :: calls, rest, rec', rfl, hcall hcalls, ?_, ?_, ?_⟩
        · rw [moved, List.length_append]
          omega
        · rwa [moved, ← List.append_assoc]
        · rw [← Record.append_assoc, Record.ofPayload_append]
          rfl

end Play

/-! ### Results that are compared with a size -/

/-- `ret < size`, where `ret` is signed and `size` is not. -/
def isShort (ret : Option ℕ) (size : ℕ) : Bool :=
  match ret with
  | none => false
  | some n => n < size

@[simp] theorem isShort_none (size : ℕ) : isShort none size = false := rfl

@[simp] theorem isShort_some (n size : ℕ) : isShort (some n) size = decide (n < size) := rfl

/-- A result is short or whole, or it is -1. -/
theorem isShort_eq_false {ret : Option ℕ} {size : ℕ} (hle : ∀ n ∈ ret, n ≤ size)
    (h : isShort ret size = false) : ret = none ∨ ret = some size := by
  cases ret with
  | none => exact .inl rfl
  | some n =>
    rw [isShort_some, decide_eq_false_iff_not, not_lt] at h
    exact .inr (congrArg some (Nat.le_antisymm (hle n rfl) h))

/-! ### Calls that do what they are asked for

`Proc` has no results, so that what its programs do is simpler to say. The relation follows the
first program's answers where the calls succeed in full, and says nothing of its other branches. -/

/-- When every call moves all its bytes, the first program is the second. -/
inductive Whole : Sock σ ρ ω α → Proc σ ρ α → Prop where
  | ret (a : α) : Whole (.ret a) (.ret a)
  | perform {op : ω} {k : Sock σ ρ ω α} {k' : Proc σ ρ α} : Whole k k' → Whole (.perform op k) k'
  | loop {body : σ → σ ⊕ ρ} {s : σ} {k : ρ → Sock σ ρ ω α} {k' : ρ → Proc σ ρ α} :
      (∀ r, Whole (k r) (k' r)) → Whole (.loop body s k) (.loop body s k')
  | write {bytes : List UInt8} {k : Option ℕ → Sock σ ρ ω α} {k' : Proc σ ρ α} :
      Whole (k (some bytes.length)) k' → Whole (.write bytes k) (.write bytes k')
  | read {n : ℕ} {k : Option (List UInt8) → Sock σ ρ ω α} {k' : List UInt8 → Proc σ ρ α} :
      (∀ bytes, bytes.length = n → Whole (k (some bytes)) (k' bytes)) →
      Whole (.read n k) (.read n k')
  | writeLoop {bytes : List UInt8} {fail k : Sock σ ρ ω α} {k' : Proc σ ρ α} : Whole k k' →
      Whole (.writeLoop bytes fail k) (.writeLoop bytes k')
  | readLoop {n : ℕ} {got : List UInt8} {fail k : List UInt8 → Sock σ ρ ω α}
      {k' : List UInt8 → Proc σ ρ α} : (∀ bytes, Whole (k bytes) (k' bytes)) →
      Whole (.readLoop n got fail k) (.readLoop n got k')

section Whole

variable {S : Sock σ ρ ω α} {P P' Q : Proc σ ρ α} {bytes got input out i o : List UInt8} {m n c : ℕ}

/-- The loops that write a payload are related. -/
theorem Whole.writeAll {fail k : Sock σ ρ ω α} {k' : Proc σ ρ α} (h : Whole k k') :
    Whole (Sock.writeAll bytes fail k) (Proc.writeAll bytes k') := by
  unfold Sock.writeAll Proc.writeAll
  split
  · exact h
  · exact .writeLoop h

/-- So are the loops that read one. -/
theorem Whole.readRest {fail k : List UInt8 → Sock σ ρ ω α} {k' : List UInt8 → Proc σ ρ α}
    (h : ∀ bytes, Whole (k bytes) (k' bytes)) :
    Whole (Sock.readRest n got fail k) (Proc.readRest n got k') := by
  unfold Sock.readRest Proc.readRest
  split
  · exact h got
  · exact .readLoop h

/-- A run of one step. -/
theorem play_one {mv : Move} {S' : Sock σ ρ ω α} {rec : Record ω} (h : S.next mv = some (rec, S')) :
    play [mv] S = some (rec.append .nil, S') := play_step h rfl

/-- A step of the second program is taken by the first, after the operations it carries out. -/
theorem Whole.next (h : Whole S P) (hn : P.next m input = some (c, out, P')) :
    ∃ moves rec S', play moves S = some (rec, S') ∧ rec.sent = out ∧
      moved moves = input.take c ∧ Whole S' P' := by
  induction h with
  | ret a => cases hn
  | @perform op k k' h ih =>
    -- only the first program has the operation
    obtain ⟨moves, rec, S', hplay, hsent, hmoved, hwhole⟩ := ih hn
    exact ⟨.compute :: moves, (Record.ofOp op).append rec, S', play_step rfl hplay, hsent, hmoved,
      hwhole⟩
  | @loop body s k k' h ih =>
    simp only [Proc.next] at hn
    split at hn
    next s' hbody =>
      obtain ⟨rfl, rfl, rfl⟩ := by simpa using hn
      have hnext : (Sock.loop body s k : Sock σ ρ ω α).next .compute =
          some (.nil, .loop body s' k) := by
        simp only [Sock.next, hbody]
      exact ⟨[.compute], _, _, play_one hnext, rfl, rfl, .loop h⟩
    next r hbody =>
      obtain ⟨rfl, rfl, rfl⟩ := by simpa using hn
      have hnext : (Sock.loop body s k : Sock σ ρ ω α).next .compute = some (.nil, k r) := by
        simp only [Sock.next, hbody]
      exact ⟨[.compute], _, _, play_one hnext, rfl, rfl, h r⟩
  -- the call is answered with all its bytes
  | @write bytes k k' h ih =>
    simp only [Proc.next, Option.some.injEq, Prod.mk.injEq] at hn
    obtain ⟨rfl, rfl, rfl⟩ := hn
    have hnext : (Sock.write bytes k : Sock σ ρ ω α).next (.wrote (some bytes.length)) =
        some (.ofSent (bytes.take bytes.length), k (some bytes.length)) := if_pos le_rfl
    refine ⟨_, _, _, play_one hnext, ?_, rfl, h⟩
    show bytes.take bytes.length ++ [] = bytes
    rw [List.take_length, List.append_nil]
  -- with as many as it asks for
  | @read n k k' h ih =>
    simp only [Proc.next, Option.ite_none_right_eq_some, Option.some.injEq, Prod.mk.injEq] at hn
    obtain ⟨hle, rfl, rfl, rfl⟩ := hn
    have hlen : (input.take n).length = n := List.length_take_of_le hle
    have hnext : (Sock.read n k : Sock σ ρ ω α).next (.got (some (input.take n))) =
        some (.ofHeard (input.take n), k (some (input.take n))) := if_pos hlen.le
    exact ⟨_, _, _, play_one hnext, rfl, List.append_nil _, h _ hlen⟩
  | @writeLoop bytes fail k k' h ih =>
    simp only [Proc.next, Option.ite_none_right_eq_some, Option.some.injEq, Prod.mk.injEq] at hn
    obtain ⟨⟨-, hle⟩, rfl, rfl, rfl⟩ := hn
    -- a call of the loop takes the same chunk
    have hnext : (Sock.writeLoop bytes fail k : Sock σ ρ ω α).next (.wrote (some m)) =
        some (.ofSent (bytes.take m), Sock.writeAll (bytes.drop m) fail k) := if_pos hle
    exact ⟨_, _, _, play_one hnext, List.append_nil _, rfl, h.writeAll⟩
  -- and here too
  | @readLoop n got fail k k' h ih =>
    simp only [Proc.next, Option.ite_none_right_eq_some, Option.some.injEq, Prod.mk.injEq] at hn
    obtain ⟨⟨-, hle, hin⟩, rfl, rfl, rfl⟩ := hn
    have hlen : (input.take m).length = m := List.length_take_of_le hin
    have hnext : (Sock.readLoop n got fail k : Sock σ ρ ω α).next (.got (some (input.take m))) =
        some (.ofPayload (input.take m),
          Sock.readRest (n - (input.take m).length) (got ++ input.take m) fail k) :=
      if_pos (hlen.trans_le hle)
    refine ⟨_, _, _, play_one hnext, rfl, List.append_nil _, ?_⟩
    rw [hlen]
    exact Whole.readRest h

/-- Two runs, one behind the other. -/
theorem play_append {moves moves' : List Move} {S S' S'' : Sock σ ρ ω α} {rec rec' : Record ω}
    (h : play moves S = some (rec, S')) (h' : play moves' S' = some (rec', S'')) :
    play (moves ++ moves') S = some (rec.append rec', S'') := by
  induction moves generalizing S rec with
  | nil =>
    obtain ⟨rfl, rfl⟩ := Prod.mk.inj (Option.some.inj h)
    exact h'
  | cons mv moves ih =>
    obtain ⟨rec₁, S₁, rec₂, hnext, hplay, rfl⟩ := play_cons h
    rw [Record.append_assoc]
    exact play_step hnext (ih hplay)

/-- What they moved comes in the same order. -/
theorem moved_append (moves moves' : List Move) :
    moved (moves ++ moves') = moved moves ++ moved moves' := by
  induction moves with
  | nil => rfl
  | cons mv moves ih =>
    cases mv with
    | compute => exact ih
    | wrote r => exact ih
    | got r =>
      cases r with
      | none => exact ih
      | some bytes =>
        rw [List.cons_append, moved, moved, ih, List.append_assoc]

/-- **Every run of the second program is one of the first**, with calls that move all their
bytes. -/
theorem Whole.runs (h : Whole S P) (hrun : Runs P i o Q) :
    ∃ moves rec S', play moves S = some (rec, S') ∧ rec.sent = o ∧ moved moves = i ∧
      Whole S' Q := by
  induction hrun generalizing S with
  | refl => exact ⟨[], .nil, S, rfl, rfl, rfl, h⟩
  | step hn _ ih =>
    obtain ⟨moves, rec, S', hplay, hsent, hmoved, hwhole⟩ := h.next hn
    obtain ⟨moves', rec', S'', hplay', hsent', hmoved', hwhole'⟩ := ih hwhole
    refine ⟨moves ++ moves', rec.append rec', S'', play_append hplay hplay', ?_, ?_, hwhole'⟩
    · show rec.sent ++ rec'.sent = _
      rw [hsent, hsent']
    · rw [moved_append, hmoved, hmoved']

end Whole

end Socket
