import NfpUdpEcho.Framework.Loop
import NfpUdpEcho.Framework.Socket
import NfpUdpEcho.Framework.System

/-!
# Programs at the end of a finite stream

`feed` runs a `Sock` whose peer has sent a finite stream and closed the connection. The stream
comes in pieces of any size: a read returns a part of what it asks for, nothing only when there
is nothing left, and it does not fail. A write may.

A `Delivery` takes the choice out of this: it says in which pieces the stream comes and what the
writes return, so that a program has one run. `feed_iff_delivery` says that the steps of `feed`
are those under some delivery. Whether the run returns is `Delivery.Ends`, with one rule for each
construct. What decides are the loops: one that reads a payload goes on for good when the stream
is shorter than the payload, since at the end of the stream `read` returns 0 and not -1
(`Delivery.ends_readRest`).

A program that returns is a fact about one run, and one run needs a program without choice; that is
what a `Delivery` is for. The rules for `Ends` are equivalences, so that the exact condition for a
program is found by rewriting along it. Only the loops are inductions: on the steps where a run that
has returned is given, on what is left of the payload or the stream where one is to be built.
-/

namespace Socket

open LTS

variable {σ ρ ω α : Type}

/-- What a read of up to `n` bytes returns, and what it leaves of the stream. -/
structure Cut (n : ℕ) (input bytes rest : List UInt8) : Prop where
  input_eq : input = bytes ++ rest
  length_le : bytes.length ≤ n
  /-- Only at the end of the stream nothing is returned. -/
  ended : bytes = [] → input = [] ∨ n = 0

/-- A read that returns all it asks for. -/
theorem Cut.whole (bytes rest : List UInt8) : Cut bytes.length (bytes ++ rest) bytes rest where
  input_eq := rfl
  length_le := le_rfl
  ended h := .inr (List.length_eq_zero_iff.mpr h)

/-- At the end of the stream a read returns nothing. -/
theorem Cut.nil (n : ℕ) : Cut n [] [] [] := ⟨rfl, Nat.zero_le n, fun _ => .inl rfl⟩

/-- A read can always go on: it may return all that it asks for, or all that is left. -/
theorem cut_take (n : ℕ) (input : List UInt8) : Cut n input (input.take n) (input.drop n) := by
  refine ⟨(List.take_append_drop n input).symm, List.length_take_le n input, fun h => ?_⟩
  rcases List.take_eq_nil_iff.mp h with hzero | hnil
  · exact .inr hzero
  · exact .inl hnil

/-- The first bytes of a stream, if they are not too many nor nothing. -/
theorem cut_of_eq_take {n : ℕ} {input bytes : List UInt8} (heq : bytes = input.take bytes.length)
    (hle : bytes.length ≤ n) (hended : bytes = [] → input = [] ∨ n = 0) :
    Cut n input bytes (input.drop bytes.length) :=
  ⟨(List.take_append_drop bytes.length input).symm.trans (by rw [← heq]), hle, hended⟩

/-- As long as there is enough left, a read returns something. -/
theorem Cut.pos {n : ℕ} {input bytes rest : List UInt8} (h : Cut n input bytes rest)
    (hle : n ≤ input.length) (hne : n ≠ 0) : 0 < bytes.length := by
  rw [List.length_pos_iff_ne_nil]
  intro hnil
  rcases h.ended hnil with rfl | hzero
  · exact hne (Nat.le_zero.mp hle)
  · exact hne hzero

/-- The next `n` bytes are those that were returned and the first of the rest. -/
theorem Cut.take_eq {n : ℕ} {input bytes rest : List UInt8} (h : Cut n input bytes rest) :
    input.take n = bytes ++ rest.take (n - bytes.length) := by
  rw [h.input_eq, List.take_append, List.take_of_length_le h.length_le]

/-- What is behind the next `n` bytes. -/
theorem Cut.drop_eq {n : ℕ} {input bytes rest : List UInt8} (h : Cut n input bytes rest) :
    input.drop n = rest.drop (n - bytes.length) := by
  rw [h.input_eq, List.drop_append, List.drop_of_length_le h.length_le, List.nil_append]

/-- If there was enough for all, there is enough for the rest. -/
theorem Cut.le_rest {n : ℕ} {input bytes rest : List UInt8} (h : Cut n input bytes rest)
    (hle : n ≤ input.length) : n - bytes.length ≤ rest.length := by
  rw [h.input_eq, List.length_append] at hle
  omega

/-- Nothing is lost. -/
theorem Cut.length_eq {n : ℕ} {input bytes rest : List UInt8} (h : Cut n input bytes rest) :
    input.length = bytes.length + rest.length := by
  rw [h.input_eq, List.length_append]

/-- Whether the socket can answer this, and what it leaves of the stream. -/
def Sock.Answers : Sock σ ρ ω α → List UInt8 → Move → List UInt8 → Prop
  | .read n _, input, .got (some bytes), rest => Cut n input bytes rest
  | .readLoop n _ _ _, input, .got (some bytes), rest => Cut n input bytes rest
  -- a write of something does not return 0
  | .write bytes _, input, .wrote r, rest => rest = input ∧ (r = some 0 → bytes = [])
  | .writeLoop bytes _ _, input, .wrote r, rest => rest = input ∧ (r = some 0 → bytes = [])
  | _, input, .compute, rest => rest = input
  | _, _, _, _ => False

/-- The runs of a program on the rest of a stream. -/
def feed : System (Sock σ ρ ω α × List UInt8) Move where
  init _ := True
  step s mv s' := s.1.Answers s.2 mv s'.2 ∧ ∃ rec, s.1.next mv = some (rec, s'.1)

/-! ### What a step does -/

section Steps

variable {op : ω} {body : σ → σ ⊕ ρ} {x : σ} {n : ℕ} {bytes got input : List UInt8} {mv : Move}
  {fail k : Sock σ ρ ω α} {kr : ρ → Sock σ ρ ω α} {kw : Option ℕ → Sock σ ρ ω α}
  {ko : Option (List UInt8) → Sock σ ρ ω α} {failb kb : List UInt8 → Sock σ ρ ω α}
  {s : Sock σ ρ ω α × List UInt8}

/-- A program that has returned makes no step. -/
theorem not_feed_ret {a : α} : ¬feed.step (.ret a, input) mv s := by
  rintro ⟨-, rec, hnext⟩
  rw [next_ret] at hnext
  cases hnext

/-- An operation takes nothing of the stream. -/
theorem feed_perform :
    feed.step (.perform op k, input) mv s ↔ mv = .compute ∧ s = (k, input) := by
  constructor
  · rintro ⟨hanswers, rec, hnext⟩
    obtain ⟨rfl, -, hs⟩ := next_perform.mp hnext
    exact ⟨rfl, Prod.ext hs hanswers⟩
  · rintro ⟨rfl, rfl⟩
    exact ⟨rfl, _, next_perform.mpr ⟨rfl, rfl, rfl⟩⟩

/-- Neither does an iteration. -/
theorem feed_loop :
    feed.step (.loop body x kr, input) mv s ↔ mv = .compute ∧ s = (.iterate body x kr, input) := by
  constructor
  · rintro ⟨hanswers, rec, hnext⟩
    obtain ⟨rfl, -, hs⟩ := next_loop.mp hnext
    exact ⟨rfl, Prod.ext hs hanswers⟩
  · rintro ⟨rfl, rfl⟩
    exact ⟨rfl, _, next_loop.mpr ⟨rfl, rfl, rfl⟩⟩

/-- A write takes some of its bytes or fails. -/
theorem feed_write :
    feed.step (.write bytes kw, input) mv s ↔ ∃ r : Option ℕ, mv = .wrote r ∧
      (∀ m ∈ r, m ≤ bytes.length) ∧ (r = some 0 → bytes = []) ∧ s = (kw r, input) := by
  constructor
  · rintro ⟨hanswers, rec, hnext⟩
    obtain ⟨r, rfl, hle, -, hs⟩ := next_write.mp hnext
    exact ⟨r, rfl, hle, hanswers.2, Prod.ext hs hanswers.1⟩
  · rintro ⟨r, rfl, hle, hzero, rfl⟩
    exact ⟨⟨rfl, hzero⟩, _, next_write.mpr ⟨r, rfl, hle, rfl, rfl⟩⟩

/-- A read takes a part of the stream. -/
theorem feed_read :
    feed.step (.read n ko, input) mv s ↔ ∃ bytes rest, mv = .got (some bytes) ∧
      Cut n input bytes rest ∧ s = (ko (some bytes), rest) := by
  constructor
  · rintro ⟨hanswers, rec, hnext⟩
    obtain ⟨r, rfl, -, -, hs⟩ := next_read.mp hnext
    -- a read does not fail
    cases r with
    | none => cases hanswers
    | some bytes => exact ⟨bytes, s.2, rfl, hanswers, Prod.ext hs rfl⟩
  · rintro ⟨bytes, rest, rfl, hcut, rfl⟩
    exact ⟨hcut, _, next_read.mpr
      ⟨_, rfl, fun bytes' hbytes => Option.some.inj hbytes ▸ hcut.length_le, rfl, rfl⟩⟩

/-- A loop that writes goes on with what is left, or it is left itself. -/
theorem feed_writeLoop :
    feed.step (.writeLoop bytes fail k, input) mv s ↔ (mv = .wrote none ∧ s = (fail, input)) ∨
      ∃ m, mv = .wrote (some m) ∧ m ≤ bytes.length ∧ (m = 0 → bytes = []) ∧
        s = (.writeAll (bytes.drop m) fail k, input) := by
  constructor
  · rintro ⟨hanswers, rec, hnext⟩
    rcases next_writeLoop.mp hnext with ⟨rfl, -, hs⟩ | ⟨m, rfl, hle, -, hs⟩
    · exact .inl ⟨rfl, Prod.ext hs hanswers.1⟩
    · exact .inr ⟨m, rfl, hle, fun hzero => hanswers.2 (congrArg some hzero),
        Prod.ext hs hanswers.1⟩
  · rintro (⟨rfl, rfl⟩ | ⟨m, rfl, hle, hzero, rfl⟩)
    · exact ⟨⟨rfl, fun hm => (by cases hm)⟩, _, next_writeLoop.mpr (.inl ⟨rfl, rfl, rfl⟩)⟩
    · exact ⟨⟨rfl, fun hm => hzero (Option.some.inj hm)⟩, _,
        next_writeLoop.mpr (.inr ⟨m, rfl, hle, rfl, rfl⟩)⟩

/-- A loop that reads goes on with what it still needs. -/
theorem feed_readLoop :
    feed.step (.readLoop n got failb kb, input) mv s ↔ ∃ bytes rest, mv = .got (some bytes) ∧
      Cut n input bytes rest ∧
      s = (.readRest (n - bytes.length) (got ++ bytes) failb kb, rest) := by
  constructor
  · rintro ⟨hanswers, rec, hnext⟩
    rcases next_readLoop.mp hnext with ⟨rfl, -, -⟩ | ⟨bytes, rfl, -, -, hs⟩
    · cases hanswers
    · exact ⟨bytes, s.2, rfl, hanswers, Prod.ext hs rfl⟩
  · rintro ⟨bytes, rest, rfl, hcut, rfl⟩
    exact ⟨hcut, _, next_readLoop.mpr (.inr ⟨bytes, rfl, hcut.length_le, rfl, rfl⟩)⟩

end Steps

/-! ### One run -/

/-- In which pieces a stream comes, and what becomes of the writes. A read that returns something
leaves less of the stream, so that a piece is named by the number of bytes that were left. -/
structure Delivery where
  reads : ℕ → ℕ
  writes : ℕ → Option ℕ

/-- A program with what is left of the stream, and the number of its writes so far. -/
structure Fed (σ ρ ω α : Type) where
  prog : Sock σ ρ ω α
  input : List UInt8
  writes : ℕ

namespace Delivery

variable (d : Delivery)

/-- What a read of up to `n` bytes returns. -/
def piece (n : ℕ) (input : List UInt8) : List UInt8 :=
  input.take (min n (max 1 (d.reads input.length)))

/-- What it leaves. -/
def rest (n : ℕ) (input : List UInt8) : List UInt8 := input.drop (d.piece n input).length

/-- What a write returns. -/
def wrote (i : ℕ) (bytes : List UInt8) : Option ℕ :=
  (d.writes i).map fun m => min bytes.length (max 1 m)

/-- A step, or what the program has returned. -/
def step (s : Fed σ ρ ω α) : Fed σ ρ ω α ⊕ α :=
  match s.prog with
  | .ret a => .inr a
  | .perform _ k => .inl { s with prog := k }
  | .loop body x k => .inl { s with prog := .iterate body x k }
  | .write bytes k =>
    .inl { s with prog := k (d.wrote s.writes bytes), writes := s.writes + 1 }
  | .read n k =>
    .inl { s with prog := k (some (d.piece n s.input)), input := d.rest n s.input }
  | .writeLoop bytes fail k =>
    match d.wrote s.writes bytes with
    | none => .inl { s with prog := fail, writes := s.writes + 1 }
    | some m => .inl { s with prog := .writeAll (bytes.drop m) fail k, writes := s.writes + 1 }
  | .readLoop n got fail k =>
    let bytes := d.piece n s.input
    .inl { s with
      prog := .readRest (n - bytes.length) (got ++ bytes) fail k
      input := d.rest n s.input }

/-- The program returns, after finitely many calls. -/
def Ends (s : Fed σ ρ ω α) : Prop := ∃ a, Loop.Returns d.step s a

end Delivery

/-! ### The runs of `feed` are those under some delivery -/

section Deliveries

variable {n : ℕ} {input bytes rest : List UInt8}

/-- A piece is what a read may return. -/
theorem Delivery.piece_cut (d : Delivery) (n : ℕ) (input : List UInt8) :
    Cut n input (d.piece n input) (d.rest n input) := by
  refine cut_of_eq_take ?_ ?_ fun hnil => ?_
  · rw [Delivery.piece, List.length_take, List.take_eq_take_min]
  · rw [Delivery.piece, List.length_take]
    exact (Nat.min_le_left _ _).trans (Nat.min_le_left _ _)
  · rcases List.take_eq_nil_iff.mp hnil with hzero | hnil
    · right
      omega
    · exact .inl hnil

/-- Every such part is a piece. -/
theorem Cut.exists_delivery (h : Cut n input bytes rest) :
    ∃ d : Delivery, d.piece n input = bytes ∧ d.rest n input = rest := by
  have hpiece : Delivery.piece ⟨fun _ => bytes.length, fun _ => none⟩ n input = bytes := by
    rw [Delivery.piece]
    rcases Nat.eq_zero_or_pos bytes.length with hzero | hpos
    · -- nothing is returned only where there is nothing to return
      obtain rfl := List.length_eq_zero_iff.mp hzero
      rcases h.ended rfl with rfl | rfl
      · exact List.take_nil
      · rw [Nat.zero_min, List.take_zero]
    · rw [Nat.max_eq_right hpos, Nat.min_eq_right h.length_le, h.input_eq, List.take_left]
  refine ⟨_, hpiece, ?_⟩
  rw [Delivery.rest, hpiece, h.input_eq, List.drop_left]

/-- What a write returns under a delivery is what a write may return. -/
theorem Delivery.wrote_le (d : Delivery) (i : ℕ) (bytes : List UInt8) :
    (∀ m ∈ d.wrote i bytes, m ≤ bytes.length) ∧ (d.wrote i bytes = some 0 → bytes = []) := by
  rw [Delivery.wrote]
  cases d.writes i with
  | none => exact ⟨nofun, nofun⟩
  | some m =>
    refine ⟨fun m' hm' => ?_, fun hzero => List.length_eq_zero_iff.mp ?_⟩
    · obtain rfl := Option.some.inj hm'
      exact Nat.min_le_left _ _
    · have hmin : min bytes.length (max 1 m) = 0 := Option.some.inj hzero
      omega

/-- Whatever a write may return, it does so under some delivery. -/
theorem exists_wrote {r : Option ℕ} (hle : ∀ m ∈ r, m ≤ bytes.length)
    (hzero : r = some 0 → bytes = []) (i : ℕ) : ∃ d : Delivery, d.wrote i bytes = r := by
  refine ⟨⟨fun _ => 0, fun _ => r⟩, ?_⟩
  cases r with
  | none => rfl
  | some m =>
    have hm := hle m rfl
    show some (min bytes.length (max 1 m)) = some m
    rcases Nat.eq_zero_or_pos m with rfl | hpos
    · rw [hzero rfl]
      rfl
    · rw [Nat.max_eq_right hpos, Nat.min_eq_right hm]

/-- **The steps of `feed` are those under some delivery.** -/
theorem feed_iff_delivery {P P' : Sock σ ρ ω α} (i : ℕ) :
    (∃ mv, feed.step (P, input) mv (P', rest)) ↔
      ∃ (d : Delivery) (i' : ℕ), d.step ⟨P, input, i⟩ = .inl ⟨P', rest, i'⟩ := by
  constructor
  · rintro ⟨mv, hstep⟩
    cases P with
    | ret a => exact absurd hstep not_feed_ret
    | perform op k =>
      obtain ⟨-, heq⟩ := feed_perform.mp hstep
      cases heq
      exact ⟨⟨fun _ => 0, fun _ => none⟩, i, rfl⟩
    | loop body x k =>
      obtain ⟨-, heq⟩ := feed_loop.mp hstep
      cases heq
      exact ⟨⟨fun _ => 0, fun _ => none⟩, i, rfl⟩
    | write bytes k =>
      obtain ⟨r, -, hle, hzero, heq⟩ := feed_write.mp hstep
      cases heq
      obtain ⟨d, rfl⟩ := exists_wrote hle hzero i
      exact ⟨d, i + 1, rfl⟩
    -- the piece is the part that was read
    | read n k =>
      obtain ⟨bytes, rest, -, hcut, heq⟩ := feed_read.mp hstep
      cases heq
      obtain ⟨d, rfl, rfl⟩ := hcut.exists_delivery
      exact ⟨d, i, rfl⟩
    | writeLoop bytes fail k =>
      rcases feed_writeLoop.mp hstep with ⟨-, heq⟩ | ⟨m, -, hle, hzero, heq⟩
      · cases heq
        exact ⟨⟨fun _ => 0, fun _ => none⟩, i + 1, rfl⟩
      · cases heq
        have hle' : ∀ m' ∈ some m, m' ≤ bytes.length := fun m' hm' => Option.some.inj hm' ▸ hle
        obtain ⟨d, hd⟩ := exists_wrote hle' (fun h => hzero (Option.some.inj h)) i
        refine ⟨d, i + 1, ?_⟩
        simp only [Delivery.step, hd]
    | readLoop n got fail k =>
      obtain ⟨bytes, rest, -, hcut, heq⟩ := feed_readLoop.mp hstep
      cases heq
      obtain ⟨d, rfl, rfl⟩ := hcut.exists_delivery
      exact ⟨d, i, rfl⟩
  · rintro ⟨d, i', hstep⟩
    cases P with
    | ret a => cases hstep
    | perform op k =>
      cases hstep
      exact ⟨_, feed_perform.mpr ⟨rfl, rfl⟩⟩
    | loop body x k =>
      cases hstep
      exact ⟨_, feed_loop.mpr ⟨rfl, rfl⟩⟩
    | write bytes k =>
      cases hstep
      obtain ⟨hle, hzero⟩ := d.wrote_le i bytes
      exact ⟨_, feed_write.mpr ⟨_, rfl, hle, hzero, rfl⟩⟩
    | read n k =>
      cases hstep
      exact ⟨_, feed_read.mpr ⟨_, _, rfl, d.piece_cut n input, rfl⟩⟩
    | writeLoop bytes fail k =>
      obtain ⟨hle, hzero⟩ := d.wrote_le i bytes
      simp only [Delivery.step] at hstep
      split at hstep
      next hnone =>
        cases hstep
        exact ⟨_, feed_writeLoop.mpr (.inl ⟨rfl, rfl⟩)⟩
      next m hsome =>
        cases hstep
        refine ⟨_, feed_writeLoop.mpr (.inr ⟨m, rfl, hle m hsome, fun hm => ?_, rfl⟩)⟩
        exact hzero (hm ▸ hsome)
    | readLoop n got fail k =>
      cases hstep
      exact ⟨_, feed_readLoop.mpr ⟨_, _, rfl, d.piece_cut n input, rfl⟩⟩

end Deliveries

/-! ### Programs that return -/

namespace Delivery

variable {d : Delivery} {s s' : Fed σ ρ ω α} {n i : ℕ} {bytes got input : List UInt8}
  {fail k : Sock σ ρ ω α} {kb failb : List UInt8 → Sock σ ρ ω α}
  {ko : Option (List UInt8) → Sock σ ρ ω α} {kw : Option ℕ → Sock σ ρ ω α}

/-- It has returned. -/
theorem ends_ret (d : Delivery) (a : α) (input : List UInt8) (i : ℕ) :
    d.Ends (⟨.ret a, input, i⟩ : Fed σ ρ ω α) := by
  have hret : d.step (⟨.ret a, input, i⟩ : Fed σ ρ ω α) = .inr a := rfl
  exact ⟨a, (Loop.returns_inr hret).mpr rfl⟩

/-- A step changes nothing of whether the program returns. -/
theorem ends_step (h : d.step s = .inl s') : d.Ends s ↔ d.Ends s' :=
  exists_congr fun _ => Loop.returns_inl h

/-- Nor does an operation. -/
theorem ends_perform {op : ω} : d.Ends ⟨.perform op k, input, i⟩ ↔ d.Ends ⟨k, input, i⟩ :=
  ends_step rfl

/-- Behind a write the program has its result. -/
theorem ends_write : d.Ends ⟨.write bytes kw, input, i⟩ ↔
    d.Ends ⟨kw (d.wrote i bytes), input, i + 1⟩ := ends_step rfl

/-- Behind a read it has the next piece. -/
theorem ends_read : d.Ends ⟨.read n ko, input, i⟩ ↔
    d.Ends ⟨ko (some (d.piece n input)), d.rest n input, i⟩ := ends_step rfl

/-- A program with a loop inside returns if the loop does, and what comes behind. -/
theorem ends_loop {body : σ → σ ⊕ ρ} {x : σ} {kr : ρ → Sock σ ρ ω α} :
    d.Ends ⟨.loop body x kr, input, i⟩ ↔
      ∃ r, Loop.Returns body x r ∧ d.Ends ⟨kr r, input, i⟩ := by
  have hstep : ∀ x, d.step ⟨.loop body x kr, input, i⟩ = .inl ⟨.iterate body x kr, input, i⟩ :=
    fun _ => rfl
  constructor
  · rintro ⟨a, m, hm⟩
    -- on the number of steps: every iteration is one
    induction m generalizing x with
    | zero => cases hm
    | succ m ih =>
      rw [Loop.run_succ_inl (hstep x), Sock.iterate] at hm
      cases hbody : body x with
      | inl y =>
        rw [hbody] at hm
        obtain ⟨r, hr, hk⟩ := ih hm
        exact ⟨r, (Loop.returns_inl hbody).mpr hr, hk⟩
      | inr r =>
        rw [hbody] at hm
        exact ⟨r, (Loop.returns_inr hbody).mpr rfl, a, m, hm⟩
  · rintro ⟨r, ⟨m, hm⟩, hk⟩
    -- on the number of iterations
    induction m generalizing x with
    | zero => cases hm
    | succ m ih =>
      rw [ends_step (hstep x), Sock.iterate]
      cases hbody : body x with
      | inl y => exact ih ((Loop.run_succ_inl hbody).symm.trans hm)
      | inr r' =>
        obtain rfl := Option.some.inj ((Loop.run_succ_inr hbody).symm.trans hm)
        exact hk

/-- Every call of the loop takes some bytes, or fails. -/
theorem ends_writeAll (hfail : ∀ i, d.Ends ⟨fail, input, i⟩) (hk : ∀ i, d.Ends ⟨k, input, i⟩)
    (i : ℕ) : d.Ends ⟨.writeAll bytes fail k, input, i⟩ := by
  -- on what is left to write
  induction hlen : bytes.length using Nat.strongRecOn generalizing bytes i with
  | ind len ih =>
    unfold Sock.writeAll
    split
    next => exact hk i
    next hne =>
      have hzero := (d.wrote_le i bytes).2
      cases hwrote : d.wrote i bytes with
      | none =>
        have hstep : d.step ⟨.writeLoop bytes fail k, input, i⟩ = .inl ⟨fail, input, i + 1⟩ := by
          simp only [step, hwrote]
        exact (ends_step hstep).mpr (hfail _)
      | some m =>
        have hstep : d.step ⟨.writeLoop bytes fail k, input, i⟩ =
            .inl ⟨.writeAll (bytes.drop m) fail k, input, i + 1⟩ := by
          simp only [step, hwrote]
        -- a write of something does not return 0, so that less is left
        have hpos : m ≠ 0 := fun hm => hne (hzero (hm ▸ hwrote))
        have hlt : (bytes.drop m).length < len := by
          rw [List.length_drop]
          have hbytes := List.length_pos_iff_ne_nil.mpr hne
          omega
        exact (ends_step hstep).mpr (ih _ hlt (i + 1) rfl)

/-- One call of a loop that is not done. -/
theorem readRest_step (hne : n ≠ 0) :
    d.step ⟨.readRest n got failb kb, input, i⟩ =
      .inl ⟨.readRest (n - (d.piece n input).length) (got ++ d.piece n input) failb kb,
        d.rest n input, i⟩ := by
  simp only [Sock.readRest, if_neg hne, step]

/-- **A loop over a payload returns when the payload is in the stream.** -/
theorem ends_readRest : d.Ends ⟨.readRest n got failb kb, input, i⟩ ↔
    n ≤ input.length ∧ d.Ends ⟨kb (got ++ input.take n), input.drop n, i⟩ := by
  have hdone : ∀ got input, d.Ends ⟨.readRest 0 got failb kb, input, i⟩ ↔
      0 ≤ input.length ∧ d.Ends ⟨kb (got ++ input.take 0), input.drop 0, i⟩ := by
    intro got input
    rw [List.take_zero, List.append_nil, List.drop_zero]
    exact (and_iff_right (Nat.zero_le _)).symm
  constructor
  · rintro ⟨a, m, hm⟩
    -- on the number of steps: a call at the end of the stream would leave one less, for good
    induction m generalizing n got input with
    | zero => cases hm
    | succ m ih =>
      by_cases hne : n = 0
      · subst hne
        exact (hdone got input).mp ⟨a, _, hm⟩
      · have hcut := d.piece_cut n input
        rw [Loop.run_succ_inl (readRest_step hne)] at hm
        obtain ⟨hle, hk⟩ := ih hm
        rw [hcut.take_eq, hcut.drop_eq, ← List.append_assoc]
        refine ⟨?_, hk⟩
        rw [hcut.length_eq]
        omega
  · rintro ⟨hle, hk⟩
    -- on what is left of the stream
    induction hlen : input.length using Nat.strongRecOn generalizing n got input with
    | ind len ih =>
      by_cases hne : n = 0
      · subst hne
        exact (hdone got input).mpr ⟨hle, hk⟩
      · have hcut := d.piece_cut n input
        -- something has come, so that less is left
        have hpos := hcut.pos hle hne
        have hlen' := hcut.length_eq
        rw [ends_step (readRest_step hne)]
        refine ih _ (by omega) (hcut.le_rest hle) ?_ rfl
        rwa [hcut.take_eq, hcut.drop_eq, ← List.append_assoc] at hk

end Delivery

end Socket
