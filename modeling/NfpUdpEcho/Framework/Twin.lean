import Mathlib.Data.Sum.Basic
import NfpUdpEcho.Framework.Socket

/-!
# Two runs against the same answers

Two programs send alike against some answers when every run of the first that returns is met by
a run of the second, against the same answers, that returns and has sent the same bytes.

There is a rule for each construct of the language. Those of a call are about the answer that it
is given, and `SendsAlike.loop` takes two loops round in lockstep.

They send apart when nothing that one sends is sent by the other. Those rules follow the answers
down to a byte that differs.

Both relations quantify over what is sent and not over the runs, since two programs that differ in
what they keep in memory may send the same bytes and return different results. The proofs take a run
of the first program apart with `play_write`, `play_read` and the like, and put one of the second
together with `play_step`; the loops need an induction on the answers. For programs that send apart
it is enough to find one byte (`SendsApart.byte`), because both have sent the same up to there or
differ already.
-/

namespace Socket

open Sock

variable {σ ρ ω α : Type}

/-- A run against these answers returns and has sent `sent`. -/
def Sends (moves : List Move) (P : Sock σ ρ ω α) (sent : List UInt8) : Prop :=
  ∃ rec a, play moves P = some (rec, .ret a) ∧ rec.sent = sent

/-- What the first program sends against these answers, the second sends too. -/
def SendsAlike (moves : List Move) (P P' : Sock σ ρ ω α) : Prop :=
  ∀ sent, Sends moves P sent → Sends moves P' sent

/-- What the first program sends against these answers, the second does not. -/
def SendsApart (moves : List Move) (P P' : Sock σ ρ ω α) : Prop :=
  ∀ sent, Sends moves P sent → ¬Sends moves P' sent

variable {moves rest : List Move} {P P' Q k k' : Sock σ ρ ω α} {rec : Record ω} {a : α} {n : ℕ}
  {bytes bytes' got sent : List UInt8} {op op' : ω} {kw kw' : Option ℕ → Sock σ ρ ω α}
  {kr kr' : Option (List UInt8) → Sock σ ρ ω α} {fail kb kb' : List UInt8 → Sock σ ρ ω α}
  {body : σ → σ ⊕ ρ} {x y : σ} {kl : ρ → Sock σ ρ ω α} {mv : Move}

/-! ### Runs of a call -/

/-- A program that has returned has sent nothing. -/
theorem sends_ret (a : α) : Sends [] (.ret a : Sock σ ρ ω α) [] := ⟨.nil, a, rfl, rfl⟩

/-- And that is the only run it has. -/
theorem Sends.ret (h : Sends moves (.ret a : Sock σ ρ ω α) sent) : moves = [] ∧ sent = [] := by
  obtain ⟨rec, b, hplay, rfl⟩ := h
  obtain ⟨hmoves, rfl, -⟩ := play_answer hplay
  exact ⟨hmoves, rfl⟩

/-- A write that is answered sends what is taken of its bytes. -/
theorem sends_wrote {r : Option ℕ} (hle : ∀ m ∈ r, m ≤ bytes.length) (h : Sends rest (kw r) sent) :
    Sends (.wrote r :: rest) (.write bytes kw) (taken bytes r ++ sent) := by
  obtain ⟨rec, a, hplay, rfl⟩ := h
  exact ⟨(Record.ofSent (taken bytes r)).append rec, a,
    play_step (next_write.mpr ⟨r, rfl, hle, rfl, rfl⟩) hplay, rfl⟩

/-- A run of a write begins with an answer to it. -/
theorem Sends.write (h : Sends moves (.write bytes kw) sent) :
    ∃ r rest sent', moves = .wrote r :: rest ∧ (∀ m ∈ r, m ≤ bytes.length) ∧
      Sends rest (kw r) sent' ∧ sent = taken bytes r ++ sent' := by
  obtain ⟨rec, a, hplay, rfl⟩ := h
  obtain ⟨r, rest, rec', hmoves, hle, hrest, rfl⟩ := play_write hplay
  exact ⟨r, rest, rec'.sent, hmoves, hle, ⟨rec', a, hrest, rfl⟩, rfl⟩

/-- A read that is answered sends nothing. -/
theorem sends_got {r : Option (List UInt8)} (hle : ∀ bytes ∈ r, bytes.length ≤ n)
    (h : Sends rest (kr r) sent) : Sends (.got r :: rest) (.read n kr) sent := by
  obtain ⟨rec, a, hplay, rfl⟩ := h
  exact ⟨(Record.ofHeard (received r)).append rec, a,
    play_step (next_read.mpr ⟨r, rfl, hle, rfl, rfl⟩) hplay, rfl⟩

/-- A run of a read begins with an answer to it. -/
theorem Sends.read (h : Sends moves (.read n kr) sent) :
    ∃ r rest, moves = .got r :: rest ∧ (∀ bytes ∈ r, bytes.length ≤ n) ∧
      Sends rest (kr r) sent := by
  obtain ⟨rec, a, hplay, rfl⟩ := h
  obtain ⟨r, rest, rec', hmoves, hle, hrest, rfl⟩ := play_read hplay
  exact ⟨r, rest, hmoves, hle, rec', a, hrest, rfl⟩

/-- An operation sends nothing. -/
theorem sends_performed (h : Sends rest k sent) :
    Sends (.compute :: rest) (.perform op k) sent := by
  obtain ⟨rec, a, hplay, rfl⟩ := h
  exact ⟨(Record.ofOp op).append rec, a, play_step (next_perform.mpr ⟨rfl, rfl, rfl⟩) hplay, rfl⟩

/-- A run of an operation begins with it. -/
theorem Sends.perform (h : Sends moves (.perform op k) sent) :
    ∃ rest, moves = .compute :: rest ∧ Sends rest k sent := by
  obtain ⟨rec, a, hplay, rfl⟩ := h
  obtain ⟨rest, rec', hmoves, hrest, rfl⟩ := play_perform hplay
  exact ⟨rest, hmoves, rec', a, hrest, rfl⟩

/-! ### Programs that send alike -/

/-- A program sends like itself. -/
theorem SendsAlike.refl (moves : List Move) (P : Sock σ ρ ω α) : SendsAlike moves P P :=
  fun _ h => h

/-- What is returned is not sent. -/
theorem SendsAlike.ret (moves : List Move) (a b : α) :
    SendsAlike moves (.ret a : Sock σ ρ ω α) (.ret b) := by
  intro sent h
  obtain ⟨rfl, rfl⟩ := h.ret
  exact sends_ret b

/-- Two writes of the same length, of which the same is taken. -/
theorem SendsAlike.write (hlen : bytes.length = bytes'.length)
    (h : ∀ r rest, moves = .wrote r :: rest →
      taken bytes r = taken bytes' r ∧ SendsAlike rest (kw r) (kw' r)) :
    SendsAlike moves (.write bytes kw) (.write bytes' kw') := by
  intro sent hsends
  obtain ⟨r, rest, sent', rfl, hle, hrest, rfl⟩ := hsends.write
  obtain ⟨htaken, halike⟩ := h r rest rfl
  rw [htaken]
  exact sends_wrote (hlen ▸ hle) (halike sent' hrest)

/-- Two reads of the same size, which are given the same bytes. -/
theorem SendsAlike.read
    (h : ∀ r rest, moves = .got r :: rest → (∀ bytes ∈ r, bytes.length ≤ n) →
      SendsAlike rest (kr r) (kr' r)) :
    SendsAlike moves (.read n kr) (.read n kr') := by
  intro sent hsends
  obtain ⟨r, rest, rfl, hle, hrest⟩ := hsends.read
  exact sends_got hle (h r rest rfl hle sent hrest)

/-- The operations may differ: nothing of them is sent. -/
theorem SendsAlike.perform (h : ∀ rest, moves = .compute :: rest → SendsAlike rest k k') :
    SendsAlike moves (.perform op k) (.perform op' k') := by
  intro sent hsends
  obtain ⟨rest, rfl, hrest⟩ := hsends.perform
  exact sends_performed (h rest rfl sent hrest)

/-- Two loops in lockstep. -/
theorem SendsAlike.loop {R : σ → σ → Prop} {S : ρ → ρ → Prop}
    (h_step : ∀ x y, R x y → Sum.LiftRel R S (body x) (body y))
    (h_exit : ∀ r r', S r r' → kl r = kl r') (hxy : R x y) :
    SendsAlike moves (.loop body x kl) (.loop body y kl) := by
  induction moves generalizing x y with
  | nil =>
    rintro sent ⟨rec, a, hplay, -⟩
    cases hplay
  | cons mv moves ih =>
    rintro sent ⟨rec, a, hplay, rfl⟩
    obtain ⟨rec₁, P, rec₂, hnext, hrest, rfl⟩ := play_cons hplay
    obtain ⟨rfl, rfl, rfl⟩ := next_loop.mp hnext
    have hnext' : (Sock.loop body y kl : Sock σ ρ ω α).next .compute =
        some (.nil, .iterate body y kl) := next_loop.mpr ⟨rfl, rfl, rfl⟩
    have hstep := h_step x y hxy
    unfold iterate at hrest hnext'
    generalize body x = outcome at hstep hrest
    generalize body y = outcome' at hstep hnext'
    cases hstep with
    -- both go round once more
    | inl hR =>
      obtain ⟨rec₃, a₃, hplay₃, hsent⟩ := ih hR rec₂.sent ⟨rec₂, a, hrest, rfl⟩
      exact ⟨rec₃, a₃, play_step hnext' hplay₃, hsent⟩
    -- both are done, and go on in the same way
    | inr hS =>
      dsimp only at hrest
      rw [h_exit _ _ hS] at hrest
      exact ⟨rec₂, a, play_step hnext' hrest, rfl⟩

/-- The loop that reads a payload. -/
theorem SendsAlike.readRest
    (h : ∀ rest bytes, bytes.length = got.length + n → SendsAlike rest (kb bytes) (kb' bytes)) :
    SendsAlike moves (readRest n got fail kb) (readRest n got fail kb') := by
  induction moves generalizing n got with
  | nil =>
    unfold readRest
    split
    next hzero => exact h [] got (by rw [hzero, Nat.add_zero])
    next =>
      rintro sent ⟨rec, a, hplay, -⟩
      cases hplay
  | cons mv moves ih =>
    unfold readRest
    split
    next hzero => exact h (mv :: moves) got (by rw [hzero, Nat.add_zero])
    next =>
      rintro sent ⟨rec, a, hplay, rfl⟩
      obtain ⟨rec₁, P, rec₂, hnext, hrest, rfl⟩ := play_cons hplay
      rcases next_readLoop.mp hnext with ⟨rfl, rfl, rfl⟩ | ⟨bytes, rfl, hle, rfl, rfl⟩
      -- a call that fails ends both in the same way
      · exact ⟨_, a, hplay, rfl⟩
      -- the chunk is in for both, the induction has the rest
      have hrest' := @ih (n - bytes.length) (got ++ bytes) fun rest bytes' hlen =>
        h rest bytes' (by rw [hlen, List.length_append]; omega)
      obtain ⟨rec₃, a₃, hplay₃, hsent⟩ := hrest' rec₂.sent ⟨rec₂, a, hrest, rfl⟩
      exact ⟨(Record.ofPayload bytes).append rec₃, a₃,
        play_step (next_readLoop.mpr (.inr ⟨bytes, rfl, hle, rfl, rfl⟩)) hplay₃, hsent⟩

/-! ### Programs that send apart -/

/-- The first has returned, and the second still reads. -/
theorem SendsApart.ret_read (a : α) : SendsApart moves (.ret a) (.read n kr) := by
  intro sent h h'
  obtain ⟨rfl, -⟩ := h.ret
  obtain ⟨r, rest, hmoves, -⟩ := h'.read
  cases hmoves

/-- The first has returned, and there are answers left. -/
theorem SendsApart.ret_cons (a : α) (P : Sock σ ρ ω α) : SendsApart (mv :: moves) (.ret a) P := by
  intro sent h
  obtain ⟨hmoves, -⟩ := h.ret
  cases hmoves

/-- Two reads that are given the same bytes. -/
theorem SendsApart.read {r : Option (List UInt8)} (h : SendsApart moves (kr r) (kr' r)) :
    SendsApart (.got r :: moves) (.read n kr) (.read n kr') := by
  intro sent hsends hsends'
  obtain ⟨r₁, rest₁, h₁, -, hrest₁⟩ := hsends.read
  obtain ⟨r₂, rest₂, h₂, -, hrest₂⟩ := hsends'.read
  cases h₁
  cases h₂
  exact h sent hrest₁ hrest₂

/-- Two operations. -/
theorem SendsApart.perform (h : SendsApart moves k k') :
    SendsApart (.compute :: moves) (.perform op k) (.perform op' k') := by
  intro sent hsends hsends'
  obtain ⟨rest₁, h₁, hrest₁⟩ := hsends.perform
  obtain ⟨rest₂, h₂, hrest₂⟩ := hsends'.perform
  cases h₁
  cases h₂
  exact h sent hrest₁ hrest₂

/-- As many bytes are taken of the one as of the other. -/
theorem length_taken (hlen : bytes.length = bytes'.length) (r : Option ℕ) :
    (taken bytes r).length = (taken bytes' r).length := by
  cases r with
  | none => rfl
  | some m => rw [taken, taken, List.length_take, List.length_take, hlen]

/-- What is taken here may differ or not. -/
theorem SendsApart.write {r : Option ℕ} (hlen : bytes.length = bytes'.length)
    (h : SendsApart moves (kw r) (kw' r)) :
    SendsApart (.wrote r :: moves) (.write bytes kw) (.write bytes' kw') := by
  intro sent hsends hsends'
  obtain ⟨r₁, rest₁, sent₁, h₁, -, hrest₁, hsent₁⟩ := hsends.write
  obtain ⟨r₂, rest₂, sent₂, h₂, -, hrest₂, hsent₂⟩ := hsends'.write
  cases h₁
  cases h₂
  obtain ⟨-, rfl⟩ := List.append_inj (hsent₁.symm.trans hsent₂) (length_taken hlen r)
  exact h sent₁ hrest₁ hrest₂

/-- A byte that is taken is in what was sent. -/
theorem getD_take_append {m : ℕ} (hn : n < m) (hle : m ≤ bytes.length) (s : List UInt8) :
    (bytes.take m ++ s).getD n 0 = bytes.getD n 0 := by
  have hlen : n < (bytes.take m).length := by
    rw [List.length_take]
    exact lt_min hn (hn.trans_le hle)
  rw [List.getD_eq_getElem?_getD, List.getElem?_append_left hlen, List.getElem?_take_of_lt hn,
    ← List.getD_eq_getElem?_getD]

/-- A byte that is taken differs. -/
theorem SendsApart.byte {m : ℕ} (hn : n < m)
    (h : n < bytes.length → bytes.getD n 0 ≠ bytes'.getD n 0) :
    SendsApart (.wrote (some m) :: moves) (.write bytes kw) (.write bytes' kw') := by
  intro sent hsends hsends'
  obtain ⟨r₁, rest₁, sent₁, h₁, hle₁, -, hsent₁⟩ := hsends.write
  obtain ⟨r₂, rest₂, sent₂, h₂, hle₂, -, hsent₂⟩ := hsends'.write
  cases h₁
  cases h₂
  have hle := hle₁ m rfl
  refine h (hn.trans_le hle) ?_
  calc bytes.getD n 0 = (bytes.take m ++ sent₁).getD n 0 := (getD_take_append hn hle sent₁).symm
    _ = (bytes'.take m ++ sent₂).getD n 0 := congrArg (·.getD n 0) (hsent₁.symm.trans hsent₂)
    _ = bytes'.getD n 0 := getD_take_append hn (hle₂ m rfl) sent₂

end Socket
