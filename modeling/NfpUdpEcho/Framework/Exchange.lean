import NfpUdpEcho.Framework.Duplex
import NfpUdpEcho.Framework.System

/-!
# Exchanges that run to their end

`Duplex.Settles` says where the two ends of a connection stand if they come to an end.
`Speaks Due P i o a` says that one end does: fed the bytes `i`, in whatever chunks, it writes
`o` and returns `a`. Two ends that speak to each other complete the exchange
(`completes_of_speaks`) whatever the order of their steps, as long as one of them writes all it
has to write before it reads. A program that reads nothing needs no other end
(`finishes_of_speaks`). Both are proved with a bound on the steps that are left (`Talks`).

`Talks` is a spec by constructors, which is what makes it easy to give for a program: each of the
rules of `Speaks` is one of them. `Talks.next` says that any step a program makes follows the spec,
whatever the size of the chunk, and `Talks.enabled` that it can make one unless it waits for bytes.
`Conversing` puts two ends together: what one is fed is in the stream or is still to be written by
the other. Then one of the two can always make a step (`Conversing.enabled`), and the bound gets
smaller (`Conversing.step`), so the end is inevitable by induction on the bound.
-/

namespace Duplex

open LTS Proc

variable {σ ρ α σ' ρ' β : Type}

/-- Fed `i`, the program writes `o` and returns `a`, within `n` steps. When it comes to a read,
`Due` holds of what it has still to write. -/
inductive Talks (Due : List UInt8 → Prop) :
    Proc σ ρ α → List UInt8 → List UInt8 → α → ℕ → Prop where
  | ret (a : α) : Talks Due (.ret a) [] [] a 0
  | write {bytes i o : List UInt8} {k : Proc σ ρ α} {a : α} {n : ℕ} :
      Talks Due k i o a n → Talks Due (.write bytes k) i (bytes ++ o) a (n + 1)
  | writeLoop {bytes i o : List UInt8} {k : Proc σ ρ α} {a : α} {n : ℕ} : bytes ≠ [] →
      Talks Due k i o a n → Talks Due (.writeLoop bytes k) i (bytes ++ o) a (n + bytes.length)
  | read {bytes i o : List UInt8} {k : List UInt8 → Proc σ ρ α} {a : α} {n : ℕ} : Due o →
      Talks Due (k bytes) i o a n → Talks Due (.read bytes.length k) (bytes ++ i) o a (n + 1)
  | readLoop {bytes got i o : List UInt8} {k : List UInt8 → Proc σ ρ α} {a : α} {n : ℕ} :
      Due o → bytes ≠ [] → Talks Due (k (got ++ bytes)) i o a n →
      Talks Due (.readLoop bytes.length got k) (bytes ++ i) o a (n + bytes.length)
  | loop {body : σ → σ ⊕ ρ} {s : σ} {r : ρ} {i o : List UInt8} {k : ρ → Proc σ ρ α} {a : α}
      {n f : ℕ} : Loop.run body f s = some r →
      Talks Due (k r) i o a n → Talks Due (.loop body s k) i o a (n + f)

namespace Talks

variable {Due : List UInt8 → Prop} {P P' k : Proc σ ρ α} {i o bytes got input out : List UInt8}
  {a : α} {n m c : ℕ} {kb : List UInt8 → Proc σ ρ α} {kr : ρ → Proc σ ρ α}

theorem writeAll (h : Talks Due k i o a n) :
    Talks Due (Proc.writeAll bytes k) i (bytes ++ o) a (n + bytes.length) := by
  unfold Proc.writeAll
  split
  next hnil =>
    subst hnil
    exact h
  next hne => exact .writeLoop hne h

theorem readRest (hdue : Due o) (h : Talks Due (kb (got ++ bytes)) i o a n) :
    Talks Due (Proc.readRest bytes.length got kb) (bytes ++ i) o a (n + bytes.length) := by
  unfold Proc.readRest
  split
  next hzero =>
    obtain rfl := List.eq_nil_of_length_eq_zero hzero
    rwa [List.append_nil] at h
  next hne =>
    refine .readLoop hdue ?_ h
    rintro rfl
    exact hne rfl

/-- **A step of a program that talks.** What it reads is what it is fed, what it writes is what
it has to write, and it has fewer steps left. -/
theorem next (h : Talks Due P i o a n) (hn : P.next m input = some (c, out, P'))
    (hin : input <+: i) : ∃ i' o' n', i = input.take c ++ i' ∧ o = out ++ o' ∧ n' < n ∧
      Talks Due P' i' o' a n' := by
  cases h with
  | ret a => cases hn
  | write h =>
    simp only [Proc.next, Option.some.injEq, Prod.mk.injEq] at hn
    obtain ⟨rfl, rfl, rfl⟩ := hn
    exact ⟨i, _, _, rfl, rfl, Nat.lt_succ_self _, h⟩
  | @writeLoop bytes _ o _ _ n hne h =>
    simp only [Proc.next, Option.ite_none_right_eq_some, Option.some.injEq, Prod.mk.injEq] at hn
    obtain ⟨⟨hpos, hle⟩, rfl, rfl, rfl⟩ := hn
    refine ⟨i, bytes.drop m ++ o, n + (bytes.drop m).length, rfl, ?_, ?_, h.writeAll⟩
    · rw [← List.append_assoc, List.take_append_drop]
    · rw [List.length_drop]
      omega
  | @read bytes i _ k _ n hdue h =>
    simp only [Proc.next, Option.ite_none_right_eq_some, Option.some.injEq, Prod.mk.injEq] at hn
    obtain ⟨hle, rfl, rfl, rfl⟩ := hn
    -- the bytes at hand are the beginning of what it is fed
    have htake : input.take bytes.length = bytes := by
      have hpre := hin.take bytes.length
      rw [List.take_left] at hpre
      exact hpre.eq_of_length (List.length_take_of_le hle)
    rw [htake]
    exact ⟨i, o, n, rfl, rfl, Nat.lt_succ_self n, h⟩
  | @readLoop bytes got i _ k _ n hdue hne h =>
    simp only [Proc.next, Option.ite_none_right_eq_some, Option.some.injEq, Prod.mk.injEq] at hn
    obtain ⟨⟨hpos, hle, hlen⟩, rfl, rfl, rfl⟩ := hn
    -- so is the chunk
    have htake : input.take m = bytes.take m := by
      have hpre := hin.take m
      rw [List.take_append_of_le_length hle] at hpre
      refine hpre.eq_of_length ?_
      rw [List.length_take_of_le hlen, List.length_take_of_le hle]
    have hdrop : bytes.length - m = (bytes.drop m).length := List.length_drop.symm
    rw [htake, hdrop]
    refine ⟨bytes.drop m ++ i, o, n + (bytes.drop m).length, ?_, rfl, ?_, .readRest hdue ?_⟩
    · rw [← List.append_assoc, List.take_append_drop]
    · rw [List.length_drop]
      omega
    · rwa [List.append_assoc, List.take_append_drop]
  | @loop body s r _ _ k _ n f hf h =>
    -- one of the iterations that are left
    cases f with
    | zero => cases hf
    | succ f =>
      simp only [Proc.next] at hn
      split at hn
      next s' hbody =>
        obtain ⟨rfl, rfl, rfl⟩ := by simpa using hn
        rw [Loop.run_succ_inl hbody] at hf
        exact ⟨i, o, n + f, rfl, rfl, Nat.lt_succ_self _, .loop hf h⟩
      next r' hbody =>
        obtain ⟨rfl, rfl, rfl⟩ := by simpa using hn
        rw [Loop.run_succ_inr hbody] at hf
        obtain rfl := Option.some.inj hf
        exact ⟨i, o, n, rfl, rfl, by omega, h⟩

/-- A program that talks has ended, or takes a step, or waits for more of what it is fed. -/
theorem enabled (h : Talks Due P i o a n) (hin : input <+: i) :
    (P = .ret a ∧ i = [] ∧ o = []) ∨ (∃ m r, P.next m input = some r) ∨
      (Due o ∧ input.length < i.length) := by
  cases h with
  | ret a => exact .inl ⟨rfl, rfl, rfl⟩
  | write h => exact .inr (.inl ⟨0, _, rfl⟩)
  | writeLoop hne h =>
    refine .inr (.inl ⟨1, _, if_pos ⟨Nat.one_pos, ?_⟩⟩)
    exact List.length_pos_iff.mpr hne
  | @read bytes i _ k _ n hdue h =>
    by_cases hle : bytes.length ≤ input.length
    · exact .inr (.inl ⟨0, _, if_pos hle⟩)
    · refine .inr (.inr ⟨hdue, ?_⟩)
      rw [List.length_append]
      omega
  | @readLoop bytes got i _ k _ n hdue hne h =>
    have hpos : 0 < bytes.length := List.length_pos_iff.mpr hne
    by_cases hnil : input = []
    · refine .inr (.inr ⟨hdue, ?_⟩)
      rw [hnil, List.length_nil, List.length_append]
      omega
    · exact .inr (.inl ⟨1, _, if_pos ⟨Nat.one_pos, hpos, List.length_pos_iff.mpr hnil⟩⟩)
  | @loop body s r _ _ k _ n f hf h =>
    refine .inr (.inl ⟨0, ?_⟩)
    simp only [Proc.next]
    split
    · exact ⟨_, rfl⟩
    · exact ⟨_, rfl⟩

end Talks

/-- Fed `i`, the program writes `o` and returns `a`. -/
def Speaks (Due : List UInt8 → Prop) (P : Proc σ ρ α) (i o : List UInt8) (a : α) : Prop :=
  ∃ n, Talks Due P i o a n

namespace Speaks

variable {Due : List UInt8 → Prop} {k : Proc σ ρ α} {i o bytes : List UInt8} {a : α} {n : ℕ}
  {kb : List UInt8 → Proc σ ρ α} {kr : ρ → Proc σ ρ α} {body : σ → σ ⊕ ρ} {s : σ} {r : ρ}

theorem ret (Due : List UInt8 → Prop) (a : α) : Speaks Due (.ret a : Proc σ ρ α) [] [] a :=
  ⟨0, .ret a⟩

theorem write (h : Speaks Due k i o a) : Speaks Due (.write bytes k) i (bytes ++ o) a := by
  obtain ⟨n, h⟩ := h
  exact ⟨n + 1, .write h⟩

theorem writeAll (h : Speaks Due k i o a) :
    Speaks Due (Proc.writeAll bytes k) i (bytes ++ o) a := by
  obtain ⟨n, h⟩ := h
  exact ⟨n + bytes.length, h.writeAll⟩

theorem read (hlen : bytes.length = n) (hdue : Due o) (h : Speaks Due (kb bytes) i o a) :
    Speaks Due (.read n kb) (bytes ++ i) o a := by
  subst hlen
  obtain ⟨n, h⟩ := h
  exact ⟨n + 1, .read hdue h⟩

theorem readAll (hlen : bytes.length = n) (hdue : Due o) (h : Speaks Due (kb bytes) i o a) :
    Speaks Due (Proc.readAll n kb) (bytes ++ i) o a := by
  subst hlen
  obtain ⟨n, h⟩ := h
  exact ⟨n + bytes.length, Talks.readRest hdue h⟩

theorem loop (hr : Loop.Returns body s r) (h : Speaks Due (kr r) i o a) :
    Speaks Due (.loop body s kr) i o a := by
  obtain ⟨f, hf⟩ := hr
  obtain ⟨n, h⟩ := h
  exact ⟨n + f, .loop hf h⟩

end Speaks

/-! ### A program with nothing to read -/

/-- A program and what it has written so far. -/
def alone : System (Proc σ ρ α × List UInt8) ℕ :=
  .ofStep (fun s => s.2 = []) fun s m => (s.1.next m []).map fun (_, out, P) => (P, s.2 ++ out)

/-- Whatever the size of the chunks, `P` comes to its end, having written `out`. -/
def Finishes (P : Proc σ ρ α) (out : List UInt8) (a : α) : Prop :=
  alone.Inevitable (· = (.ret a, out)) (P, [])

/-- A program that is fed nothing comes to its end by itself. -/
theorem finishes_of_speaks {Due : List UInt8 → Prop} {P : Proc σ ρ α} {out : List UInt8} {a : α}
    (h : Speaks Due P [] out a) : Finishes P out a := by
  obtain ⟨n, h⟩ := h
  -- what is written and what is due make up `out`
  have hgen : ∀ (n : ℕ) (s : Proc σ ρ α × List UInt8) (o : List UInt8), s.2 ++ o = out →
      Talks Due s.1 [] o a n → alone.Inevitable (· = (.ret a, out)) s := by
    intro n
    induction n using Nat.strongRecOn with
    | ind n ih =>
      intro s o ho h
      rcases h.enabled List.nil_prefix with ⟨hret, -, rfl⟩ | ⟨m, r, hr⟩ | ⟨-, hlt⟩
      · refine .here (Prod.ext hret ?_)
        rw [← ho, List.append_nil]
      · refine .later ⟨m, _, Option.map_eq_some_iff.mpr ⟨r, hr, rfl⟩⟩ ?_
        intro m' s' hs'
        obtain ⟨⟨c, out', P'⟩, hnext, rfl⟩ := Option.map_eq_some_iff.mp hs'
        obtain ⟨i', o', n', hi, rfl, hlt, h'⟩ := h.next hnext List.nil_prefix
        obtain rfl : i' = [] := (List.append_eq_nil_iff.mp hi.symm).2
        refine ih n' hlt _ o' ?_ h'
        rw [← ho, List.append_assoc]
      · exact absurd hlt (lt_irrefl _)
  exact hgen n (P, []) out rfl h

/-! ### Two programs -/

/-- The two ends of a connection, with the bytes on their way to the server and to the client. -/
structure Exchange (σ ρ α σ' ρ' β : Type) where
  client : Proc σ ρ α
  server : Proc σ' ρ' β
  up : List UInt8
  down : List UInt8

/-- Whose step it is. -/
inductive Side where
  | client
  | server

namespace Exchange

/-- A step of one side, with `m` the size of a chunk. -/
def next (s : Exchange σ ρ α σ' ρ' β) : Side × ℕ → Option (Exchange σ ρ α σ' ρ' β)
  | (.client, m) => (s.client.next m s.down).map fun (n, out, P) =>
      { s with client := P, down := s.down.drop n, up := s.up ++ out }
  | (.server, m) => (s.server.next m s.up).map fun (n, out, Q) =>
      { s with server := Q, up := s.up.drop n, down := s.down ++ out }

/-- An exchange begins with nothing in the streams. -/
def system : System (Exchange σ ρ α σ' ρ' β) (Side × ℕ) :=
  .ofStep (fun s => s.up = [] ∧ s.down = []) next

end Exchange

/-- Whatever the order of the steps and the size of the chunks, both programs come to their
ends, with these results and nothing left in the streams. -/
def Completes (P : Proc σ ρ α) (Q : Proc σ' ρ' β) (a : α) (b : β) : Prop :=
  Exchange.system.Inevitable (· = ⟨.ret a, .ret b, [], []⟩) ⟨P, Q, [], []⟩

section Exchange

variable {P : Proc σ ρ α} {Q : Proc σ' ρ' β} {a a' : α} {b b' : β} {req rep : List UInt8}
  {n m : ℕ} {s : Exchange σ ρ α σ' ρ' β}

/-- What either side is fed is in the stream or has still to be written by the other. -/
structure Conversing (s : Exchange σ ρ α σ' ρ' β) (a : α) (b : β) (n : ℕ) : Prop where
  talk : ∃ x y n₁ n₂, Talks (· = []) s.client (s.down ++ x) y a n₁ ∧
    Talks (fun _ => True) s.server (s.up ++ y) x b n₂ ∧ n = n₁ + n₂

/-- The two do not wait for each other: one that waits has nothing left to write. -/
theorem Conversing.enabled (h : Conversing s a b n) :
    s = ⟨.ret a, .ret b, [], []⟩ ∨ ∃ l s', Exchange.system.step s l s' := by
  obtain ⟨x, y, n₁, n₂, hclient, hserver, -⟩ := h.talk
  rcases hclient.enabled (List.prefix_append s.down x) with
    ⟨hret, hi, hy⟩ | ⟨m, r, hr⟩ | ⟨hy, hlt⟩
  · rcases hserver.enabled (List.prefix_append s.up y) with
      ⟨hret', hi', hx⟩ | ⟨m, r, hr⟩ | ⟨-, hlt⟩
    · left
      obtain ⟨P, Q, up, down⟩ := s
      obtain ⟨rfl, -⟩ := List.append_eq_nil_iff.mp hi
      obtain ⟨rfl, -⟩ := List.append_eq_nil_iff.mp hi'
      obtain rfl : P = .ret a := hret
      obtain rfl : Q = .ret b := hret'
      rfl
    · exact .inr ⟨(.server, m), _, Option.map_eq_some_iff.mpr ⟨r, hr, rfl⟩⟩
    · rw [hy, List.append_nil] at hlt
      exact absurd hlt (lt_irrefl _)
  · exact .inr ⟨(.client, m), _, Option.map_eq_some_iff.mpr ⟨r, hr, rfl⟩⟩
  · -- the client waits, so the whole request is in the stream
    rcases hserver.enabled (List.prefix_append s.up y) with
      ⟨-, -, hx⟩ | ⟨m, r, hr⟩ | ⟨-, hlt'⟩
    · rw [hx, List.append_nil] at hlt
      exact absurd hlt (lt_irrefl _)
    · exact .inr ⟨(.server, m), _, Option.map_eq_some_iff.mpr ⟨r, hr, rfl⟩⟩
    · rw [show y = [] from hy, List.append_nil] at hlt'
      exact absurd hlt' (lt_irrefl _)

/-- A step of either side. -/
theorem Conversing.step {l : Side × ℕ} {s' : Exchange σ ρ α σ' ρ' β} (h : Conversing s a b n)
    (hs : Exchange.system.step s l s') : ∃ n', n' < n ∧ Conversing s' a b n' := by
  obtain ⟨x, y, n₁, n₂, hclient, hserver, rfl⟩ := h.talk
  obtain ⟨side, m⟩ := l
  cases side with
  | client =>
    obtain ⟨⟨c, out, P'⟩, hn, rfl⟩ := Option.map_eq_some_iff.mp hs
    obtain ⟨i', y', n', hi, rfl, hlt, h'⟩ := hclient.next hn (List.prefix_append s.down x)
    -- what is taken out of the stream is no longer in it, what is put in the other is
    have hi' : i' = s.down.drop c ++ x := by
      refine List.append_cancel_left (hi.symm.trans ?_)
      rw [← List.append_assoc, List.take_append_drop]
    refine ⟨n' + n₂, by omega, x, y', n', n₂, hi' ▸ h', ?_, rfl⟩
    rwa [List.append_assoc]
  | server =>
    obtain ⟨⟨c, out, Q'⟩, hn, rfl⟩ := Option.map_eq_some_iff.mp hs
    obtain ⟨i', x', n', hi, rfl, hlt, h'⟩ := hserver.next hn (List.prefix_append s.up y)
    have hi' : i' = s.up.drop c ++ y := by
      refine List.append_cancel_left (hi.symm.trans ?_)
      rw [← List.append_assoc, List.take_append_drop]
    refine ⟨n₁ + n', by omega, x', y, n₁, n', ?_, hi' ▸ h', rfl⟩
    rwa [List.append_assoc]

/-- **Two ends that speak to each other complete the exchange.** The client writes its request
before it reads. -/
theorem completes_of_speaks (hP : Speaks (· = []) P rep req a)
    (hQ : Speaks (fun _ => True) Q req rep b) : Completes P Q a b := by
  obtain ⟨n, hP⟩ := hP
  obtain ⟨m, hQ⟩ := hQ
  have hgen : ∀ (n : ℕ) (s : Exchange σ ρ α σ' ρ' β), Conversing s a b n →
      Exchange.system.Inevitable (· = ⟨.ret a, .ret b, [], []⟩) s := by
    intro n
    induction n using Nat.strongRecOn with
    | ind n ih =>
      intro s h
      rcases h.enabled with hend | henabled
      · exact .here hend
      · refine .later henabled fun l s' hs => ?_
        obtain ⟨n', hlt, h'⟩ := h.step hs
        exact ih n' hlt s' h'
  exact hgen (n + m) _ ⟨rep, req, n, m, hP, hQ, rfl⟩

/-- Nothing happens after the end. -/
theorem Exchange.not_step_end (s : Exchange σ ρ α σ' ρ' β) (l : Side × ℕ)
    (s' : Exchange σ ρ α σ' ρ' β) (h : s = ⟨.ret a, .ret b, [], []⟩) : ¬system.step s l s' := by
  subst h
  obtain ⟨side, m⟩ := l
  intro hs
  cases side with
  | client => cases hs
  | server => cases hs

/-- An exchange has one result. -/
theorem Completes.unique (h : Completes P Q a b) (h' : Completes P Q a' b') :
    a = a' ∧ b = b' := by
  obtain ⟨s, hs, hs'⟩ := System.Inevitable.meet h h' Exchange.not_step_end Exchange.not_step_end
  have heq := hs.symm.trans hs'
  simp only [Exchange.mk.injEq, Proc.ret.injEq] at heq
  exact ⟨heq.1, heq.2.1⟩

/-- In an exchange that completes, each end reads what the other writes. -/
theorem Completes.runs (h : Completes P Q a b) :
    ∃ i o, Runs P i o (.ret a) ∧ Runs Q o i (.ret b) := by
  -- what each has read and written so far, with the rest in the streams
  let Inv (s : Exchange σ ρ α σ' ρ' β) : Prop := ∃ i o i' o', Runs P i o s.client ∧
    Runs Q i' o' s.server ∧ o = i' ++ s.up ∧ o' = i ++ s.down
  have hstep : ∀ s l s', Inv s → Exchange.system.step s l s' → Inv s' := by
    rintro s ⟨side, m⟩ s' ⟨i, o, i', o', hrun, hrun', hup, hdown⟩ hs
    cases side with
    | client =>
      obtain ⟨⟨c, out, P'⟩, hn, rfl⟩ := Option.map_eq_some_iff.mp hs
      refine ⟨_, _, i', o', hrun.snoc hn, hrun', ?_, ?_⟩
      · rw [hup, List.append_assoc]
      · rw [hdown, List.append_assoc, List.take_append_drop]
    | server =>
      obtain ⟨⟨c, out, Q'⟩, hn, rfl⟩ := Option.map_eq_some_iff.mp hs
      refine ⟨i, o, _, _, hrun, hrun'.snoc hn, ?_, ?_⟩
      · rw [hup, List.append_assoc, List.take_append_drop]
      · rw [hdown, List.append_assoc]
  obtain ⟨s', ⟨i, o, i', o', hrun, hrun', hup, hdown⟩, rfl⟩ :=
    System.Inevitable.exists_state h hstep ⟨[], [], [], [], .refl, .refl, rfl, rfl⟩
  obtain rfl := hup.trans (List.append_nil i')
  obtain rfl := hdown.trans (List.append_nil i)
  exact ⟨o', o, hrun, hrun'⟩

end Exchange

end Duplex
