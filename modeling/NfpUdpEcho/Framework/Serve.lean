import NfpUdpEcho.Framework.Stream

/-!
# A connection that is served command by command

`serve` runs a command of a server on a connection, and another one when it has returned a result
that is not negative. The stream of the client comes in pieces. A `Format` says what a request
is and how it looks in a stream; `Format.Parses` takes a stream to its requests, of which there
is one sequence (`Format.Parses.unique`).

A command that `Seeks` reads one whole request before it carries it out, or finds that there is
none and gives up. `serve_follows` is the rule for such commands: in every run whose single calls
do all that they can, what the server carries out is determined by the stream.

The proof of the rule is an invariant with two phases. A command that is still reading has carried
out nothing, and `Sock.Seeks` holds of what it has read and what is left; one that has carried out
its request has read exactly the bytes of it, and only replies (`Phase`). A call takes a command
from one phase to the next (`Phase.call`), the next command starts in the first phase again
(`InStep.again`), and `inStep_of_exec` is the induction over the run. For a tail without requests
there is progress as well: the calls that are left lead to a refusal (`seeks_refuses`).
-/

namespace Socket

open LTS

variable {σ ρ ω δ : Type}

/-! ### Requests in a stream

No request is the beginning of another one, so the first request of a stream is the only one that it
can start with. -/

/-- The requests, and the bytes of each. -/
structure Format (ω : Type) where
  Valid : ω → Prop
  bytes : ω → List UInt8
  unambiguous : ∀ op op' stream, Valid op → Valid op' → bytes op <+: stream →
    bytes op' <+: stream → op = op'

namespace Format

variable (F : Format ω)

/-- No whole request comes first. -/
def NoRequest (stream : List UInt8) : Prop := ∀ op, F.Valid op → ¬F.bytes op <+: stream

/-- The requests of a stream, and what is behind the last one that is whole. -/
structure Parses (stream : List UInt8) (ops : List ω) (tail : List UInt8) : Prop where
  valid : ∀ op ∈ ops, F.Valid op
  stream_eq : stream = ops.flatMap F.bytes ++ tail
  no_request : F.NoRequest tail

variable {F} {stream tail tail' : List UInt8} {ops ops' : List ω}

/-- Requests that a stream starts with are the first of its requests. -/
theorem Parses.prefix_of (h : F.Parses stream ops tail) (hvalid : ∀ op ∈ ops', F.Valid op)
    (heq : stream = ops'.flatMap F.bytes ++ tail') : ops' <+: ops := by
  induction ops' generalizing stream ops with
  | nil => exact List.nil_prefix
  | cons op' ops' ih =>
    rw [List.flatMap_cons, List.append_assoc] at heq
    have hfirst : F.bytes op' <+: stream := ⟨_, heq.symm⟩
    have hop' := hvalid op' List.mem_cons_self
    cases ops with
    -- the tail would start with a request
    | nil =>
      rw [h.stream_eq, List.flatMap_nil, List.nil_append] at hfirst
      exact absurd hfirst (h.no_request op' hop')
    | cons op ops =>
      have hstream := h.stream_eq
      rw [List.flatMap_cons, List.append_assoc] at hstream
      -- both start the same stream, so that they are one request
      obtain rfl := F.unambiguous op op' stream (h.valid op List.mem_cons_self) hop'
        ⟨_, hstream.symm⟩ hfirst
      have hrest : F.Parses (ops.flatMap F.bytes ++ tail) ops tail :=
        ⟨fun op hop => h.valid op (List.mem_cons_of_mem _ hop), rfl, h.no_request⟩
      have hprefix := ih hrest (fun op hop => hvalid op (List.mem_cons_of_mem _ hop))
        (List.append_cancel_left (hstream.symm.trans heq))
      exact (List.prefix_cons_inj op).mpr hprefix

/-- **A stream has one sequence of requests.** -/
theorem Parses.unique (h : F.Parses stream ops tail) (h' : F.Parses stream ops' tail') :
    ops = ops' :=
  (h'.prefix_of h.valid h.stream_eq).eq_of_length_le
    (h.prefix_of h'.valid h'.stream_eq).length_le

end Format

/-! ### The connection -/

/-- A connection. `log` are the operations of the commands before the one that runs. -/
structure Conn (σ ρ ω δ : Type) where
  prog : Sock σ ρ ω (ℤ × δ)
  input : List UInt8
  log : List ω
  /-- What the command that runs has read. -/
  seen : List UInt8
  /-- What it has carried out. -/
  ops : List ω

/-- The steps of a connection. -/
inductive Event (δ : Type) where
  | call (mv : Move)
  /-- The next command; other connections may have changed the data. -/
  | again (data : δ)

/-- The connection to a client that has sent this stream. -/
def serve (start : δ → Sock σ ρ ω (ℤ × δ)) (stream : List UInt8) :
    System (Conn σ ρ ω δ) (Event δ) where
  init c := ∃ data, c = ⟨start data, stream, [], [], []⟩
  step c
    | .call mv, c' =>
        ∃ P rec rest, c.prog.Answers c.input mv rest ∧ c.prog.next mv = some (rec, P) ∧
        c' = ⟨P, rest, c.log, c.seen ++ moved [mv], c.ops ++ rec.ops⟩
    | .again data, c' => ∃ v d, c.prog = .ret (v, d) ∧ 0 ≤ v ∧
        c' = ⟨start data, c.input, c.log ++ c.ops, [], []⟩

/-- A call moves all that it is asked for, or all that is left. The loops may take any number of
calls. -/
def Sock.DoesAll {α : Type} : Sock σ ρ ω α → List UInt8 → Move → Prop
  | .read n _, input, .got r => r = some (input.take n)
  | .write bytes _, _, .wrote r => r = some bytes.length
  | .writeLoop _ _ _, _, .wrote r => r ≠ none
  | _, _, _ => True

/-- The same of a step of the connection; the start of a command moves nothing. -/
def DoesAll (c : Conn σ ρ ω δ) : Event δ → Prop
  | .call mv => c.prog.DoesAll c.input mv
  | .again _ => True

/-! ### Runs by evaluation -/

/-- Whether this is an answer of the socket, and one that does all that it can. -/
def Sock.takesAll {α : Type} : Sock σ ρ ω α → List UInt8 → Move → Bool
  | .perform _ _, _, .compute => true
  | .loop _ _ _, _, .compute => true
  | .read n _, input, .got (some bytes) => bytes == input.take n
  | .readLoop n _ _ _, input, .got (some bytes) =>
    bytes == input.take bytes.length && decide (0 < bytes.length ∧ bytes.length ≤ n)
  | .write bytes _, _, .wrote (some m) => m == bytes.length
  | .writeLoop _ _ _, _, .wrote (some m) => 0 < m
  | _, _, _ => false

/-- The steps of a connection whose calls do all that they can. -/
def serveNext (start : δ → Sock σ ρ ω (ℤ × δ)) (c : Conn σ ρ ω δ) : Event δ → Option (Conn σ ρ ω δ)
  | .call mv =>
    if c.prog.takesAll c.input mv then
      (c.prog.next mv).map fun q =>
        ⟨q.2, c.input.drop (moved [mv]).length, c.log, c.seen ++ moved [mv], c.ops ++ q.1.ops⟩
    else none
  | .again data =>
    match c.prog with
    | .ret (v, _) =>
      if 0 ≤ v then some ⟨start data, c.input, c.log ++ c.ops, [], []⟩ else none
    | _ => none

/-! ### What the server is to do with it -/

/-- The command has given up, and carried out nothing. -/
def Refused (c : Conn σ ρ ω δ) : Prop := c.ops = [] ∧ ∃ v d, c.prog = .ret (v, d) ∧ v < 0

/-- What is carried out follows the stream. -/
structure Format.Follows (F : Format ω) (stream : List UInt8)
    (sys : System (Conn σ ρ ω δ) (Event δ)) (c : Conn σ ρ ω δ) : Prop where
  valid : ∀ op ∈ c.log ++ c.ops, F.Valid op
  /-- Every byte of a request that was carried out was received. -/
  received : ∃ heard, stream = heard ++ c.input ∧ (c.log ++ c.ops).flatMap F.bytes <+: heard
  /-- The requests of the stream are carried out, in their order. -/
  determined : ∀ ops tail, F.Parses stream ops tail → c.log ++ c.ops <+: ops
  /-- The connection is closed when no request is left. -/
  closed : ∀ v d, c.prog = .ret (v, d) → v < 0 → ∃ tail, F.Parses stream (c.log ++ c.ops) tail
  /-- A command that was started where there is no whole request refuses. -/
  refuses : F.NoRequest (c.seen ++ c.input) → sys.Inevitable Refused c

/-! ### Commands that read one request -/

/-- What is left of a command after it has carried out its request: it reads nothing more, and is
content when its reply is out. -/
def Sock.Replies : Sock σ ρ ω (ℤ × δ) → Prop
  | .ret a => 0 ≤ a.1
  | .loop _ _ k => ∀ r, (k r).Replies
  | .write bytes k => (k (some bytes.length)).Replies
  | .writeLoop _ _ k => k.Replies
  | _ => False

/-- A command that has read `seen`: it reads on, until what it has read is a request, which it
carries out, or gives up where there is none. -/
def Sock.Seeks (F : Format ω) : Sock σ ρ ω (ℤ × δ) → List UInt8 → List UInt8 → Prop
  | .ret a, seen, input => a.1 < 0 ∧ F.NoRequest (seen ++ input)
  | .perform op k, seen, _ => F.Valid op ∧ seen = F.bytes op ∧ k.Replies
  | .read n k, seen, input =>
    (k (some (input.take n))).Seeks F (seen ++ input.take n) (input.drop n)
  | .readLoop n got _ k, seen, input => n ≤ input.length ∧
    (k (got ++ input.take n)).Seeks F (seen ++ input.take n) (input.drop n)
  | _, _, _ => False

/-- Every command that starts where whole requests have ended seeks the next one. -/
def SeeksAlong (F : Format ω) (stream : List UInt8) (start : δ → Sock σ ρ ω (ℤ × δ)) : Prop :=
  ∀ (data : δ) (log : List ω) (input : List UInt8), (∀ op ∈ log, F.Valid op) →
    stream = log.flatMap F.bytes ++ input → (start data).Seeks F [] input

section Seeks

variable {F : Format ω} {n : ℕ} {got seen input stream : List UInt8}
  {fail k : Sock σ ρ ω (ℤ × δ)} {failb kb : List UInt8 → Sock σ ρ ω (ℤ × δ)}
  {start : δ → Sock σ ρ ω (ℤ × δ)} {c c' : Conn σ ρ ω δ}

/-- The loop of `write` calls is a part of a reply. -/
theorem replies_writeAll {bytes : List UInt8} (h : k.Replies) :
    (Sock.writeAll bytes fail k).Replies := by
  unfold Sock.writeAll
  split
  · exact h
  · exact h

/-- The loop of `read` calls, whatever the pieces: it is in step if the whole payload is there and
what follows is in step behind it. -/
theorem seeks_readRest : (Sock.readRest n got failb kb).Seeks F seen input ↔
    n ≤ input.length ∧
      (kb (got ++ input.take n)).Seeks F (seen ++ input.take n) (input.drop n) := by
  unfold Sock.readRest
  split
  next hzero =>
    rw [hzero, List.take_zero, List.append_nil, List.append_nil, List.drop_zero]
    exact (and_iff_right (Nat.zero_le _)).symm
  next => rw [Sock.Seeks]

/-- Before its request is carried out, or after. -/
inductive Phase (F : Format ω) (c : Conn σ ρ ω δ) : Prop where
  | seeking : c.ops = [] → c.prog.Seeks F c.seen c.input → Phase F c
  | done (op : ω) : c.ops = [op] → F.Valid op → c.seen = F.bytes op → c.prog.Replies → Phase F c

/-- The commands before have read the requests that they have carried out, and no more. -/
structure InStep (F : Format ω) (stream : List UInt8) (c : Conn σ ρ ω δ) : Prop where
  valid : ∀ op ∈ c.log, F.Valid op
  stream_eq : stream = c.log.flatMap F.bytes ++ (c.seen ++ c.input)
  phase : Phase F c

/-- The operation that a step carries out. -/
def Sock.performed {α : Type} : Sock σ ρ ω α → List ω
  | .perform op _ => [op]
  | _ => []

/-- A step carries out an operation exactly where the program asks for one. -/
theorem next_ops {α : Type} {P P' : Sock σ ρ ω α} {mv : Move} {rec : Record ω}
    (h : P.next mv = some (rec, P')) : rec.ops = P.performed := by
  cases P with
  | ret a =>
    rw [next_ret] at h
    cases h
  | perform op k =>
    obtain ⟨-, rfl, -⟩ := next_perform.mp h
    rfl
  | loop body x k =>
    obtain ⟨-, rfl, -⟩ := next_loop.mp h
    rfl
  | write bytes k =>
    obtain ⟨r, -, -, rfl, -⟩ := next_write.mp h
    rfl
  | read n k =>
    obtain ⟨r, -, -, rfl, -⟩ := next_read.mp h
    rfl
  | writeLoop bytes fail k =>
    rcases next_writeLoop.mp h with ⟨-, rfl, -⟩ | ⟨m, -, -, rfl, -⟩
    · rfl
    · rfl
  | readLoop n got fail k =>
    rcases next_readLoop.mp h with ⟨-, rfl, -⟩ | ⟨bytes, -, -, rfl, -⟩
    · rfl
    · rfl

/-- A step of the command is one of `feed`. -/
theorem serve_call {mv : Move} (h : (serve start stream).step c (.call mv) c') :
    ∃ P rest, feed.step (c.prog, c.input) mv (P, rest) ∧
      c' = ⟨P, rest, c.log, c.seen ++ moved [mv], c.ops ++ c.prog.performed⟩ := by
  obtain ⟨P, rec, rest, hanswers, hnext, rfl⟩ := h
  rw [next_ops hnext]
  exact ⟨P, rest, ⟨hanswers, rec, hnext⟩, rfl⟩

/-- A command follows one that has returned a result that is not negative. -/
theorem serve_again {data : δ} (h : (serve start stream).step c (.again data) c') :
    ∃ v d, c.prog = .ret (v, d) ∧ 0 ≤ v ∧ c' = ⟨start data, c.input, c.log ++ c.ops, [], []⟩ := h

/-- One read has moved the bytes that it returned. -/
theorem moved_singleton (bytes : List UInt8) : moved [.got (some bytes)] = bytes :=
  List.append_nil bytes

/-- What a step has read is no longer in the stream. -/
theorem feed_input {α : Type} {P P' : Sock σ ρ ω α} {mv : Move} {rest : List UInt8}
    (h : feed.step (P, input) mv (P', rest)) : input = moved [mv] ++ rest := by
  cases P with
  | ret a => exact absurd h not_feed_ret
  | perform op k =>
    obtain ⟨rfl, heq⟩ := feed_perform.mp h
    cases heq
    rfl
  | loop body x k =>
    obtain ⟨rfl, heq⟩ := feed_loop.mp h
    cases heq
    rfl
  | write bytes k =>
    obtain ⟨r, rfl, -, -, heq⟩ := feed_write.mp h
    cases heq
    rfl
  | read n k =>
    obtain ⟨bytes, rest, rfl, hcut, heq⟩ := feed_read.mp h
    cases heq
    rw [moved_singleton]
    exact hcut.input_eq
  | writeLoop bytes fail k =>
    rcases feed_writeLoop.mp h with ⟨rfl, heq⟩ | ⟨m, rfl, -, -, heq⟩
    · cases heq
      rfl
    · cases heq
      rfl
  | readLoop n got fail k =>
    obtain ⟨bytes, rest, rfl, hcut, heq⟩ := feed_readLoop.mp h
    cases heq
    rw [moved_singleton]
    exact hcut.input_eq

/-- A read of the command. -/
theorem serve_read {k : Option (List UInt8) → Sock σ ρ ω (ℤ × δ)} {bytes rest : List UInt8}
    (log ops : List ω) (seen : List UInt8) (hcut : Cut n input bytes rest) :
    (serve start stream).step ⟨.read n k, input, log, seen, ops⟩ (.call (.got (some bytes)))
      ⟨k (some bytes), rest, log, seen ++ bytes, ops⟩ := by
  refine ⟨k (some bytes), .ofHeard bytes, rest, hcut, if_pos hcut.length_le, ?_⟩
  rw [moved_singleton]
  show _ = Conn.mk _ _ _ _ (ops ++ [])
  rw [List.append_nil]

/-- An operation of the command. -/
theorem serve_perform (op : ω) (k : Sock σ ρ ω (ℤ × δ)) (log ops : List ω)
    (input seen : List UInt8) :
    (serve start stream).step ⟨.perform op k, input, log, seen, ops⟩ (.call .compute)
      ⟨k, input, log, seen, ops ++ [op]⟩ := by
  refine ⟨k, .ofOp op, input, rfl, rfl, ?_⟩
  show _ = Conn.mk _ _ _ (seen ++ []) _
  rw [List.append_nil]
  rfl

/-- What a read returns that does all it can. -/
theorem Cut.eq_take {bytes rest : List UInt8} (hcut : Cut n input bytes rest)
    (hall : bytes = input.take n) : rest = input.drop n := by
  refine List.append_cancel_left (hcut.input_eq.symm.trans ?_)
  rw [hall]
  exact (List.take_append_drop n input).symm

/-- A call that does all it can keeps a command in its phase, or takes it from the first to the
second. -/
theorem Phase.call {mv : Move} (h : Phase F c) (hs : (serve start stream).step c (.call mv) c')
    (hall : DoesAll c (.call mv)) : Phase F c' := by
  obtain ⟨P, rest, hstep, rfl⟩ := serve_call hs
  obtain ⟨prog, input, log, seen, ops⟩ := c
  rcases h with ⟨rfl, hseeks⟩ | ⟨op, rfl, hvalid, rfl, hreplies⟩
  · -- it reads on, or carries the request out
    cases prog with
    | ret a => exact absurd hstep not_feed_ret
    | perform op k =>
      obtain ⟨rfl, heq⟩ := feed_perform.mp hstep
      cases heq
      obtain ⟨hvalid, hseen, hreplies⟩ := hseeks
      refine .done op rfl hvalid ?_ hreplies
      show seen ++ [] = _
      rw [List.append_nil]
      exact hseen
    | read n k =>
      obtain ⟨bytes, rest, rfl, hcut, heq⟩ := feed_read.mp hstep
      cases heq
      have hbytes : bytes = input.take n := Option.some.inj hall
      refine .seeking rfl ?_
      dsimp only
      rw [moved_singleton, hcut.eq_take hbytes, hbytes]
      exact hseeks
    | readLoop n got fail k =>
      -- any number of bytes; what was sought behind all of them is sought behind the others
      obtain ⟨bytes, rest, rfl, hcut, heq⟩ := feed_readLoop.mp hstep
      cases heq
      obtain ⟨hle, hk⟩ := hseeks
      rw [hcut.take_eq, hcut.drop_eq, ← List.append_assoc, ← List.append_assoc] at hk
      refine .seeking rfl (seeks_readRest.mpr ⟨hcut.le_rest hle, ?_⟩)
      dsimp only
      rwa [moved_singleton]
    | loop body x k => exact hseeks.elim
    | write bytes k => exact hseeks.elim
    | writeLoop bytes fail k => exact hseeks.elim
  · -- it computes and writes its reply, and reads nothing
    cases prog with
    | ret a => exact absurd hstep not_feed_ret
    | loop body x k =>
      obtain ⟨rfl, heq⟩ := feed_loop.mp hstep
      cases heq
      refine .done op rfl hvalid (List.append_nil _) ?_
      show (Sock.iterate body x k).Replies
      unfold Sock.iterate
      split
      · exact hreplies
      · exact hreplies _
    | write bytes k =>
      obtain ⟨r, rfl, -, -, heq⟩ := feed_write.mp hstep
      cases heq
      have hr : r = some bytes.length := hall
      subst hr
      exact .done op rfl hvalid (List.append_nil _) hreplies
    | writeLoop bytes fail k =>
      rcases feed_writeLoop.mp hstep with ⟨rfl, -⟩ | ⟨m, rfl, -, -, heq⟩
      · exact absurd rfl hall
      · cases heq
        exact .done op rfl hvalid (List.append_nil _) (replies_writeAll hreplies)
    | perform op k => exact hreplies.elim
    | read n k => exact hreplies.elim
    | readLoop n got fail k => exact hreplies.elim

/-- What has been read and what is left make up the stream, before the call and after it. -/
theorem InStep.call {mv : Move} (h : InStep F stream c)
    (hs : (serve start stream).step c (.call mv) c') (hall : DoesAll c (.call mv)) :
    InStep F stream c' := by
  have hphase := h.phase.call hs hall
  have hstream := h.stream_eq
  obtain ⟨P, rest, hstep, rfl⟩ := serve_call hs
  have hinput : c.input = moved [mv] ++ rest := feed_input hstep
  refine ⟨h.valid, ?_, hphase⟩
  rw [hstream, hinput, ← List.append_assoc c.seen]

/-- The next command starts where the request of the last one has ended. -/
theorem InStep.again {data : δ}
    (h_start : SeeksAlong F stream start) (h : InStep F stream c)
    (hs : (serve start stream).step c (.again data) c') :
    InStep F stream c' := by
  obtain ⟨v, d, hret, hv, rfl⟩ := serve_again hs
  rcases h.phase with ⟨-, hseeks⟩ | ⟨op, hops, hvalid, hseen, -⟩
  · -- a command that has found no request returns a negative result
    rw [hret] at hseeks
    exact absurd hv (Int.not_le.mpr hseeks.1)
  · have hlog : ∀ op' ∈ c.log ++ c.ops, F.Valid op' := by
      rw [hops]
      exact List.forall_mem_append.mpr ⟨h.valid, List.forall_mem_singleton.mpr hvalid⟩
    have hstream : stream = (c.log ++ c.ops).flatMap F.bytes ++ c.input := by
      rw [hops, List.flatMap_append, List.flatMap_singleton, ← hseen, List.append_assoc]
      exact h.stream_eq
    exact ⟨hlog, hstream, .seeking rfl (h_start data _ _ hlog hstream)⟩

/-- A connection starts with nothing read, in the first phase. -/
theorem InStep.init (h_start : SeeksAlong F stream start) (hc : (serve start stream).init c) :
    InStep F stream c := by
  obtain ⟨data, rfl⟩ := hc
  exact ⟨nofun, rfl, .seeking rfl (h_start data [] stream nofun rfl)⟩

/-- **In step along a run** whose calls do all that they can. -/
theorem inStep_of_exec (h_start : SeeksAlong F stream start)
    {h : List (Transition (Conn σ ρ ω δ) (Event δ))} (he : Exec (serve start stream) h c)
    (hall : ∀ t ∈ h, DoesAll t.src t.label) : InStep F stream c := by
  refine he.invariant_of_guard (fun c hc => .init h_start hc) (fun c e c' hI hs hg => ?_) hall
  cases e with
  | call mv => exact hI.call hs hg
  | again data => exact hI.again h_start hs

/-! ### Where there is no request

The command that finds none comes to its end, by the length of what is left to read. -/

/-- A step of the runs whose calls do all that they can. -/
theorem restrict_call {mv : Move} {P : Sock σ ρ ω (ℤ × δ)} {rest : List UInt8}
    (hstep : feed.step (c.prog, c.input) mv (P, rest)) (hall : c.prog.DoesAll c.input mv) :
    ((serve start stream).restrict DoesAll).step c (.call mv)
      ⟨P, rest, c.log, c.seen ++ moved [mv], c.ops ++ c.prog.performed⟩ := by
  obtain ⟨hanswers, rec, hnext⟩ := hstep
  refine ⟨⟨P, rec, rest, hanswers, hnext, ?_⟩, hall⟩
  rw [next_ops hnext]

/-- A command that is still to read has no other step than its calls. -/
theorem restrict_cases {e : Event δ}
    (hs : ((serve start stream).restrict DoesAll).step c e c') (hret : ∀ a, c.prog ≠ .ret a) :
    ∃ mv P rest, feed.step (c.prog, c.input) mv (P, rest) ∧ c.prog.DoesAll c.input mv ∧
      c' = ⟨P, rest, c.log, c.seen ++ moved [mv], c.ops ++ c.prog.performed⟩ := by
  cases e with
  | call mv =>
    obtain ⟨P, rest, hstep, rfl⟩ := serve_call hs.1
    exact ⟨mv, P, rest, hstep, hs.2, rfl⟩
  | again data =>
    obtain ⟨v, d, hprog, -, -⟩ := serve_again hs.1
    exact absurd hprog (hret (v, d))

/-- The loop over a payload that is in the stream. -/
theorem readRest_refuses {log : List ω} (hle : n ≤ input.length)
    (hk : ((serve start stream).restrict DoesAll).Inevitable Refused
      ⟨kb (got ++ input.take n), input.drop n, log, seen ++ input.take n, []⟩) :
    ((serve start stream).restrict DoesAll).Inevitable Refused
      ⟨.readRest n got failb kb, input, log, seen, []⟩ := by
  -- on what is left of the stream
  induction hlen : input.length using Nat.strongRecOn generalizing n got input seen with
  | ind len ih =>
    unfold Sock.readRest
    split
    next hzero =>
      rwa [hzero, List.take_zero, List.append_nil, List.append_nil, List.drop_zero] at hk
    next hne =>
      have hfirst : feed.step (Sock.readLoop n got failb kb, input) _ _ :=
        feed_readLoop.mpr ⟨_, _, rfl, cut_take n input, rfl⟩
      refine .later ⟨_, _, restrict_call (c := ⟨_, input, log, seen, []⟩) hfirst trivial⟩
        fun e c' hs => ?_
      obtain ⟨mv, P, rest, hstep, -, rfl⟩ := restrict_cases hs nofun
      obtain ⟨bytes, rest, rfl, hcut, heq⟩ := feed_readLoop.mp hstep
      cases heq
      -- something has come, so that less is left
      have hpos := hcut.pos hle hne
      have hlen' : input.length = bytes.length + rest.length := hcut.length_eq
      rw [hcut.take_eq, hcut.drop_eq, ← List.append_assoc, ← List.append_assoc] at hk
      dsimp only
      rw [moved_singleton]
      exact ih rest.length (by omega) (hcut.le_rest hle) hk rfl

/-- A command in front of no request ends in a refusal, by induction on the program. -/
theorem seeks_refuses {P : Sock σ ρ ω (ℤ × δ)} (hseeks : P.Seeks F seen input)
    (hno : F.NoRequest (seen ++ input)) (log : List ω) :
    ((serve start stream).restrict DoesAll).Inevitable Refused ⟨P, input, log, seen, []⟩ := by
  -- What is read moves from `input` to `seen`, and their sum starts with no request.
  induction P generalizing seen input with
  | ret a => exact .here ⟨rfl, a.1, a.2, rfl, hseeks.1⟩
  | perform op k ih =>
    -- what has been read would be a request
    obtain ⟨hvalid, rfl, -⟩ := hseeks
    exact absurd (List.prefix_append _ input) (hno op hvalid)
  | read n k ih =>
    have hfirst : feed.step (Sock.read n k, input) _ _ :=
      feed_read.mpr ⟨_, _, rfl, cut_take n input, rfl⟩
    refine .later ⟨_, _, restrict_call (c := ⟨_, input, log, seen, []⟩) hfirst rfl⟩
      fun e c' hs => ?_
    obtain ⟨mv, P, rest, hstep, hall, rfl⟩ := restrict_cases hs nofun
    obtain ⟨bytes, rest, rfl, hcut, heq⟩ := feed_read.mp hstep
    cases heq
    have hbytes : bytes = input.take n := Option.some.inj hall
    obtain rfl := hcut.eq_take hbytes
    subst hbytes
    dsimp only
    rw [moved_singleton]
    refine ih _ hseeks ?_
    rwa [List.append_assoc, List.take_append_drop]
  | readLoop n got fail k ihfail ih =>
    have hno' : F.NoRequest (seen ++ input.take n ++ input.drop n) := by
      rwa [List.append_assoc, List.take_append_drop]
    have hk := ih _ hseeks.2 hno'
    by_cases hzero : n = 0
    · subst hzero
      have hfirst : feed.step (Sock.readLoop 0 got fail k, input) _ _ :=
        feed_readLoop.mpr ⟨_, _, rfl, cut_take 0 input, rfl⟩
      refine .later ⟨_, _, restrict_call (c := ⟨_, input, log, seen, []⟩) hfirst trivial⟩
        fun e c' hs => ?_
      obtain ⟨mv, P, rest, hstep, -, rfl⟩ := restrict_cases hs nofun
      obtain ⟨bytes, rest, rfl, ⟨rfl, hbytes, -⟩, heq⟩ := feed_readLoop.mp hstep
      cases heq
      -- a call that asks for nothing returns nothing
      obtain rfl := List.length_eq_zero_iff.mp (Nat.le_zero.mp hbytes)
      exact hk
    · have hloop : Sock.readLoop n got fail k = .readRest n got fail k := (if_neg hzero).symm
      rw [hloop]
      exact readRest_refuses hseeks.1 hk
  | loop body x k ih => exact hseeks.elim
  | write bytes k ih => exact hseeks.elim
  | writeLoop bytes fail k ihfail ih => exact hseeks.elim

/-! ### Evaluated runs are runs -/

/-- The Boolean test is sound. -/
theorem Sock.takesAll_answers {α : Type} {P : Sock σ ρ ω α} {mv : Move}
    (h : P.takesAll input mv = true) :
    P.Answers input mv (input.drop (moved [mv]).length) ∧ P.DoesAll input mv := by
  unfold Sock.takesAll at h
  split at h
  case h_1 => exact ⟨rfl, trivial⟩
  case h_2 => exact ⟨rfl, trivial⟩
  case h_3 n k bytes =>
    -- one read: all that it asks for, or all that is left
    obtain rfl : bytes = input.take n := beq_iff_eq.mp h
    rw [moved_singleton, List.length_take]
    refine ⟨?_, rfl⟩
    have hcut := cut_take n input
    rcases Nat.le_total n input.length with hle | hle
    · rwa [Nat.min_eq_left hle]
    · rwa [Nat.min_eq_right hle, List.drop_length, ← List.drop_of_length_le hle]
  case h_4 n got fail k bytes =>
    rw [Bool.and_eq_true, beq_iff_eq, decide_eq_true_eq] at h
    obtain ⟨heq, hpos, hle⟩ := h
    rw [moved_singleton]
    exact ⟨cut_of_eq_take heq hle fun hnil => absurd hnil (List.ne_nil_of_length_pos hpos), trivial⟩
  case h_5 bytes k m =>
    obtain rfl : m = bytes.length := beq_iff_eq.mp h
    exact ⟨⟨rfl, fun hzero => List.length_eq_zero_iff.mp (Option.some.inj hzero)⟩, rfl⟩
  case h_6 bytes fail k m =>
    have hpos : 0 < m := of_decide_eq_true h
    refine ⟨⟨rfl, fun hzero => ?_⟩, Option.some_ne_none m⟩
    exact absurd (Option.some.inj hzero) hpos.ne'
  case h_7 => cases h

/-- An evaluated step is one of the connection. -/
theorem serve_of_next {e : Event δ} (h : serveNext start c e = some c') :
    (serve start stream).step c e c' ∧ DoesAll c e := by
  cases e with
  | call mv =>
    obtain ⟨htakes, h⟩ := Option.ite_none_right_eq_some.mp h
    obtain ⟨⟨rec, P⟩, hnext, rfl⟩ := Option.map_eq_some_iff.mp h
    obtain ⟨hanswers, hall⟩ := Sock.takesAll_answers htakes
    exact ⟨⟨P, rec, _, hanswers, hnext, rfl⟩, hall⟩
  | again data =>
    simp only [serveNext] at h
    split at h
    next v d hret =>
      obtain ⟨hv, h⟩ := Option.ite_none_right_eq_some.mp h
      exact ⟨⟨v, d, hret, hv, (Option.some.inj h).symm⟩, trivial⟩
    next => cases h

/-- A run that is evaluated. -/
theorem exec_of_run {α : Type} {data : δ} {es : List (Event δ)} {f : Conn σ ρ ω δ → α} {a : α}
    (h : (runLabels (serveNext start) ⟨start data, stream, [], [], []⟩ es).map f = some a) :
    ∃ h c, Exec (serve start stream) h c ∧ (∀ t ∈ h, DoesAll t.src t.label) ∧ f c = a := by
  obtain ⟨h, c, he, -, hf⟩ :=
    Exec.exists_of_run (serve start stream).init (serveNext start) ⟨data, rfl⟩ h
  obtain ⟨he, hall⟩ := he.of_guarded_step (serve start stream) (fun _ hc => hc)
    fun c e c' hs => serve_of_next hs
  exact ⟨h, c, he, hall, hf⟩

/-! ### The rule -/

/-- The request that has just been carried out is one more. -/
theorem InStep.valid_ops (h : InStep F stream c) : ∀ op ∈ c.log ++ c.ops, F.Valid op := by
  refine List.forall_mem_append.mpr ⟨h.valid, ?_⟩
  rcases h.phase with ⟨hops, -⟩ | ⟨op, hops, hvalid, -, -⟩
  · rw [hops]
    exact nofun
  · rw [hops]
    exact List.forall_mem_singleton.mpr hvalid

/-- What has been read behind the requests that were carried out. -/
theorem InStep.exists_rest (h : InStep F stream c) :
    ∃ rest, c.log.flatMap F.bytes ++ c.seen = (c.log ++ c.ops).flatMap F.bytes ++ rest := by
  rcases h.phase with ⟨hops, -⟩ | ⟨op, hops, -, hseen, -⟩
  · rw [hops, List.append_nil]
    exact ⟨c.seen, rfl⟩
  · rw [hops, List.flatMap_append, List.flatMap_singleton, hseen]
    exact ⟨[], (List.append_nil _).symm⟩

theorem InStep.follows (h : InStep F stream c) :
    F.Follows stream ((serve start stream).restrict DoesAll) c := by
  obtain ⟨rest, hrest⟩ := h.exists_rest
  have hstream : stream = c.log.flatMap F.bytes ++ c.seen ++ c.input := by
    rw [List.append_assoc]
    exact h.stream_eq
  refine ⟨h.valid_ops, ⟨_, hstream, rest, hrest.symm⟩, ?_, ?_, ?_⟩
  · -- what was carried out starts the stream
    intro ops tail hparses
    rw [hrest, List.append_assoc] at hstream
    exact hparses.prefix_of h.valid_ops hstream
  · intro v d hret hneg
    -- only a command that still seeks returns a negative result
    rcases h.phase with ⟨hops, hseeks⟩ | ⟨op, -, -, -, hreplies⟩
    · rw [hret] at hseeks
      rw [hops, List.append_nil]
      exact ⟨c.seen ++ c.input, h.valid, h.stream_eq, hseeks.2⟩
    · rw [hret] at hreplies
      exact absurd hreplies (Int.not_le.mpr hneg)
  · intro hno
    rcases h.phase with ⟨hops, hseeks⟩ | ⟨op, -, hvalid, hseen, -⟩
    · obtain ⟨prog, input, log, seen, ops⟩ := c
      subst hops
      exact seeks_refuses hseeks hno log
    · -- it has carried out a request that was there
      exact absurd ⟨c.input, by rw [hseen]⟩ (hno op hvalid)

/-- **A server whose commands seek their requests follows the stream**, in every run whose calls
do all that they can. -/
theorem serve_follows (h_start : SeeksAlong F stream start)
    {h : List (Transition (Conn σ ρ ω δ) (Event δ))} (he : Exec (serve start stream) h c)
    (hall : ∀ t ∈ h, DoesAll t.src t.label) :
    F.Follows stream ((serve start stream).restrict DoesAll) c :=
  (inStep_of_exec h_start he hall).follows

end Seeks

end Socket
