import NfpUdpEcho.Framework.Duplex
import NfpUdpEcho.Framework.System

/-!
# A server for the calls of one client

A client issues calls one after the other over a connection to a server that handles one
request at a time. Each call is a program of the client, the handling of a request is a program
of the server, and the two take steps in any order, through a stream in each direction. A
server that is done with a request takes up the next one when there is something to read, or
closes the connection.

A connection is `Framed` when the streams are empty whenever the client is between two calls.
`Service.framed_of_settles` reduces this to single exchanges: it holds in every state of a run
in which every call settles (`Duplex.Settles`) with the server in the state it then is in.
-/

namespace Duplex

open LTS

/-- The calls `C` of a client, with results `A`, and a server with states `S`, whose handling
of a request returns a `B` and may compute with loops over `σ`. -/
structure Service (C A S B σ ρ : Type) where
  call : C → Proc Empty Empty A
  /-- Whether the call has closed the connection. -/
  closed : A → Bool
  handle : S → Proc σ ρ B
  /-- How the server goes on after a request, `none` if it closes the connection. -/
  resume : B → Option S
  /-- A request is read before it is done. -/
  waits : ∀ s b, handle s ≠ .ret b

structure Connection (A B σ ρ : Type) where
  client : Proc Empty Empty A
  server : Proc σ ρ B
  /-- Bytes on their way to the server. -/
  up : List UInt8
  /-- Bytes on their way to the client. -/
  down : List UInt8
  /-- Closed by the server. -/
  closed : Bool

inductive ConnLabel (C : Type) where
  | call (c : C)
  | client (m : ℕ)
  | server (m : ℕ)
  /-- The server has finished with a request. -/
  | poll
  /-- The client reads to the end of a stream that the server has closed. -/
  | eof

variable {C A S B σ ρ : Type}

namespace Service

def next (svc : Service C A S B σ ρ) (s : Connection A B σ ρ) :
    ConnLabel C → Option (Connection A B σ ρ)
  | .call c =>
    match s.client with
    | .ret a =>
      if svc.closed a = false ∧ s.closed = false then some { s with client := svc.call c } else none
    | _ => none
  | .client m =>
    (s.client.next m s.down).map fun (n, out, P) =>
      { s with client := P, down := s.down.drop n, up := s.up ++ out }
  | .server m =>
    (s.server.next m s.up).map fun (n, out, Q) =>
      { s with server := Q, up := s.up.drop n, down := s.down ++ out }
  | .poll =>
    match s.server with
    | .ret b =>
      match svc.resume b with
      | some st => if s.up ≠ [] then some { s with server := svc.handle st } else none
      | none => some { s with closed := true }
    | _ => none
  | .eof =>
    match s.client with
    | .read n k =>
      if s.closed ∧ s.down.length < n then some { s with client := k s.down, down := [] } else none
    | _ => none

variable (svc : Service C A S B σ ρ)

/-- The streams are empty, and the server is ready for the request of a call. -/
def Ready (s : Connection A B σ ρ) (st : S) : Prop :=
  s.up = [] ∧ s.down = [] ∧ ∃ b, s.server = .ret b ∧ svc.resume b = some st

def system : System (Connection A B σ ρ) (ConnLabel C) :=
  .ofStep (fun s => s.closed = false ∧ (∃ a, s.client = .ret a) ∧ ∃ st, svc.Ready s st) svc.next

/-- Between two calls nothing is left in the streams. -/
def Framed (s : Connection A B σ ρ) : Prop :=
  s.closed = false → ∀ a, s.client = .ret a → svc.closed a = false → ∃ st, svc.Ready s st

/-- Every call is one that the server can take in its present state. -/
def Takes (Good : S → C → Prop) (s : Connection A B σ ρ) : ConnLabel C → Prop
  | .call c => ∀ st, svc.Ready s st → Good st c
  | _ => True

/-! ### The invariant -/

/-- What the two ends have said since the call `c` was issued, to a server in the state
`st`. -/
structure InCall (s : Connection A B σ ρ) (c : C) (st : S) (i o i' o' : List UInt8) : Prop where
  settles : Settles (svc.call c) (svc.handle st) fun b => svc.resume b = none
  client : Runs (svc.call c) i o s.client
  server : Runs (svc.handle st) i' o' s.server ∨
    i' = [] ∧ o' = [] ∧ ∃ b, s.server = .ret b ∧ svc.resume b = some st
  up : o = i' ++ s.up
  down : o' = i ++ s.down

/-- The connection is closed, or ready for a call, or in one that settles. -/
def ConnInv (s : Connection A B σ ρ) : Prop :=
  s.closed = true ∨ ((∃ a, s.client = .ret a) ∧ ∃ st, svc.Ready s st) ∨
    ∃ c st i o i' o', svc.InCall s c st i o i' o'

variable {svc} {s s' : Connection A B σ ρ} {c : C} {st : S} {i o i' o' : List UInt8} {a : A}

/-- The call has returned. -/
theorem InCall.ready (h : svc.InCall s c st i o i' o') (ha : s.client = .ret a) :
    ∃ st', svc.Ready s st' := by
  rcases h.server with hrun | ⟨rfl, rfl, b, hb, hst⟩
  · obtain ⟨hend, -⟩ := h.settles i o _ i' o' _ _ _ h.client hrun h.up h.down
    obtain ⟨hup, hdown, b, hb, hresume⟩ := hend a ha
    obtain ⟨st', hst'⟩ := Option.ne_none_iff_exists'.mp hresume
    exact ⟨st', hup, hdown, b, hb, hst'⟩
  · -- the server has not looked at the request yet
    obtain ⟨hend, -⟩ := h.settles i o _ [] [] _ _ _ h.client .refl h.up h.down
    obtain ⟨-, -, b', hb', -⟩ := hend a ha
    exact absurd hb' (svc.waits st b')

theorem ConnInv.framed (hI : svc.ConnInv s) : svc.Framed s := by
  intro hopen a ha _
  rcases hI with hclosed | ⟨-, hready⟩ | ⟨c, st, i, o, i', o', hin⟩
  · rw [hopen] at hclosed
    cases hclosed
  · exact hready
  · exact hin.ready ha

theorem InCall.client_step {m n : ℕ} {out : List UInt8} {P : Proc Empty Empty A}
    (h : svc.InCall s c st i o i' o') (hn : s.client.next m s.down = some (n, out, P)) :
    svc.InCall { s with client := P, down := s.down.drop n, up := s.up ++ out } c st
      (i ++ s.down.take n) (o ++ out) i' o' where
  settles := h.settles
  client := h.client.snoc hn
  server := h.server
  up := by rw [h.up, List.append_assoc]
  down := by rw [h.down, List.append_assoc, List.take_append_drop]

theorem InCall.server_step {m n : ℕ} {out : List UInt8} {Q : Proc σ ρ B}
    (h : svc.InCall s c st i o i' o') (hn : s.server.next m s.up = some (n, out, Q)) :
    svc.InCall { s with server := Q, up := s.up.drop n, down := s.down ++ out } c st
      i o (i' ++ s.up.take n) (o' ++ out) where
  settles := h.settles
  client := h.client
  server := by
    rcases h.server with hrun | ⟨-, -, b, hb, -⟩
    · exact .inl (hrun.snoc hn)
    · rw [hb] at hn
      cases hn
  up := by rw [h.up, List.append_assoc, List.take_append_drop]
  down := by rw [h.down, List.append_assoc]

/-- The server takes up the request of the call. -/
theorem InCall.poll {b : B} {st' : S} (h : svc.InCall s c st i o i' o') (hb : s.server = .ret b)
    (hst' : svc.resume b = some st') (hup : s.up ≠ []) :
    svc.InCall { s with server := svc.handle st' } c st i o i' o' := by
  rcases h.server with hrun | ⟨rfl, rfl, b', hb', hst⟩
  · -- a request that is done has been read to its end
    obtain ⟨-, hdone⟩ := h.settles i o _ i' o' _ _ _ h.client hrun h.up h.down
    refine absurd (hdone b hb fun hnone => ?_) hup
    exact Option.some_ne_none st' (hst'.symm.trans hnone)
  · obtain rfl : b' = b := by
      rw [hb] at hb'
      cases hb'
      rfl
    obtain rfl := Option.some.inj (hst.symm.trans hst')
    exact ⟨h.settles, h.client, .inl .refl, h.up, h.down⟩

variable {Good : S → C → Prop} {l : ConnLabel C}

theorem ConnInv.initial (h : svc.system.init s) : svc.ConnInv s := by
  obtain ⟨-, hclient, hready⟩ := h
  exact .inr (.inl ⟨hclient, hready⟩)

/-- The steps of a connection that the server has closed do not open it again. -/
theorem next_closed (hs : svc.next s l = some s') (hclosed : s.closed = true) :
    s'.closed = true := by
  cases l with
  | call c =>
    simp only [next] at hs
    split at hs
    · rw [if_neg (by simp [hclosed])] at hs
      cases hs
    · cases hs
  | client m =>
    obtain ⟨-, -, rfl⟩ := Option.map_eq_some_iff.mp hs
    exact hclosed
  | server m =>
    obtain ⟨-, -, rfl⟩ := Option.map_eq_some_iff.mp hs
    exact hclosed
  | poll =>
    simp only [next] at hs
    split at hs
    · split at hs
      · split at hs <;> cases hs
        exact hclosed
      · cases hs
        rfl
    · cases hs
  | eof =>
    simp only [next] at hs
    split at hs
    · split at hs <;> cases hs
      exact hclosed
    · cases hs

/-- A call that settles, issued on a connection that is ready. -/
theorem ConnInv.call (hready : svc.Ready s st)
    (hsettles : Settles (svc.call c) (svc.handle st) fun b => svc.resume b = none) :
    svc.ConnInv { s with client := svc.call c } := by
  obtain ⟨hup, hdown, hserver⟩ := hready
  exact .inr (.inr ⟨c, st, [], [], [], [], hsettles, .refl, .inr ⟨rfl, rfl, hserver⟩,
    by rw [hup]; rfl, by rw [hdown]; rfl⟩)

/-- Between two calls only a call is a step. -/
theorem ConnInv.inCall (hI : svc.ConnInv s) (hopen : s.closed = false)
    (hs : svc.next s l = some s') (hl : ∀ c, l ≠ .call c) :
    ∃ c st i o i' o', svc.InCall s c st i o i' o' := by
  rcases hI with hclosed | ⟨⟨a, ha⟩, st, hup, -, b, hb, hst⟩ | hin
  · rw [hopen] at hclosed
    cases hclosed
  · cases l with
    | call c => exact absurd rfl (hl c)
    | client m => simp [Service.next, ha, Proc.next] at hs
    | server m => simp [Service.next, hb, Proc.next] at hs
    | poll => simp [Service.next, hb, hst, hup] at hs
    | eof => simp [Service.next, ha] at hs
  · exact hin

theorem ConnInv.step
    (h_good : ∀ st c, Good st c →
      Settles (svc.call c) (svc.handle st) fun b => svc.resume b = none)
    (hI : svc.ConnInv s) (hs : svc.next s l = some s') (hg : svc.Takes Good s l) :
    svc.ConnInv s' := by
  cases hopen : s.closed with
  | true => exact .inl (next_closed hs hopen)
  | false =>
    cases l with
    | call c =>
      -- both streams are empty here, so the call starts with the server in step
      simp only [Service.next] at hs
      split at hs
      next a ha =>
        split at hs <;> cases hs
        next hcond =>
          obtain ⟨st, hready⟩ := hI.framed hopen a ha hcond.1
          -- the assumption on the calls is used here only
          exact .call hready (h_good st c (hg st hready))
      next => cases hs
    | client m =>
      obtain ⟨c, st, i, o, i', o', hin⟩ := hI.inCall hopen hs fun _ h => by cases h
      obtain ⟨⟨n, out, P⟩, hn, rfl⟩ := Option.map_eq_some_iff.mp hs
      exact .inr (.inr ⟨c, st, _, _, _, _, hin.client_step hn⟩)
    | server m =>
      obtain ⟨c, st, i, o, i', o', hin⟩ := hI.inCall hopen hs fun _ h => by cases h
      obtain ⟨⟨n, out, Q⟩, hn, rfl⟩ := Option.map_eq_some_iff.mp hs
      exact .inr (.inr ⟨c, st, _, _, _, _, hin.server_step hn⟩)
    | poll =>
      obtain ⟨c, st, i, o, i', o', hin⟩ := hI.inCall hopen hs fun _ h => by cases h
      simp only [Service.next] at hs
      split at hs
      next b hb =>
        split at hs
        next st' hst' =>
          split at hs <;> cases hs
          next hup => exact .inr (.inr ⟨c, st, _, _, _, _, hin.poll hb hst' hup⟩)
        next =>
          -- the server gives the client up
          cases hs
          exact .inl rfl
      next => cases hs
    | eof =>
      -- nothing comes to an end while the connection is open
      simp only [Service.next, hopen] at hs
      split at hs
      · split at hs
        next hcond => cases hcond.1
        next => cases hs
      · cases hs

/-- **Framing.** In every state of a run in which every call settles with the server as it
then is. -/
theorem framed_of_settles
    (h_good : ∀ st c, Good st c →
      Settles (svc.call c) (svc.handle st) fun b => svc.resume b = none)
    {h : List (Transition (Connection A B σ ρ) (ConnLabel C))} (he : Exec svc.system h s)
    (hg : ∀ t ∈ h, svc.Takes Good t.src t.label) : svc.Framed s := by
  have hI : svc.ConnInv s := he.invariant_of_guard (fun _ hs => .initial hs)
    (fun _ _ _ hI hs hg => hI.step h_good hs hg) hg
  exact hI.framed

end Service

end Duplex
