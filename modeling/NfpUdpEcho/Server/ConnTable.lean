import Mathlib.Data.Int.Notation
import Mathlib.Data.List.Nodup
import NfpUdpEcho.Framework.Compact
import NfpUdpEcho.Framework.System

/-!
# The connection table of the device server

`nfp_cpp_dev_poll` (`user/nfpcore/nfp_cpp_dev.c`) waits on an array of descriptors, the listening
socket first. One pass of its loop may append a client, close some, and compact the array in
place. The system below takes one pass after the other, with any result of `poll`, of `accept`
and of the commands, and keeps the calls made to the kernel, from which `live` reads the clients
that were accepted and not yet closed.

`accept` is not checked: a failed one appends the entry `-1`. The table is what `Consistent`
says at the top of the loop in every pass exactly as long as this does not happen, or a client
goes in the same pass, since the compaction drops every entry `-1` (`consistent_iff`).

One pass has three parts, with a lemma for each. The array is polled and a client may be appended
(`ready_polled`). The loop over the clients closes those that are to go and marks their entries
(`Served`, by induction on the entries that are left); what it does to the calls is followed with a
list `pre` of the clients that have been passed already. The compaction then drops the marked
entries and resets the others (`consistent_cleanup`). `consistent_pass_iff` puts the three together:
the table is in order after the pass unless the entry `-1` was appended and none was dropped, for
then there was no compaction.
-/

namespace NfpUdpEcho

open LTS InPlace

/-- `MAX_CONNECTIONS`, and the two bits of `revents` that are looked at. -/
def maxConnections : ℕ := 64

def pollIn : BitVec 16 := 0x001
def pollHup : BitVec 16 := 0x010

/-- `struct pollfd`. -/
structure PollFd where
  fd : ℤ
  events : BitVec 16
  revents : BitVec 16

/-- The calls of the loop that open or close a descriptor, with the result of `accept`. -/
inductive SysCall where
  | accept (fd : ℤ)
  | close (fd : ℤ)

/-- What `nfp_cpp_dev_poll` reads and writes of `struct nfp_cpp_dev_data`, and the calls it has
made, oldest first. -/
structure PollData where
  listen_fd : ℤ
  connections : ℕ → PollFd
  count : ℕ
  calls : List SysCall

/-- The results of the calls of one pass: of `poll`, which also writes `revents`, of `accept`, and
of the command on each entry. -/
structure Pass where
  ret : ℤ
  revents : ℕ → BitVec 16
  accepted : ℤ
  cmd : ℕ → ℤ

/-! ### One pass of the loop -/

/-- `poll` writes the events it found. -/
def PollData.setRevents (revents : ℕ → BitVec 16) (data : PollData) : PollData :=
  { data with
    connections := fun i =>
      if i < data.count then { data.connections i with revents := revents i }
      else data.connections i }

/-- The listening socket is ready: append the result of `accept`. -/
def PollData.acceptClient (fd : ℤ) (data : PollData) : PollData :=
  if (data.connections 0).revents &&& pollIn ≠ 0 then
    if data.count < maxConnections then
      { data with
        connections := Function.update data.connections data.count
          { fd := fd, events := pollIn, revents := 0 }
        count := data.count + 1
        calls := data.calls ++ [.accept fd] }
    else data
  else data

/-- `close(connections[i].fd)`, and the entry becomes `-1`. -/
def PollData.closeEntry (i : ℕ) (data : PollData) : PollData :=
  { data with
    connections := Function.update data.connections i { data.connections i with fd := -1 }
    calls := data.calls ++ [.close (data.connections i).fd] }

/-- The body of the loop over the clients, with the number of calls of `close` so far. -/
def PollData.serveEntry (cmd : ℕ → ℤ) (i : ℕ) (data : PollData) (close_count : ℕ) :
    PollData × ℕ :=
  if (data.connections i).revents = 0 then (data, close_count)
  else
    let (data, close_count) :=
      if (data.connections i).revents &&& pollIn ≠ 0 ∧ cmd i < 0 then
        (data.closeEntry i, close_count + 1)
      else (data, close_count)
    if (data.connections i).revents &&& pollHup ≠ 0 then
      (data.closeEntry i, close_count + 1)
    else (data, close_count)

/-- The loop over the `n` entries from `i` on. -/
def PollData.serve (cmd : ℕ → ℤ) : ℕ → ℕ → PollData → ℕ → PollData × ℕ
  | 0, _, data, close_count => (data, close_count)
  | n + 1, i, data, close_count =>
    let (data, close_count) := data.serveEntry cmd i close_count
    serve cmd n (i + 1) data close_count

/-- The entries that stay in the table, as the cleanup writes them. -/
def PollFd.kept (p : PollFd) : Bool := p.fd ≠ -1
def PollFd.reset (p : PollFd) : PollFd := { fd := p.fd, events := pollIn, revents := 0 }

/-- The cleanup. -/
def PollData.cleanup (data : PollData) : PollData :=
  let (connections, j) := compact PollFd.kept PollFd.reset (data.count - 1) 1 1 data.connections
  { data with connections := connections, count := j }

/-- One pass of the loop of `nfp_cpp_dev_poll`. -/
def PollData.pass (p : Pass) (data : PollData) : PollData :=
  let data := data.setRevents p.revents
  if p.ret ≤ 0 then data
  else
    let data := data.acceptClient p.accepted
    let (data, close_count) := data.serve p.cmd (data.count - 1) 1 0
    if close_count ≠ 0 then data.cleanup else data

/-! ### The clients -/

/-- What a call does to the clients. -/
def SysCall.apply (clients : List ℤ) : SysCall → List ℤ
  | .accept fd => if 0 ≤ fd then clients ++ [fd] else clients
  | .close fd => clients.erase fd

/-- The clients accepted and not yet closed, in the order in which they were accepted. -/
def live (calls : List SysCall) : List ℤ := calls.foldl SysCall.apply []

/-- Every valid descriptor that is closed is one accepted and not closed since. -/
def ClosesOnce (calls : List SysCall) : Prop :=
  ∀ pre fd post, calls = pre ++ .close fd :: post → 0 ≤ fd → fd ∈ live pre

/-- The descriptors of the entries after the first. -/
def PollData.clients (data : PollData) : List ℤ :=
  (entries data.connections 1 (data.count - 1)).map PollFd.fd

/-- The table at the top of the loop. -/
structure Consistent (data : PollData) : Prop where
  count_pos : 1 ≤ data.count
  count_le : data.count ≤ maxConnections
  listening : (data.connections 0).fd = data.listen_fd
  /-- Every client in exactly one entry, in the order in which they were accepted. -/
  clients : data.clients = live data.calls
  nodup : data.clients.Nodup
  valid : ∀ fd ∈ data.clients, 0 ≤ fd
  closes : ClosesOnce data.calls

/-- `accept` is called in the pass. -/
def Pass.Accepts (p : Pass) (data : PollData) : Prop :=
  0 < p.ret ∧ p.revents 0 &&& pollIn ≠ 0 ∧ data.count < maxConnections

/-- `accept` fails or returns a descriptor that is not open. -/
def Pass.Possible (p : Pass) (data : PollData) : Prop :=
  p.Accepts data → p.accepted = -1 ∨
    0 ≤ p.accepted ∧ p.accepted ≠ data.listen_fd ∧ p.accepted ∉ live data.calls

/-- The table `nfp_cpp_dev_main` starts the loop with. -/
def PollData.start (listen_fd : ℤ) : PollData where
  listen_fd := listen_fd
  connections := Function.update (fun _ => ⟨0, 0, 0⟩) 0 ⟨listen_fd, pollIn, 0⟩
  count := 1
  calls := []

/-- The loop: its states are those at the top. -/
def pollSystem : System PollData Pass where
  init data := ∃ listen_fd, data = PollData.start listen_fd
  step data p data' := p.Possible data ∧ data' = data.pass p

/-- An entry with these events, whose command returns `ret`, is closed. -/
def Drops (revents : BitVec 16) (ret : ℤ) : Prop :=
  revents &&& pollIn ≠ 0 ∧ ret < 0 ∨ revents &&& pollHup ≠ 0

/-- A failed `accept` goes unnoticed only when the pass also drops a client. -/
def PollData.Clean (data : PollData) (p : Pass) : Prop :=
  p.Accepts data → p.accepted = -1 →
    ∃ i, 1 ≤ i ∧ i < data.count ∧ Drops (p.revents i) (p.cmd i)

/-! ### The calls and the clients -/

/-- One more call. -/
theorem live_snoc (calls : List SysCall) (c : SysCall) :
    live (calls ++ [c]) = c.apply (live calls) := by
  rw [live, List.foldl_append]
  rfl

/-- Nothing has been closed. -/
theorem closesOnce_nil : ClosesOnce [] := by
  intro pre fd post h
  exact absurd h (by simp)

/-- One more call keeps the record clean when it closes no descriptor, or one that is open. -/
theorem ClosesOnce.snoc {calls : List SysCall} {c : SysCall} (h : ClosesOnce calls)
    (hc : ∀ fd, c = .close fd → 0 ≤ fd → fd ∈ live calls) : ClosesOnce (calls ++ [c]) := by
  intro pre fd post heq hfd
  rcases List.eq_nil_or_concat post with rfl | ⟨post, last, rfl⟩
  · -- the call that was added
    obtain ⟨rfl, hlast⟩ := List.append_inj' heq rfl
    exact hc fd (List.singleton_inj.mp hlast) hfd
  · rw [List.concat_eq_append, ← List.cons_append, ← List.append_assoc] at heq
    exact h pre fd post (List.append_inj' heq rfl).1 hfd

/-! ### The loop over the clients -/

/-- The descriptors of the `n` entries from `i` on. -/
def PollData.fds (data : PollData) (i n : ℕ) : List ℤ :=
  (entries data.connections i n).map PollFd.fd

/-- The clients are the entries from 1 on. -/
theorem PollData.clients_eq (data : PollData) : data.clients = data.fds 1 (data.count - 1) := rfl

/-- The first of them, and the others. -/
theorem PollData.fds_succ (data : PollData) (i n : ℕ) :
    data.fds i (n + 1) = (data.connections i).fd :: data.fds (i + 1) n := rfl

/-- They are read of the descriptors alone. -/
theorem PollData.fds_congr {data data' : PollData} {i n : ℕ}
    (h : ∀ k, i ≤ k → k < i + n → (data'.connections k).fd = (data.connections k).fd) :
    data'.fds i n = data.fds i n := by
  unfold PollData.fds entries
  rw [List.map_map, List.map_map]
  refine List.map_congr_left fun k hk => ?_
  obtain ⟨hlo, hhi⟩ := List.mem_range'_1.mp hk
  exact h k hlo hhi

@[simp] theorem and_pollIn_zero : (0 : BitVec 16) &&& pollIn = 0 := by decide
@[simp] theorem and_pollHup_zero : (0 : BitVec 16) &&& pollHup = 0 := by decide

/-- An entry on which nothing has happened stays. -/
theorem not_drops_zero (ret : ℤ) : ¬ Drops 0 ret := by simp [Drops]

variable {cmd : ℕ → ℤ} {i : ℕ} {data : PollData} {c : ℕ}

/-- An entry that stays is left as it is. -/
theorem serveEntry_of_not_drops (h : ¬ Drops (data.connections i).revents (cmd i)) :
    data.serveEntry cmd i c = (data, c) := by
  obtain ⟨hin, hhup⟩ := not_or.mp h
  unfold PollData.serveEntry
  -- an entry without events is passed over, one with others is left as it is
  by_cases h0 : (data.connections i).revents = 0
  · exact if_pos h0
  · simp only [if_neg h0, if_neg hin, if_neg hhup]

/-- The entry after it has been dropped, with the calls made. -/
def PollData.dropped (i : ℕ) (extra : List SysCall) (data : PollData) : PollData :=
  { data with
    connections := Function.update data.connections i { data.connections i with fd := -1 }
    calls := data.calls ++ [.close (data.connections i).fd] ++ extra }

@[simp] theorem PollData.dropped_fd (i : ℕ) (extra : List SysCall) (data : PollData) :
    ((data.dropped i extra).connections i).fd = -1 := by
  change (Function.update data.connections i { data.connections i with fd := -1 } i).fd = -1
  rw [Function.update_self]

/-- A dropped entry becomes `-1` and its descriptor is closed; a second close is of `-1`. -/
theorem serveEntry_of_drops (h : Drops (data.connections i).revents (cmd i)) :
    ∃ extra c', (extra = [] ∨ extra = [.close (-1)]) ∧ c < c' ∧
      data.serveEntry cmd i c = (data.dropped i extra, c') := by
  have hne : (data.connections i).revents ≠ 0 := by
    intro h0
    rw [h0] at h
    exact not_drops_zero _ h
  unfold PollData.serveEntry
  rw [if_neg hne]
  by_cases hin : (data.connections i).revents &&& pollIn ≠ 0 ∧ cmd i < 0
  · by_cases hhup : (data.connections i).revents &&& pollHup ≠ 0
    -- the command failed and the client has hung up: `close` is called twice
    · refine ⟨[.close (-1)], c + 2, .inr rfl, by omega, ?_⟩
      simp only [if_pos hin, PollData.closeEntry, PollData.dropped, Function.update_self,
        if_pos hhup, Function.update_idem]
    · refine ⟨[], c + 1, .inl rfl, by omega, ?_⟩
      simp only [if_pos hin, PollData.closeEntry, PollData.dropped, Function.update_self,
        if_neg hhup, List.append_nil]
  · have hhup := h.resolve_left hin
    refine ⟨[], c + 1, .inl rfl, by omega, ?_⟩
    simp only [if_neg hin, if_pos hhup, PollData.closeEntry, PollData.dropped, List.append_nil]

/-- What the loop over the `n` entries from `i` on leaves, when `pre` are the clients of the
entries below. -/
structure Served (cmd : ℕ → ℤ) (n i : ℕ) (data : PollData) (c : ℕ) (pre : List ℤ)
    (r : PollData × ℕ) : Prop where
  listen_fd : r.1.listen_fd = data.listen_fd
  count : r.1.count = data.count
  below : ∀ k < i, r.1.connections k = data.connections k
  live : live r.1.calls = pre ++ (r.1.fds i n).filter (· ≠ -1)
  sublist : (NfpUdpEcho.live r.1.calls).Sublist (NfpUdpEcho.live data.calls)
  closes : ClosesOnce r.1.calls
  idle_or_drops : (r = (data, c) ∧ ∀ k, i ≤ k → k < i + n →
      ¬ Drops (data.connections k).revents (cmd k)) ∨
    c < r.2 ∧ ∃ k, i ≤ k ∧ k < i + n ∧ Drops (data.connections k).revents (cmd k)

/-- Passing over an entry that stays. -/
theorem Served.skip {n : ℕ} {pre : List ℤ} {r : PollData × ℕ}
    (hskip : ¬ Drops (data.connections i).revents (cmd i))
    (h : Served cmd n (i + 1) data c
      (pre ++ [(data.connections i).fd].filter (· ≠ -1)) r) :
    Served cmd (n + 1) i data c pre r where
  listen_fd := h.listen_fd
  count := h.count
  below k hk := h.below k (Nat.lt_succ_of_lt hk)
  live := by
    rw [h.live, PollData.fds_succ, h.below i (Nat.lt_succ_self i), List.append_assoc,
      ← List.filter_append]
    rfl
  sublist := h.sublist
  closes := h.closes
  idle_or_drops := by
    refine h.idle_or_drops.imp ?_ ?_
    · rintro ⟨hr, hidle⟩
      refine ⟨hr, fun k hlo hhi => ?_⟩
      by_cases hk : k = i
      · exact hk ▸ hskip
      · exact hidle k (by omega) (by omega)
    · rintro ⟨hc, k, hlo, hhi, hk⟩
      exact ⟨hc, k, by omega, by omega, hk⟩

/-- Dropping an entry removes its client, and no other. -/
theorem live_dropped {pre post : List ℤ} {extra : List SysCall}
    (hextra : extra = [] ∨ extra = [.close (-1)])
    (hlive : live data.calls = pre ++ (data.connections i).fd :: post)
    (hnodup : (live data.calls).Nodup) (hneg : -1 ∉ live data.calls) :
    live (data.dropped i extra).calls = pre ++ post := by
  -- no client is in two entries, so that the first one found is the one of this entry
  have hpre : (data.connections i).fd ∉ pre := by
    intro hmem
    rw [hlive] at hnodup
    exact (List.nodup_append.mp hnodup).2.2 _ hmem _ (List.mem_cons_self ..) rfl
  have hclose : live (data.calls ++ [.close (data.connections i).fd]) = pre ++ post := by
    rw [live_snoc, hlive]
    change List.erase _ _ = _
    rw [List.erase_append_right _ hpre, List.erase_cons_head]
  rcases hextra with rfl | rfl
  · rw [← hclose]
    exact congrArg live (List.append_nil _)
  · -- the second close is of `-1`, which is no client
    have hneg' : -1 ∉ pre ++ post := by
      intro hmem
      rw [hlive] at hneg
      refine hneg ?_
      rcases List.mem_append.mp hmem with h | h
      · exact List.mem_append_left _ h
      · exact List.mem_append_right _ (List.mem_cons_of_mem _ h)
    change live (data.calls ++ [.close (data.connections i).fd] ++ [.close (-1)]) = _
    rw [live_snoc, hclose]
    exact List.erase_of_not_mem hneg'

/-- The descriptor closed is open; `-1` is none. -/
theorem ClosesOnce.dropped {extra : List SysCall}
    (hextra : extra = [] ∨ extra = [.close (-1)])
    (hmem : (data.connections i).fd ∈ NfpUdpEcho.live data.calls) (h : ClosesOnce data.calls) :
    ClosesOnce (data.dropped i extra).calls := by
  have hclose : ClosesOnce (data.calls ++ [.close (data.connections i).fd]) := by
    refine h.snoc fun fd heq _ => ?_
    obtain rfl := SysCall.close.inj heq
    exact hmem
  rcases hextra with rfl | rfl
  · rw [PollData.dropped, List.append_nil]
    exact hclose
  · refine hclose.snoc fun fd heq hfd => ?_
    obtain rfl := SysCall.close.inj heq
    exact absurd hfd (by decide)

/-- Closing an entry. -/
theorem Served.drop {n c' : ℕ} {pre : List ℤ} {extra : List SysCall} {r : PollData × ℕ}
    (hd : Drops (data.connections i).revents (cmd i)) (hc : c < c')
    (hsub : (NfpUdpEcho.live (data.dropped i extra).calls).Sublist
      (NfpUdpEcho.live data.calls))
    (h : Served cmd n (i + 1) (data.dropped i extra) c' pre r) :
    Served cmd (n + 1) i data c pre r where
  listen_fd := h.listen_fd
  count := h.count
  below k hk := by
    rw [h.below k (Nat.lt_succ_of_lt hk)]
    exact Function.update_of_ne (Nat.ne_of_lt hk) _ _
  live := by
    have hfd : (r.1.connections i).fd = -1 := by
      rw [h.below i (Nat.lt_succ_self i), PollData.dropped_fd]
    rw [h.live, PollData.fds_succ, hfd, List.filter_cons_of_neg (by decide)]
  sublist := h.sublist.trans hsub
  closes := h.closes
  idle_or_drops := by
    have hlt : c < r.2 := by
      rcases h.idle_or_drops with ⟨hr, -⟩ | ⟨hlt, -⟩
      · rw [hr]
        exact hc
      · exact Nat.lt_trans hc hlt
    exact .inr ⟨hlt, i, Nat.le_refl i, by omega, hd⟩

/-- **The loop.** What is open after it are the entries that are not `-1`. -/
theorem served {n : ℕ} {pre : List ℤ}
    (hlive : live data.calls = pre ++ (data.fds i n).filter (· ≠ -1))
    (hnodup : (live data.calls).Nodup) (hneg : -1 ∉ live data.calls)
    (hdead : ∀ k, i ≤ k → k < i + n → Drops (data.connections k).revents (cmd k) →
      (data.connections k).fd ≠ -1)
    (hcloses : ClosesOnce data.calls) :
    Served cmd n i data c pre (data.serve cmd n i c) := by
  -- `pre` grows by the entry that was served, unless it was dropped
  induction n generalizing i data c pre with
  | zero =>
    exact ⟨rfl, rfl, fun _ _ => rfl, hlive, List.Sublist.refl _, hcloses,
      .inl ⟨rfl, fun k hlo hhi => absurd hhi (by omega)⟩⟩
  | succ n ih =>
    unfold PollData.serve
    by_cases hd : Drops (data.connections i).revents (cmd i)
    · obtain ⟨extra, c', hextra, hc', heq⟩ := serveEntry_of_drops (c := c) hd
      have hfd : (data.connections i).fd ≠ -1 := hdead i (Nat.le_refl i) (by omega) hd
      rw [PollData.fds_succ, List.filter_cons_of_pos (by simpa using hfd)] at hlive
      have hgone := live_dropped hextra hlive hnodup hneg
      have hsub : (live (data.dropped i extra).calls).Sublist (live data.calls) := by
        rw [hgone, hlive]
        exact (List.sublist_cons_self _ _).append_left pre
      -- the entries that are still to be served are as they were
      have hsame : ∀ k, i + 1 ≤ k →
          (data.dropped i extra).connections k = data.connections k :=
        fun k hk => Function.update_of_ne (by omega) _ _
      rw [heq]
      refine Served.drop hd hc' hsub (ih ?_ (hnodup.sublist hsub) (fun hm => hneg (hsub.mem hm))
        (fun k hlo hhi => ?_) ?_)
      · rw [hgone, PollData.fds_congr fun k hlo _ => congrArg PollFd.fd (hsame k hlo)]
      · rw [hsame k hlo]
        exact hdead k (by omega) (by omega)
      · refine hcloses.dropped hextra ?_
        rw [hlive]
        exact List.mem_append_right _ (List.mem_cons_self ..)
    · rw [serveEntry_of_not_drops hd]
      refine Served.skip hd (ih ?_ hnodup hneg (fun k hlo hhi => hdead k (by omega) (by omega))
        hcloses)
      rw [hlive, PollData.fds_succ, List.append_assoc, ← List.filter_append]
      rfl

/-! ### One pass keeps the table -/

/-- The table before the clients are served: as at the top, but for an entry `-1` at the end
when `accept` has failed. -/
structure Ready (p : Pass) (data : PollData) : Prop where
  count_pos : 1 ≤ data.count
  count_le : data.count ≤ maxConnections
  listening : (data.connections 0).fd = data.listen_fd
  live : live data.calls = data.clients.filter (· ≠ -1)
  nodup : (NfpUdpEcho.live data.calls).Nodup
  valid : ∀ fd ∈ NfpUdpEcho.live data.calls, 0 ≤ fd
  dead : ∀ k, 1 ≤ k → k < data.count → Drops (data.connections k).revents (p.cmd k) →
    (data.connections k).fd ≠ -1
  closes : ClosesOnce data.calls

/-- With no entry `-1` the table is as it has to be at the top. -/
theorem Ready.consistent {p : Pass} (h : Ready p data) (hneg : -1 ∉ data.clients) :
    Consistent data := by
  have hfilter : data.clients.filter (· ≠ -1) = data.clients := by
    refine List.filter_eq_self.mpr fun fd hfd => decide_eq_true fun heq => ?_
    exact hneg (heq ▸ hfd)
  have hlive := h.live.trans hfilter
  exact ⟨h.count_pos, h.count_le, h.listening, hlive.symm, hlive ▸ h.nodup, hlive ▸ h.valid,
    h.closes⟩

/-- The cleanup leaves the entries that are not `-1`. -/
theorem clients_cleanup (data : PollData) :
    data.cleanup.clients = data.clients.filter (· ≠ -1) := by
  have hcount : data.cleanup.count - 1 =
      ((entries data.connections 1 (data.count - 1)).filter PollFd.kept).length := by
    change (compact _ _ _ _ _ _).2 - 1 = _
    rw [compact_end (Nat.le_refl 1), Nat.add_sub_cancel_left]
  -- the cleanup keeps the entry when its descriptor is not `-1`
  rw [PollData.clients, hcount]
  change (entries (compact _ _ _ _ _ _).1 _ _).map _ = _
  rw [entries_compact (Nat.le_refl 1), List.map_map, PollData.clients, List.filter_map]
  rfl

/-- The compaction counts the entries that stay. -/
theorem cleanup_count (data : PollData) :
    data.cleanup.count = 1 + (data.clients.filter (· ≠ -1)).length := by
  change (compact _ _ _ _ _ _).2 = _
  rw [compact_end (Nat.le_refl 1), PollData.clients, List.filter_map, List.length_map]
  rfl

/-- All entries but the listening socket. -/
theorem length_clients (data : PollData) : data.clients.length = data.count - 1 := by
  rw [PollData.clients, List.length_map, length_entries]

/-- After the loop over the clients, with an entry dropped, the cleanup restores the table. -/
theorem consistent_cleanup {p : Pass} {r : PollData × ℕ} (h : Ready p data)
    (hr : Served p.cmd (data.count - 1) 1 data 0 [] r) : Consistent r.1.cleanup := by
  have hclients : r.1.cleanup.clients = live r.1.calls := by
    rw [clients_cleanup, hr.live, PollData.clients_eq, hr.count, List.nil_append]
  have hvalid : ∀ fd ∈ live r.1.calls, 0 ≤ fd := fun fd hfd => h.valid fd (hr.sublist.mem hfd)
  constructor
  case count_pos =>
    rw [cleanup_count]
    omega
  case count_le =>
    have hle := List.length_filter_le (· ≠ -1) r.1.clients
    have hpos := h.count_pos
    have hmax := h.count_le
    rw [length_clients, hr.count] at hle
    rw [cleanup_count]
    omega
  case listening =>
    change PollFd.fd ((compact _ _ _ _ _ _).1 0) = r.1.listen_fd
    rw [compact_below Nat.zero_lt_one, hr.below 0 Nat.zero_lt_one, hr.listen_fd, h.listening]
  case clients => exact hclients
  case nodup => exact hclients ▸ h.nodup.sublist hr.sublist
  case valid => exact hclients ▸ hvalid
  case closes => exact hr.closes

/-- `poll` changes no descriptor. -/
theorem setRevents_fd (revents : ℕ → BitVec 16) (data : PollData) (k : ℕ) :
    ((data.setRevents revents).connections k).fd = (data.connections k).fd := by
  unfold PollData.setRevents
  dsimp only
  split
  · rfl
  · rfl

/-- `poll` changes no descriptor. -/
theorem clients_setRevents (revents : ℕ → BitVec 16) (data : PollData) :
    (data.setRevents revents).clients = data.clients :=
  PollData.fds_congr fun k _ _ => setRevents_fd revents data k

/-- It stores what has happened on each. -/
theorem setRevents_revents (revents : ℕ → BitVec 16) {k : ℕ} (hk : k < data.count) :
    ((data.setRevents revents).connections k).revents = revents k := by
  unfold PollData.setRevents
  dsimp only
  rw [if_pos hk]

/-- So the table stays in order. -/
theorem Consistent.setRevents (h : Consistent data) (revents : ℕ → BitVec 16) :
    Consistent (data.setRevents revents) where
  count_pos := h.count_pos
  count_le := h.count_le
  listening := by
    rw [setRevents_fd]
    exact h.listening
  clients := by
    rw [clients_setRevents]
    exact h.clients
  nodup := by
    rw [clients_setRevents]
    exact h.nodup
  valid := by
    rw [clients_setRevents]
    exact h.valid
  closes := h.closes

/-- The table the clients are served from. -/
def PollData.polled (p : Pass) (data : PollData) : PollData :=
  (data.setRevents p.revents).acceptClient p.accepted

variable {p : Pass}

/-- The listening socket is ready. -/
theorem setRevents_pollIn (h : Consistent data) :
    (((data.setRevents p.revents).connections 0).revents &&& pollIn ≠ 0) ↔
      p.revents 0 &&& pollIn ≠ 0 := by
  rw [setRevents_revents p.revents h.count_pos]

/-- `accept` is called: the table gets one more entry. -/
theorem polled_of_accepts (h : Consistent data) (ha : p.Accepts data) :
    data.polled p = { data.setRevents p.revents with
      connections := Function.update (data.setRevents p.revents).connections data.count
        ⟨p.accepted, pollIn, 0⟩
      count := data.count + 1
      calls := data.calls ++ [.accept p.accepted] } := by
  obtain ⟨-, hin, hmax⟩ := ha
  unfold PollData.polled PollData.acceptClient
  rw [if_pos ((setRevents_pollIn h).mpr hin), if_pos]
  · rfl
  · exact hmax

/-- Nobody is accepted. -/
theorem polled_of_not_accepts (h : Consistent data) (hret : 0 < p.ret) (ha : ¬ p.Accepts data) :
    data.polled p = data.setRevents p.revents := by
  unfold PollData.polled PollData.acceptClient
  by_cases hin : p.revents 0 &&& pollIn ≠ 0
  · have hmax : ¬ data.count < maxConnections := fun hmax => ha ⟨hret, hin, hmax⟩
    rw [if_pos ((setRevents_pollIn h).mpr hin), if_neg]
    exact hmax
  · rw [if_neg (mt (setRevents_pollIn h).mp hin)]

/-- What the entries are when the clients are served. -/
theorem polled_clients_of_accepts (h : Consistent data) (ha : p.Accepts data) :
    (data.polled p).clients = data.clients ++ [p.accepted] := by
  have hcount : data.count + 1 - 1 = data.count - 1 + 1 := by
    have := h.count_pos
    omega
  have hend : 1 + (data.count - 1) = data.count := by
    have := h.count_pos
    omega
  rw [polled_of_accepts h ha, PollData.clients]
  dsimp only
  rw [hcount, entries_concat, hend, entries_update _ _ (.inr (Nat.le_of_eq hend)),
    Function.update_self, List.map_append]
  exact congrArg (· ++ [p.accepted]) (clients_setRevents p.revents data)

/-- The events that are served are those that `poll` found on the clients of the last pass. -/
theorem polled_drops (h : Consistent data) (hret : 0 < p.ret) {k : ℕ}
    (hk : k < (data.polled p).count)
    (hd : Drops ((data.polled p).connections k).revents (p.cmd k)) :
    k < data.count ∧ Drops (p.revents k) (p.cmd k) := by
  by_cases ha : p.Accepts data
  · rw [polled_of_accepts h ha] at hk hd
    dsimp only at hk hd
    by_cases hlast : k = data.count
    · -- the entry that was just appended has no events
      subst hlast
      rw [Function.update_self] at hd
      exact absurd hd (not_drops_zero _)
    · have hlt : k < data.count := by omega
      rw [Function.update_of_ne hlast, setRevents_revents p.revents hlt] at hd
      exact ⟨hlt, hd⟩
  · rw [polled_of_not_accepts h hret ha] at hk hd
    have hlt : k < data.count := hk
    rw [setRevents_revents p.revents hlt] at hd
    exact ⟨hlt, hd⟩

/-- The entries that were there have their `revents`. -/
theorem polled_revents (h : Consistent data) (hret : 0 < p.ret) {k : ℕ} (hk : k < data.count) :
    ((data.polled p).connections k).revents = p.revents k := by
  by_cases ha : p.Accepts data
  · rw [polled_of_accepts h ha]
    dsimp only
    rw [Function.update_of_ne (Nat.ne_of_lt hk), setRevents_revents p.revents hk]
  · rw [polled_of_not_accepts h hret ha, setRevents_revents p.revents hk]

/-- They have their descriptors. -/
theorem polled_fd (h : Consistent data) (hret : 0 < p.ret) {k : ℕ} (hk : k < data.count) :
    ((data.polled p).connections k).fd = (data.connections k).fd := by
  by_cases ha : p.Accepts data
  · rw [polled_of_accepts h ha]
    dsimp only
    rw [Function.update_of_ne (Nat.ne_of_lt hk), setRevents_fd]
  · rw [polled_of_not_accepts h hret ha, setRevents_fd]

/-- No entry goes before the loop. -/
theorem count_le_polled (h : Consistent data) (hret : 0 < p.ret) :
    data.count ≤ (data.polled p).count := by
  by_cases ha : p.Accepts data
  · rw [polled_of_accepts h ha]
    exact Nat.le_succ _
  · rw [polled_of_not_accepts h hret ha]
    exact Nat.le_refl _

/-- A client of the table is no `-1`. -/
theorem Consistent.fd_ne (h : Consistent data) {k : ℕ} (hlo : 1 ≤ k) (hhi : k < data.count) :
    (data.connections k).fd ≠ -1 := by
  intro heq
  have hmem : (data.connections k).fd ∈ data.clients :=
    List.mem_map.mpr ⟨_, mem_entries.mpr ⟨k, hlo, by omega, rfl⟩, rfl⟩
  have hle := h.valid _ hmem
  omega

/-- A table in order has no entry `-1`. -/
theorem Consistent.filter_clients (h : Consistent data) :
    data.clients.filter (· ≠ -1) = data.clients := by
  refine List.filter_eq_self.mpr fun fd hfd => decide_eq_true fun heq => ?_
  have hle := h.valid fd hfd
  omega

/-- A pass in which nothing has happened begins with it. -/
theorem Consistent.ready (h : Consistent data) : Ready p data :=
  ⟨h.count_pos, h.count_le, h.listening, by rw [h.filter_clients, h.clients],
    h.clients ▸ h.nodup, h.clients ▸ h.valid, fun _ hlo hhi _ => h.fd_ne hlo hhi, h.closes⟩

/-- What `accept` adds to the clients. -/
def Pass.newClient (p : Pass) : List ℤ := if 0 ≤ p.accepted then [p.accepted] else []

/-- There is a new client if `accept` has not failed. -/
theorem mem_newClient {fd : ℤ} : fd ∈ p.newClient ↔ fd = p.accepted ∧ 0 ≤ p.accepted := by
  unfold Pass.newClient
  split
  · next h => simp [h]
  · next h => simp [h]

/-- A possible result is a new client, or the one entry that the cleanup drops. -/
theorem Pass.Possible.newClient (hp : p.Possible data) (ha : p.Accepts data) :
    [p.accepted].filter (· ≠ -1) = p.newClient := by
  unfold Pass.newClient
  rcases hp ha with hfail | ⟨hfd, -⟩
  · rw [hfail]
    rfl
  · have hne : p.accepted ≠ -1 := by omega
    rw [if_pos hfd, List.filter_cons_of_pos (by simpa using hne)]
    rfl

/-- The kernel gives a descriptor that is not in use. -/
theorem Pass.Possible.nodup (hp : p.Possible data) (ha : p.Accepts data) (h : Consistent data) :
    (data.clients ++ p.newClient).Nodup := by
  refine List.nodup_append.mpr ⟨h.nodup, ?_, ?_⟩
  · unfold Pass.newClient
    split
    · exact List.nodup_singleton _
    · exact List.nodup_nil
  · rintro fd hfd _ hnew rfl
    obtain ⟨rfl, hpos⟩ := mem_newClient.mp hnew
    -- a descriptor that is open is not given out again
    rw [h.clients] at hfd
    rcases hp ha with hfail | ⟨-, -, hfresh⟩
    · rw [hfail] at hpos
      exact absurd hpos (by decide)
    · exact hfresh hfd

/-- The new client is live. -/
theorem live_polled (h : Consistent data) (ha : p.Accepts data) :
    live (data.polled p).calls = data.clients ++ p.newClient := by
  rw [polled_of_accepts h ha]
  dsimp only
  rw [live_snoc, ← h.clients, SysCall.apply, Pass.newClient]
  split
  · rfl
  · rw [List.append_nil]

/-- The table the clients are served from. -/
theorem ready_polled (h : Consistent data) (hp : p.Possible data) (hret : 0 < p.ret) :
    Ready p (data.polled p) := by
  by_cases ha : p.Accepts data
  · -- the new entry stands behind the others, with no events to serve
    have heq := polled_of_accepts h ha
    have hlive := live_polled h ha
    constructor
    case count_pos =>
      rw [heq]
      exact Nat.succ_pos _
    case count_le =>
      rw [heq]
      exact ha.2.2
    case listening =>
      rw [polled_fd h hret h.count_pos, h.listening, heq]
      rfl
    case live =>
      -- an entry of -1 is in the table and not among the live
      rw [hlive, polled_clients_of_accepts h ha, List.filter_append, h.filter_clients,
        hp.newClient ha]
    case nodup =>
      rw [hlive]
      exact hp.nodup ha h
    case valid =>
      rw [hlive]
      intro fd hfd
      rcases List.mem_append.mp hfd with hold | hnew
      · exact h.valid fd hold
      · obtain ⟨rfl, hpos⟩ := mem_newClient.mp hnew
        exact hpos
    case dead =>
      -- only an entry from before can be dropped
      intro k hlo hhi hd
      obtain ⟨hlt, -⟩ := polled_drops h hret hhi hd
      rw [polled_fd h hret hlt]
      exact h.fd_ne hlo hlt
    case closes =>
      rw [heq]
      exact h.closes.snoc fun fd hclose => SysCall.noConfusion hclose
  · rw [polled_of_not_accepts h hret ha]
    exact (h.setRevents p.revents).ready

/-- The entry `-1` is in the table exactly when `accept` has failed. -/
theorem mem_polled_clients (h : Consistent data) (hret : 0 < p.ret) :
    -1 ∈ (data.polled p).clients ↔ p.Accepts data ∧ p.accepted = -1 := by
  have hold : -1 ∉ data.clients := fun hmem => absurd (h.valid _ hmem) (by decide)
  by_cases ha : p.Accepts data
  · rw [polled_clients_of_accepts h ha, List.mem_append, List.mem_singleton]
    constructor
    · rintro (hmem | heq)
      · exact absurd hmem hold
      · exact ⟨ha, heq.symm⟩
    · rintro ⟨-, heq⟩
      exact .inr heq.symm
  · rw [polled_of_not_accepts h hret ha, clients_setRevents]
    constructor
    · intro hmem
      exact absurd hmem hold
    · rintro ⟨ha', -⟩
      exact absurd ha' ha

/-- A pass in which `poll` has something to report. -/
theorem pass_of_pos (hret : 0 < p.ret) :
    data.pass p =
      let r := (data.polled p).serve p.cmd ((data.polled p).count - 1) 1 0
      if r.2 ≠ 0 then r.1.cleanup else r.1 := by
  unfold PollData.pass
  rw [if_neg (Int.not_le.mpr hret)]
  rfl

/-- **One pass.** The table is right again exactly when no failed `accept` goes unnoticed. -/
theorem consistent_pass_iff (h : Consistent data) (hp : p.Possible data) :
    Consistent (data.pass p) ↔ data.Clean p := by
  by_cases hret : p.ret ≤ 0
  · -- a signal or an error of `poll`: the pass is over
    have heq : data.pass p = data.setRevents p.revents := if_pos hret
    have hclean : data.Clean p := fun ha => absurd ha.1 (Int.not_lt.mpr hret)
    rw [heq]
    exact ⟨fun _ => hclean, fun _ => h.setRevents p.revents⟩
  · have hpos : 0 < p.ret := Int.not_le.mp hret
    have hready := ready_polled h hp hpos
    have hserved : Served p.cmd ((data.polled p).count - 1) 1 (data.polled p) 0 []
        ((data.polled p).serve p.cmd ((data.polled p).count - 1) 1 0) := by
      refine served hready.live hready.nodup (fun hmem => ?_) (fun k hlo hhi => ?_) hready.closes
      · exact absurd (hready.valid _ hmem) (by decide)
      · have hcount := hready.count_pos
        exact hready.dead k hlo (by omega)
    have hcount := hready.count_pos
    rcases hserved.idle_or_drops with ⟨hidle, hnone⟩ | ⟨hlt, k, hlo, hhi, hd⟩
    · -- nothing dropped: the cleanup does not run
      have heq : data.pass p = data.polled p := by
        rw [pass_of_pos hpos, hidle]
        rfl
      have hiff : Consistent (data.polled p) ↔ -1 ∉ (data.polled p).clients :=
        ⟨fun hcons hmem => absurd (hcons.valid _ hmem) (by decide), hready.consistent⟩
      rw [heq, hiff, mem_polled_clients h hpos]
      constructor
      · intro hno ha hfail
        exact absurd ⟨ha, hfail⟩ hno
      · -- the client that would have to be dropped with it was not
        rintro hclean ⟨ha, hfail⟩
        obtain ⟨k, hlo, hhi, hd⟩ := hclean ha hfail
        have hle := count_le_polled h hpos
        refine hnone k hlo (by omega) ?_
        rw [polled_revents h hpos hhi]
        exact hd
    · -- an entry dropped: the cleanup removes every `-1`
      have heq : data.pass p =
          ((data.polled p).serve p.cmd ((data.polled p).count - 1) 1 0).1.cleanup := by
        rw [pass_of_pos hpos]
        exact if_pos (Nat.ne_of_gt hlt)
      obtain ⟨hk, hdrops⟩ := polled_drops h hpos (by omega) hd
      rw [heq]
      exact ⟨fun _ _ _ => ⟨k, hlo, hk, hdrops⟩, fun _ => consistent_cleanup hready hserved⟩

/-! ### Runs -/

/-- At first there is only the listening socket. -/
theorem consistent_start (listen_fd : ℤ) : Consistent (PollData.start listen_fd) where
  count_pos := Nat.le_refl 1
  count_le := show 1 ≤ maxConnections by decide
  listening := rfl
  clients := rfl
  nodup := List.nodup_nil
  valid := fun _ hfd => absurd hfd List.not_mem_nil
  closes := closesOnce_nil

/-- Along a run of the loop the table is `Consistent` at the top after every pass exactly when
in no pass a failed `accept` goes unnoticed. -/
theorem consistent_iff {h : List (Transition PollData Pass)} {s : PollData}
    (he : Exec pollSystem h s) :
    (∀ t ∈ h, Consistent t.dst) ↔ ∀ t ∈ h, t.src.Clean t.label := by
  have hinit : ∀ data, pollSystem.init data → Consistent data := by
    rintro _ ⟨listen_fd, rfl⟩
    exact consistent_start listen_fd
  refine he.exact hinit ?_ ?_ ?_
  · rintro data p _ hcons ⟨hp, rfl⟩ hclean
    exact (consistent_pass_iff hcons hp).mpr hclean
  · rintro data p _ hcons ⟨hp, rfl⟩ hclean
    exact (consistent_pass_iff hcons hp).mpr hclean
  · rintro data p _ hcons ⟨hp, rfl⟩ hok
    exact (consistent_pass_iff hcons hp).mp hok

/-- A pass in which a client connects, with the result of `accept`. -/
def connecting (accepted : ℤ) : Pass where
  ret := 1
  revents := fun i => if i = 0 then pollIn else 0
  accepted := accepted
  cmd := fun _ => 0

/-- One client connects. -/
theorem connecting_step (accepted : ℤ) (h : (connecting accepted).Possible (.start 3)) :
    Exec pollSystem
      [⟨.start 3, connecting accepted, (PollData.start 3).pass (connecting accepted)⟩]
      ((PollData.start 3).pass (connecting accepted)) :=
  (Exec.init (show pollSystem.init (.start 3) from ⟨3, rfl⟩)).snoc ⟨h, rfl⟩

/-- A pass in which the first client hangs up with a command half sent, and `accept` fails. -/
def leaving : Pass where
  ret := 2
  revents := fun i => if i = 0 then pollIn else if i = 1 then pollIn ||| pollHup else 0
  accepted := -1
  cmd := fun _ => -1

/-- Two clients connect. The first goes, and the cleanup drops the entry of a failed `accept`
with it. -/
theorem consistent_iff_leaving : ∃ h s, Exec pollSystem h s ∧
    h.map Transition.label = [connecting 4, connecting 5, leaving] ∧ s.clients = [5] ∧
    (∀ t ∈ h, t.src.Clean t.label) ∧ (∀ t ∈ h, Consistent t.dst) := by
  have hfirst := connecting_step 4 fun _ => .inr ⟨by decide, by decide, List.not_mem_nil⟩
  let one := (PollData.start 3).pass (connecting 4)
  let two := one.pass (connecting 5)
  have hsecond : pollSystem.step one (connecting 5) two :=
    ⟨fun _ => .inr ⟨by decide, by decide, by decide⟩, rfl⟩
  have hthird : pollSystem.step two leaving (two.pass leaving) := ⟨fun _ => .inl rfl, rfl⟩
  have he := (hfirst.snoc hsecond).snoc hthird
  refine ⟨_, _, he, rfl, by decide, ?_⟩
  have hclean : ∀ t ∈ [⟨.start 3, connecting 4, one⟩, ⟨one, connecting 5, two⟩,
      ⟨two, leaving, two.pass leaving⟩], PollData.Clean (Transition.src t) t.label := by
    simp only [List.forall_mem_cons]
    refine ⟨fun _ h => absurd h (by decide), fun _ h => absurd h (by decide), ?_, nofun⟩
    -- the entry that goes is that of the first client
    exact fun _ _ => ⟨1, Nat.le_refl 1, by decide, .inl (by decide)⟩
  exact ⟨hclean, (consistent_iff he).mpr hclean⟩

/-- A client connects when the server has no descriptor left: the entry `-1` stays. -/
theorem failed_accept_kept : ¬ ∀ s, pollSystem.Reachable s → Consistent s := by
  intro hall
  have he := connecting_step (-1) fun _ => .inl rfl
  have hcons := hall _ ⟨_, he⟩
  exact absurd (hcons.valid (-1) (by decide)) (by decide)

end NfpUdpEcho
