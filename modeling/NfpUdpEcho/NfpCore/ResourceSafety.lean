import NfpUdpEcho.NfpCore.Hwinfo
import NfpUdpEcho.NfpCore.Nsp
import NfpUdpEcho.NfpCore.ResourceClient
import NfpUdpEcho.NfpCore.Rtsym

/-!
# Several processes, any resources

Any number of processes, each under an interface id of its own, acquire and release resources in
any order, by themselves or in the functions that do so: they read the tables of the board and of
the firmware and open the NSP. A process has its handles (`MutexCache`), and the accesses of the
processes come in any order (`MutexSafety`).

Each call changes the counts of the handles (`Serves`). Between the calls of a process its users
and its locks are how many of the resources it holds have the handle (`resourceSystem_safe`); so a
resource that a process holds is locked by it, and by no other (`resource_exclusive`).

A call is described once, by `Serves`: as a client of the mutex at any address `a` it changes the
depth there as it says, and it ends with handles that are in order. The functions of the board are
put together from calls by `Serves.andThen` and from reads by `Serves.ofReads`, so that the proof
about each of them is the text of the function with the branches named. Nothing in the section on
the calls mentions a second process: that is left to `mutexSimulation`, which is about every client.

A run of the processes is then a run of the clients of the mutex at `a`, for every `a`
(`resourceRun_mutex`), and `mutex_exclusive` applies to it.
-/

namespace NfpUdpEcho

open Access Prog LTS

variable {i : UInt16} {host : NfpCppHost} {loc : ℕ → UInt64} {a : UInt64} {calloc : ℕ → Bool}
  {p : ℕ} {α β : Type}

/-! ### The processes -/

/-- The resources that a process holds, with its handles, or how it has come to a halt. -/
abbrev HostState := Outcome (List NfpResource)

/-- How often a process has locked the mutex at `a`, if it is not dead. -/
def HostState.depthAt (a : UInt64) : HostState → UInt16
  | .done _ host | .waiting host => host.depthAt a
  | .nullMutex _ | .badMutex => 0

/-- A process without handles. -/
def FreshHost (i : UInt16) (host : NfpCppHost) : Prop :=
  host.interface = i ∧ host.mutexCache = none ∧ host.heap = fun _ => none

/-- How many of the resources have the handle at `p`. -/
def users (held : List NfpResource) (p : ℕ) : ℕ := held.countP fun res => res.mutex = some p

/-- The process `i` relies on the handles of the resources that it holds. A process that has halted
at the handle NULL relies on none: this halt is possible, one at a handle that has been freed is
not. -/
def HostState.Ok (i : UInt16) : HostState → Prop
  | .done held host => ∃ loc, HostOk i host (users held) (users held) loc ∧
      ∀ res ∈ held, ∃ p j, res.mutex = some p ∧ j < nfpResourceTblEntries ∧
        loc p = resourceAddr j
  | .waiting _ | .nullMutex _ => True
  | .badMutex => False

section Users

variable {held : List NfpResource} {res : NfpResource}

/-- A resource that is held is a user of its handle. -/
theorem users_pos (hres : res ∈ held) (hp : res.mutex = some p) : 0 < users held p :=
  List.countP_pos_iff.mpr ⟨res, hres, decide_eq_true hp⟩

/-- A resource that is acquired is one more user of its handle. -/
theorem users_cons (hp : res.mutex = some p) : users (res :: held) = addOne (users held) p := by
  funext q
  by_cases hq : q = p
  · subst hq
    rw [addOne_self, users, List.countP_cons, if_pos (decide_eq_true hp)]
    rfl
  · have hne : ¬res.mutex = some q := fun he => hq (Option.some.inj (he.symm.trans hp))
    rw [addOne_of_ne hq, users, List.countP_cons, if_neg (by simpa using hne)]
    rfl

/-- One that is given up is a user less. -/
theorem users_erase (hres : res ∈ held) (hp : res.mutex = some p) :
    users (held.erase res) = subOne (users held) p := by
  have hperm := List.perm_cons_erase hres
  have hsame : users held = users (res :: held.erase res) := by
    funext q
    exact hperm.countP_eq _
  rw [hsame, users_cons hp, subOne_addOne]

/-- Without handles there are no users. -/
theorem HostOk.fresh (h : FreshHost i host) :
    HostOk i host (users []) (users []) fun _ => 0 := by
  obtain ⟨hi, hcache, hheap⟩ := h
  have hok : CacheOk host (users []) [] := by
    refine ⟨LinkedList.isList_nil.mpr hcache, ?_, ?_, ?_, ?_, ?_⟩ <;> simp [hheap, users]
  refine ⟨⟨[], hok⟩, hi, ?_, fun p => Nat.zero_le _⟩
  simp [NfpCppHost.mutexAt, hheap]

/-- And no locks. -/
theorem FreshHost.depthAt (h : FreshHost i host) : host.depthAt a = 0 := by
  obtain ⟨xs, hok⟩ := (HostOk.fresh h).cache
  refine hok.depthAt_eq_zero fun p m hm => ?_
  rw [NfpCppHost.mutexAt, h.2.2] at hm
  cases hm

end Users

/-- What a process knows in the end. -/
abbrev Knows (a : UInt64) (i : UInt16) (x : HostState) (n : UInt16) : Prop :=
  x.Ok i ∧ x.depthAt a = n

/-- A call that keeps the counts. -/
theorem Serves.knows {r : CppProg HostState} (h : Serves a i host r fun held host' =>
    HostState.Ok i (.done held host')) : Client a (Knows a i) i (host.depthAt a) r := by
  refine Client.mono h fun out n hout => ?_
  cases out with
  | done held host => exact ⟨hout.2, hout.1.symm⟩
  | waiting host => exact ⟨trivial, Eq.symm hout⟩
  | nullMutex host => exact ⟨trivial, Eq.symm hout⟩
  | badMutex => exact hout.elim

/-! ### The calls of a process

First the reads, which leave every lock word alone; then the two calls on a resource, in terms of
what the process holds; then the functions that make both. -/

/-- Accesses that no lock word is changed by. -/
theorem Serves.ofReads {r : CppProg β} {f : β → CppProg (Outcome α)} {R : β → Prop}
    {Q : α → NfpCppHost → Prop} (hr : r.Within (CppOp.Leaves a) R)
    (hf : ∀ b, R b → Serves a i host (f b) Q) : Serves a i host (r.bind f) Q := by
  have hclient : Client a (fun b n => R b ∧ n = host.depthAt a) i (host.depthAt a) r :=
    Client.of_within hr fun b hb => ⟨hb, rfl⟩
  refine Client.bind hclient fun b n hb => ?_
  obtain ⟨hb, rfl⟩ := hb
  exact hf b hb

section Reads

/-- No address of the XPB bus is reached through `test_set_imm`. -/
theorem nfpXpbToCpp_ne_mus (model : UInt32) (interface : UInt16) (xpbAddr : UInt32) :
    (nfpXpbToCpp model interface xpbAddr).1 ≠ mus nfpCppTargetMu := by
  have hxpb : nfpCppId 14 nfpCppActionRW 0 ≠ mus nfpCppTargetMu := by decide
  have hzero : 0 ≠ mus nfpCppTargetMu := by decide
  unfold nfpXpbToCpp
  dsimp only
  split_ifs
  all_goals first | exact hxpb | exact hzero

/-- The read of an XPB register leaves the lock words alone. -/
theorem nfpXpbReadl_within (xpbAddr : UInt32) :
    (nfpXpbReadl host xpbAddr).Within (CppOp.Leaves a) fun _ => True := by
  refine ⟨.inl (nfpXpbToCpp_ne_mus _ _ _), fun x => ?_⟩
  change Except ℤ UInt32 at x
  cases x with
  | error err => trivial
  | ok value => trivial

/-- So does the read of the register that has the locality of the MU. -/
theorem nfpMipMuLocalityLsb_within :
    (nfpMipMuLocalityLsb host).Within (CppOp.Leaves a) fun _ => True := by
  refine within_bind.mpr ((nfpXpbReadl_within _).mono (fun _ => id) fun imbcppat _ => ?_)
  cases imbcppat with
  | error err => trivial
  | ok imbcppat => trivial

/-- So does what finds the place of the MIP. -/
theorem nfpNffwInfoMipFirst_within (state : NfpNffwInfo) :
    (nfpNffwInfoMipFirst state host).Within (CppOp.Leaves a) fun _ => True := by
  unfold nfpNffwInfoMipFirst
  split
  · trivial
  dsimp only
  split_ifs
  · trivial
  · refine within_bind.mpr (nfpMipMuLocalityLsb_within.mono (fun _ => id) fun lsb _ => ?_)
    cases lsb with
    | error err => trivial
    | ok localityOff => trivial
  · trivial

/-- So does the read of the MIP. -/
theorem nfpMipTryRead_within (cppId : UInt32) (addr : UInt64) :
    (nfpMipTryRead cppId addr).Within (CppOp.Leaves a) fun _ => True := by
  refine ⟨trivial, fun x => ?_⟩
  cases x with
  | error err => trivial
  | ok bytes =>
    dsimp only
    split_ifs <;> trivial

/-- So do the reads of the symbol table and its strings. -/
theorem nfpRtsymTableReadMip_within (malloc : Bool × Bool) (mip : List UInt8) :
    (nfpRtsymTableReadMip malloc mip).Within (CppOp.Leaves a) fun _ => True := by
  unfold nfpRtsymTableReadMip
  dsimp only
  split
  · trivial
  split
  · trivial
  split
  · trivial
  refine ⟨trivial, fun x => ?_⟩
  cases x with
  | error err => trivial
  | ok rtsymtab =>
    dsimp only
    split
    · trivial
    refine ⟨trivial, fun y => ?_⟩
    cases y with
    | error err => trivial
    | ok strtab => trivial

/-- So does the check of the NSP, whose handle keeps its resource. -/
theorem nfpNspCheck_within (state : NfpNsp) :
    (nfpNspCheck state).Within (CppOp.Leaves a) fun q => q.2.res = state.res := by
  refine ⟨trivial, fun x => ?_⟩
  change Except ℤ UInt64 at x
  cases x with
  | error err => rfl
  | ok reg =>
    dsimp only
    split_ifs <;> rfl

end Reads

section Held

variable {held : List NfpResource} {waits : ℕ}

/-- A call that keeps what the process holds. -/
abbrev KeepsHeld (a : UInt64) (i : UInt16) (held : List NfpResource) (host : NfpCppHost)
    (r : CppProg (Outcome β)) : Prop :=
  Serves a i host r fun _ host' => HostState.Ok i (.done held host')

/-- What is acquired is held from then on. -/
theorem serves_acquire_held (hok : HostState.Ok i (.done held host))
    (hbound : held.length + 2 < 2 ^ 32) (malloc : Bool) (name : List UInt8) :
    Serves a i host (nfpResourceAcquire calloc malloc waits name host) fun res host' =>
      HostState.Ok i (.done (res.toList ++ held) host') := by
  obtain ⟨loc, h, hheld⟩ := hok
  have husers (p : ℕ) : users held p + 2 < 2 ^ 32 :=
    lt_of_le_of_lt (Nat.add_le_add_right List.countP_le_length 2) hbound
  -- the resources held before
  have hkeep {loc' : ℕ → UInt64} (hagree : AgreeOn (users held) loc loc') :
      ∀ res ∈ held, ∃ p j, res.mutex = some p ∧ j < nfpResourceTblEntries ∧
        loc' p = resourceAddr j := by
    intro res hres
    obtain ⟨p, j, hp, hj, hloc⟩ := hheld res hres
    exact ⟨p, j, hp, hj, (hagree p (users_pos hres hp)).trans hloc⟩
  -- nothing was acquired, or one more resource with a handle
  refine (serves_acquire h husers malloc name).mono fun r host' hr => ?_
  cases r with
  | none =>
    obtain ⟨loc', hagree, h'⟩ := hr
    exact ⟨loc', h', hkeep hagree⟩
  | some res =>
    obtain ⟨loc', p, j, hagree, hp, hj, hloc, h'⟩ := hr
    refine ⟨loc', ?_, fun res' hres' => ?_⟩
    · rw [Option.toList_some, List.singleton_append, users_cons hp]
      exact h'
    · obtain rfl | hres' := List.mem_cons.mp hres'
      · exact ⟨p, j, hp, hj, hloc⟩
      · exact hkeep hagree res' hres'

/-- What is released is not held any more. -/
theorem serves_release_held {res : NfpResource} (hok : HostState.Ok i (.done held host))
    (hres : res ∈ held) :
    KeepsHeld a i (held.erase res) host (nfpResourceRelease res host) := by
  obtain ⟨loc, h, hheld⟩ := hok
  obtain ⟨p, j, hp, hj, hloc⟩ := hheld res hres
  refine (serves_release h (users_pos hres hp) hp le_rfl).mono fun _ host' h' => ?_
  refine ⟨loc, ?_, fun res' hres' => hheld res' (List.mem_of_mem_erase hres')⟩
  rwa [users_erase hres hp]

/-- The resource that has been acquired last is released. -/
theorem serves_release_last {res : NfpResource}
    (hok : HostState.Ok i (.done (res :: held) host)) :
    KeepsHeld a i held host (nfpResourceRelease res host) := by
  have hrelease := serves_release_held (a := a) hok List.mem_cons_self
  rwa [List.erase_cons_head] at hrelease

section Callers

variable (hok : HostState.Ok i (.done held host)) (hbound : held.length + 2 < 2 ^ 32)

include hok hbound

/-- The table of the board is read after its resource has been given back. -/
theorem serves_hwinfoTryFetch (malloc : Bool × Bool) :
    KeepsHeld a i held host (nfpHwinfoTryFetch calloc malloc waits host) := by
  refine (serves_acquire_held hok hbound malloc.1 _).andThen fun res host h => ?_
  cases res with
  | none => exact .done h
  | some res =>
    refine (serves_release_last h).andThen fun _ host h => ?_
    split_ifs
    · exact .done h
    · refine .read fun x => ?_
      cases x with
      | error err => exact .done h
      | ok bytes =>
        dsimp only
        split_ifs <;> exact .done h
    · exact .done h

/-- However often that is tried. -/
theorem serves_hwinfoFetchLoop (malloc : ℕ → Bool × Bool) (n : ℕ) :
    KeepsHeld a i held host (hwinfoFetchLoop calloc malloc waits n host) := by
  -- the handles of the process are those of the attempt before
  induction n generalizing host with
  | zero =>
    refine (serves_hwinfoTryFetch hok hbound _).andThen fun db host h => ?_
    split <;> exact .done h
  | succ n ih =>
    refine (serves_hwinfoTryFetch hok hbound _).andThen fun db host h => ?_
    split
    · exact .done h
    · exact ih h

/-- **`nfp_hwinfo_read`.** -/
theorem serves_hwinfoRead (malloc : ℕ → Bool × Bool) :
    KeepsHeld a i held host (nfpHwinfoRead calloc malloc waits host) :=
  (serves_hwinfoFetchLoop hok hbound malloc _).andThen fun _ _ h => .done h

/-- The resource of the table of the firmware is held while it is open. -/
theorem serves_nffwInfoOpen (malloc : Bool × Bool) :
    Serves a i host (nfpNffwInfoOpen calloc malloc waits host) fun state host' =>
      HostState.Ok i (.done ((state.map NfpNffwInfo.res).toList ++ held) host') := by
  unfold nfpNffwInfoOpen
  split_ifs
  · refine (serves_acquire_held hok hbound malloc.2 _).andThen fun res host h => ?_
    cases res with
    | none => exact .done h
    | some res =>
      -- every error path gives the resource back
      have herr : Serves a i host ((nfpResourceRelease res host).andThen fun _ host =>
          (.ret (.done none host) : CppProg (Outcome (Option NfpNffwInfo)))) fun state host' =>
            HostState.Ok i (.done ((state.map NfpNffwInfo.res).toList ++ held) host') :=
        (serves_release_last h).andThen fun _ host h => .done h
      dsimp only
      split_ifs
      · exact herr
      · refine .read fun x => ?_
        cases x with
        | error err => exact herr
        | ok bytes =>
          dsimp only
          split_ifs
          · exact herr
          · exact herr
          · exact .done h
  · exact .done hok

/-- The MIP is read and closed. -/
theorem serves_mipOpen (malloc : Bool × Bool × Bool) :
    KeepsHeld a i held host (nfpMipOpen calloc malloc waits host) := by
  unfold nfpMipOpen
  split_ifs
  · -- the resource is held while the MIP is read, and given back however that ends
    have hread : KeepsHeld a i held host (nfpMipReadResource calloc malloc.2 waits host) := by
      refine (serves_nffwInfoOpen hok hbound malloc.2).andThen fun state host h => ?_
      cases state with
      | none => exact .done h
      | some state =>
        refine .ofReads (R := fun _ => True) (within_bind.mpr ?_) fun mip _ => ?_
        · refine (nfpNffwInfoMipFirst_within state).mono (fun _ => id) fun q _ => ?_
          cases q with
          | error err => trivial
          | ok q => exact nfpMipTryRead_within _ _
        · exact (serves_release_last h).andThen fun _ host h => .done h
    refine hread.andThen fun mip host h => ?_
    cases mip with
    | error err => exact .done h
    | ok mip => exact .done h
  · exact .done hok

/-- **`nfp_rtsym_table_read`.** -/
theorem serves_rtsymTableRead (malloc : (Bool × Bool × Bool) × Bool × Bool) :
    KeepsHeld a i held host (nfpRtsymTableRead calloc malloc waits host) := by
  refine (serves_mipOpen hok hbound malloc.1).andThen fun mip host h => ?_
  -- without a MIP nothing is read
  cases mip with
  | none => exact .done h
  | some mip => exact .ofReads (nfpRtsymTableReadMip_within malloc.2 mip) fun rtbl _ => .done h

/-- **`nfp_nsp_open`.** The resource of the NSP is held while it is open. -/
theorem serves_nspOpen (malloc : Bool × Bool) :
    Serves a i host (nfpNspOpen calloc malloc waits host) fun state host' =>
      HostState.Ok i (.done ((state.map NfpNsp.res).toList ++ held) host') := by
  refine (serves_acquire_held hok hbound malloc.1 _).andThen fun res host h => ?_
  cases res with
  | none => exact .done h
  | some res =>
    dsimp only
    split_ifs
    · -- the check reads the status, and leaves the handle its resource
      refine .ofReads (nfpNspCheck_within _) fun q hres => ?_
      obtain ⟨err, state⟩ := q
      obtain rfl : state.res = res := hres
      dsimp only
      split_ifs
      -- no memory for the handle of the NSP: the resource is given back
      · exact (serves_release_last h).andThen fun _ host h => .done h
      · exact .done h
    · exact (serves_release_last h).andThen fun _ host h => .done h

end Callers

end Held

/-- A process that acquires a resource holds it, if there is one. -/
def acquireCall (calloc : ℕ → Bool) (malloc : Bool) (waits : ℕ) (name : List UInt8)
    (held : List NfpResource) (host : NfpCppHost) : CppProg HostState :=
  (nfpResourceAcquire calloc malloc waits name host).andThen fun res host =>
    .ret (.done (res.toList ++ held) host)

/-- One that releases a resource does not hold it any more. -/
def releaseCall (res : NfpResource) (held : List NfpResource) (host : NfpCppHost) :
    CppProg HostState :=
  (nfpResourceRelease res host).andThen fun _ host => .ret (.done (held.erase res) host)

/-- A function that releases what it acquires. -/
def keepingCall (r : CppProg (Outcome β)) (held : List NfpResource) : CppProg HostState :=
  r.andThen fun _ host => .ret (.done held host)

/-- One that opens the NSP holds its resource. -/
def nspOpenCall (calloc : ℕ → Bool) (malloc : Bool × Bool) (waits : ℕ)
    (held : List NfpResource) (host : NfpCppHost) : CppProg HostState :=
  (nfpNspOpen calloc malloc waits host).andThen fun state host =>
    .ret (.done ((state.map NfpNsp.res).toList ++ held) host)

/-- What a process may do next. It releases what it holds, which is how it closes the NSP, and it
holds fewer resources than a handle can count. A process may also begin anew. -/
inductive ResourceBegins (i : UInt16) : CppProg HostState → CppProg HostState → Prop where
  | acquire {held : List NfpResource} {host : NfpCppHost} (calloc : ℕ → Bool) (malloc : Bool)
      (waits : ℕ) (name : List UInt8) : held.length + 2 < 2 ^ 32 →
      ResourceBegins i (.ret (.done held host)) (acquireCall calloc malloc waits name held host)
  | release {held : List NfpResource} {host : NfpCppHost} {res : NfpResource} : res ∈ held →
      ResourceBegins i (.ret (.done held host)) (releaseCall res held host)
  | hwinfoRead {held : List NfpResource} {host : NfpCppHost} (calloc : ℕ → Bool)
      (malloc : ℕ → Bool × Bool) (waits : ℕ) : held.length + 2 < 2 ^ 32 →
      ResourceBegins i (.ret (.done held host))
        (keepingCall (nfpHwinfoRead calloc malloc waits host) held)
  | rtsymTableRead {held : List NfpResource} {host : NfpCppHost} (calloc : ℕ → Bool)
      (malloc : (Bool × Bool × Bool) × Bool × Bool) (waits : ℕ) : held.length + 2 < 2 ^ 32 →
      ResourceBegins i (.ret (.done held host))
        (keepingCall (nfpRtsymTableRead calloc malloc waits host) held)
  | nspOpen {held : List NfpResource} {host : NfpCppHost} (calloc : ℕ → Bool)
      (malloc : Bool × Bool) (waits : ℕ) : held.length + 2 < 2 ^ 32 →
      ResourceBegins i (.ret (.done held host)) (nspOpenCall calloc malloc waits held host)
  | restart {r : CppProg HostState} {host : NfpCppHost} : FreshHost i host →
      ResourceBegins i r (.ret (.done [] host))

/-- **Whatever a process begins, it uses each mutex as a client.** -/
theorem ResourceBegins.client {r r' : CppProg HostState} (hr : r.All (HostState.Ok i))
    (h : ResourceBegins i r r') :
    (∃ x, r = .ret x ∧ Client a (Knows a i) i (x.depthAt a) r') ∨ Client a (Knows a i) i 0 r' := by
  cases h with
  | acquire calloc malloc waits name hbound =>
    refine .inl ⟨_, rfl, Serves.knows ?_⟩
    exact (serves_acquire_held hr hbound malloc name).andThen fun _ _ h => .done h
  | release hres =>
    refine .inl ⟨_, rfl, Serves.knows ?_⟩
    exact (serves_release_held hr hres).andThen fun _ _ h => .done h
  | hwinfoRead calloc malloc waits hbound =>
    refine .inl ⟨_, rfl, Serves.knows ?_⟩
    exact (serves_hwinfoRead hr hbound malloc).andThen fun _ _ h => .done h
  | rtsymTableRead calloc malloc waits hbound =>
    refine .inl ⟨_, rfl, Serves.knows ?_⟩
    exact (serves_rtsymTableRead hr hbound malloc).andThen fun _ _ h => .done h
  | nspOpen calloc malloc waits hbound =>
    refine .inl ⟨_, rfl, Serves.knows ?_⟩
    exact (serves_nspOpen hr hbound malloc).andThen fun _ _ h => .done h
  | restart hfresh => exact .inr (.ret ⟨⟨_, .fresh hfresh, nofun⟩, hfresh.depthAt⟩)

/-! ### Every order of the accesses

The counts of each process are its own, so that they are kept whatever the others do. Only that a
mutex has one holder is a fact about all of them. -/

section System

variable {P : Type} [DecidableEq P] {iface : P → UInt16} {m : MuMemory}
  {c : Config P CppOp CppOp.Answer HostState MuMemory} {q : P}
  {h : List (Transition (Config P CppOp CppOp.Answer HostState MuMemory)
    (Event P CppOp CppOp.Answer HostState))}

/-- The processes, without handles, and the memory `m` of the device. -/
def resourceInit (iface : P → UInt16) (m : MuMemory)
    (c : Config P CppOp CppOp.Answer HostState MuMemory) : Prop :=
  c.dev = m ∧ ∀ p, ∃ host, FreshHost (iface p) host ∧ c.prog p = .ret (.done [] host)

/-- The processes on one memory of the device, with their accesses in any order. -/
def resourceSystem (iface : P → UInt16) (m : MuMemory) :
    System (Config P CppOp CppOp.Answer HostState MuMemory)
      (Event P CppOp CppOp.Answer HostState) :=
  parallel (resourceInit iface m) muDevice fun p => ResourceBegins (iface p)

/-- **A run of the processes is one of the clients of each mutex.** -/
theorem resourceRun_mutex (a : UInt64) (he : Exec (resourceSystem iface m) h c) :
    Exec (mutexSystem iface a (HostState.depthAt a) m) h c ∧
      ∀ p, (c.prog p).All (HostState.Ok (iface p)) := by
  have htells {p : P} {n : UInt16} {r : CppProg HostState}
      (hr : Client a (Knows a (iface p)) (iface p) n r) :
      Client a (tells (HostState.depthAt a)) (iface p) n r ∧ r.All (HostState.Ok (iface p)) := by
    refine ⟨hr.mono fun x n hx => hx.2, hr.all.mono (fun _ => id) fun x hx => ?_⟩
    obtain ⟨n, hok, -⟩ := hx
    exact hok
  -- at the start no process has a handle, and what a process begins is a client again
  refine exec_of_begins (fun c hc => ?_) (fun p r r' hr hbegins => ?_) he
  · obtain ⟨rfl, hprog⟩ := hc
    refine ⟨⟨rfl, fun p => ?_⟩, fun p => ?_⟩
    · obtain ⟨host, hfresh, hp⟩ := hprog p
      exact ⟨_, hp, hfresh.depthAt⟩
    · obtain ⟨host, hfresh, hp⟩ := hprog p
      rw [hp]
      exact ⟨_, .fresh hfresh, nofun⟩
  · obtain ⟨x, hx, hclient⟩ | hclient := hbegins.client (a := a) hr
    · exact ⟨.inl ⟨x, hx, (htells hclient).1⟩, (htells hclient).2⟩
    · exact ⟨.inr (htells hclient).1, (htells hclient).2⟩

/-- A process that is between two calls holds a resource with the mutex at `a`. -/
def HoldsResource (c : Config P CppOp CppOp.Answer HostState MuMemory) (a : UInt64) (p : P) :
    Prop :=
  ∃ held host, c.prog p = .ret (.done held host) ∧
    ∃ res ∈ held, ∃ q m, res.mutex = some q ∧ host.mutexAt q = some m ∧ m.address = a

/-- The handles of a process that holds the resources `held`. -/
structure HandlesOf (held : List NfpResource) (host : NfpCppHost) : Prop where
  /-- There is a handle as long as a resource has it, and it counts them. -/
  live : ∀ q, (∃ m, host.mutexAt q = some m) ↔ ∃ res ∈ held, res.mutex = some q
  usage : ∀ q m, host.mutexAt q = some m → m.usage.toNat = users held q
  /-- Every resource is locked, as often as the process holds it. -/
  locked : ∀ res ∈ held, ∃ q m j, res.mutex = some q ∧ host.mutexAt q = some m ∧
    m.target = nfpCppTargetMu ∧ j < nfpResourceTblEntries ∧ m.address = resourceAddr j ∧
      users held q ≤ m.depth.toNat
  /-- The cache is a list of the handles. -/
  list : ∃ xs, LinkedList.IsList host.nextOf host.prevOf xs ∧
    ∀ q, q ∈ xs ↔ ∃ res ∈ held, res.mutex = some q

/-- What the counts say of the handles. -/
theorem HostState.Ok.handlesOf {held : List NfpResource} (hok : HostState.Ok i (.done held host)) :
    HandlesOf held host := by
  obtain ⟨loc, hhost, hheld⟩ := hok
  obtain ⟨xs, hcache⟩ := hhost.cache
  -- the cache lists the handles with users
  have hmem (q : ℕ) : q ∈ xs ↔ ∃ res ∈ held, res.mutex = some q := by
    rw [hcache.held q, users, List.countP_pos_iff]
    simp only [decide_eq_true_eq]
  refine ⟨fun q => hcache.mem_iff.symm.trans (hmem q), fun q m hm => ?_, fun res hres => ?_,
    xs, hcache.list, hmem⟩
  · obtain ⟨node, hnode, rfl⟩ := NfpCppHost.mutexAt_eq_some.mp hm
    exact hcache.usage q node hnode
  · obtain ⟨q, j, hq, hj, hloc⟩ := hheld res hres
    obtain ⟨m, hm⟩ := hhost.exists_mutex (users_pos hres hq)
    obtain ⟨ht, ha⟩ := hhost.mu q m hm
    exact ⟨q, m, j, hq, hm, ht, hj, ha.trans hloc, hhost.holds_le hm⟩

/-- Whether one of the resources in `held` has its mutex at `a`. -/
def HostState.holdsAt (a : UInt64) : HostState → Bool
  | .done held host =>
    held.any fun res => (res.mutex.bind host.mutexAt).any fun m => decide (m.address = a)
  | _ => false

/-- In terms of the resource and its handle. -/
theorem HostState.holdsAt_iff {x : HostState} : x.holdsAt a = true ↔
    ∃ held host, x = .done held host ∧
      ∃ res ∈ held, ∃ q m, res.mutex = some q ∧ host.mutexAt q = some m ∧ m.address = a := by
  cases x with
  | done held host =>
    simp only [holdsAt, List.any_eq_true, Option.any_eq_true, Option.bind_eq_some_iff,
      decide_eq_true_eq, Outcome.done.injEq]
    constructor
    · rintro ⟨res, hres, m, ⟨q, hq, hm⟩, ha⟩
      exact ⟨held, host, ⟨rfl, rfl⟩, res, hres, q, m, hq, hm, ha⟩
    · rintro ⟨_, _, ⟨rfl, rfl⟩, res, hres, q, m, hq, hm, ha⟩
      exact ⟨res, hres, m, ⟨q, hq, hm⟩, ha⟩
  | waiting host => simp [holdsAt]
  | nullMutex host => simp [holdsAt]
  | badMutex => simp [holdsAt]

/-- Whether the process has halted at the handle NULL. -/
def HostState.isNull : HostState → Bool
  | .nullMutex _ => true
  | _ => false

/-- `nfp.sp`. -/
def spName : List UInt8 := [110, 102, 112, 46, 115, 112]

/-- A table with this resource in its entry 1. -/
def spTable : MuMemory :=
  Function.update (fun _ => 0) (resourceAddr 1 + 4) (nfpCrc32Posix (namePad spName))

/-- The first of two hosts tries to acquire it. -/
def spCall (calloc : ℕ → Bool) : CppProg HostState :=
  acquireCall calloc true 1 spName [] { freshHost with interface := hostIface false }

/-- The answers of the memory make one run of the two hosts. -/
theorem spCall_reachable (calloc : ℕ → Bool) :
    ∃ c, (resourceSystem hostIface spTable).Reachable c ∧
      c.prog false = .ret ((spCall calloc).runOn muAnswer spTable).1 := by
  let host (p : Bool) : NfpCppHost := { freshHost with interface := hostIface p }
  have hinit : (resourceSystem hostIface spTable).Reachable
      ⟨spTable, fun p => .ret (.done [] (host p))⟩ :=
    .init ⟨rfl, fun _ => ⟨_, ⟨rfl, rfl, rfl⟩, rfl⟩⟩
  have hbegins : ResourceBegins (hostIface false) (.ret (.done [] (host false))) (spCall calloc) :=
    .acquire calloc true 1 spName (by decide)
  refine ⟨_, reachable_of_begins hinit (p := false) rfl hbegins
    (runs_runOn muDevice_muAnswer _ spTable), ?_⟩
  dsimp only
  rw [Function.update_self]

/-- With memory for its handles it gets it. -/
theorem spHeld_reachable : ∃ c, (resourceSystem hostIface spTable).Reachable c ∧
    HoldsResource c (resourceAddr 1) false := by
  have hheld : ((spCall fun _ => true).runOn muAnswer spTable).1.holdsAt (resourceAddr 1) =
      true := by decide +kernel
  obtain ⟨c, hc, hprog⟩ := spCall_reachable fun _ => true
  obtain ⟨held, host, hdone, h⟩ := HostState.holdsAt_iff.mp hheld
  exact ⟨c, hc, held, host, hprog.trans (congrArg Prog.ret hdone), h⟩

/-- **The handles of every process.** No call uses a handle that has been freed, and between its
calls a process has exactly the handles of the resources it holds. What is not excluded is that a
process halts at the handle NULL: `nfp_cpp_resource_find` does not look at whether it has got a
mutex for the resource. -/
theorem resourceSystem_safe (hc : (resourceSystem iface m).Reachable c) (p : P) :
    c.prog p ≠ .ret .badMutex ∧
      ∀ held host, c.prog p = .ret (.done held host) → HandlesOf held host := by
  obtain ⟨h, he⟩ := hc
  have hall := (resourceRun_mutex 0 he).2 p
  constructor
  · intro hbad
    rw [hbad] at hall
    exact hall
  · intro held host hp
    rw [hp] at hall
    exact HostState.Ok.handlesOf hall

/-- The first of two hosts holds `nfp.sp`. -/
theorem resourceSystem_safe_held : ∃ c held host,
    (resourceSystem hostIface spTable).Reachable c ∧ c.prog false = .ret (.done held host) ∧
    held ≠ [] ∧ HandlesOf held host := by
  obtain ⟨c, hc, held, host, hdone, res, hres, -⟩ := spHeld_reachable
  exact ⟨c, held, host, hc, hdone, List.ne_nil_of_mem hres,
    (resourceSystem_safe hc false).2 held host hdone⟩

/-- Without memory for the mutex of the resource the host halts at NULL. -/
example : ∃ c host, (resourceSystem hostIface spTable).Reachable c ∧
    c.prog false = .ret (.nullMutex host) := by
  obtain ⟨c, hc, hprog⟩ := spCall_reachable fun k => k = 0
  have hnull : ((spCall fun k => k = 0).runOn muAnswer spTable).1.isNull = true := by
    decide +kernel
  cases hout : ((spCall fun k => k = 0).runOn muAnswer spTable).1 with
  | nullMutex host => exact ⟨c, host, hc, hprog.trans (congrArg Prog.ret hout)⟩
  | done | waiting | badMutex =>
    rw [hout] at hnull
    cases hnull

/-- **A resource has one holder.** -/
theorem resource_exclusive (hinj : Function.Injective iface)
    (hname : ∀ p, iface p ≠ 0 ∧ iface p ≠ mutexInterface (m a))
    (hfree : mutexIsUnlocked (m a) = true) (hc : (resourceSystem iface m).Reachable c) {p q : P}
    (hp : HoldsResource c a p) (hq : HoldsResource c a q) : p = q := by
  obtain ⟨h, he⟩ := hc
  obtain ⟨he', hall⟩ := resourceRun_mutex a he
  -- a process that holds the resource has locked its mutex at least once
  have hholds {p : P} (hp : HoldsResource c a p) : HoldsMutex (HostState.depthAt a) c p := by
    obtain ⟨held, host, hprog, res, hres, r, m, hr, hm, ha⟩ := hp
    have hok := hall p
    rw [hprog] at hok
    obtain ⟨loc, hhost, -⟩ := hok
    obtain ⟨xs, hcache⟩ := hhost.cache
    refine ⟨_, hprog, UInt16.lt_iff_toNat_lt.mpr ?_⟩
    change 0 < (host.depthAt a).toNat
    rw [hcache.depthAt_eq hm ⟨(hhost.mu r m hm).1, ha⟩]
    exact lt_of_lt_of_le (users_pos hres hr) (hhost.holds_le hm)
  have hw : LockWord iface .free (m a) := ⟨hfree, fun p => (hname p).2.symm⟩
  exact mutex_exclusive hinj (fun p => (hname p).1) hw he'.reachable (hholds hp) (hholds hq)

/-- While the first host holds `nfp.sp`, the second does not. -/
theorem resource_exclusive_hosts : ∃ c, HoldsResource c (resourceAddr 1) false ∧
    ¬HoldsResource c (resourceAddr 1) true := by
  have hfree : mutexIsUnlocked (spTable (resourceAddr 1)) = true := by decide +kernel
  have hname (p : Bool) : hostIface p ≠ 0 ∧
      hostIface p ≠ mutexInterface (spTable (resourceAddr 1)) := by
    cases p <;> decide +kernel
  obtain ⟨c, hc, hheld⟩ := spHeld_reachable
  refine ⟨c, hheld, fun hother => ?_⟩
  exact Bool.false_ne_true (resource_exclusive hostIface_injective hname hfree hc hheld hother)

end System

end NfpUdpEcho
