import NfpUdpEcho.NfpCore.MutexCache
import NfpUdpEcho.NfpCore.MutexSafety
import NfpUdpEcho.NfpCore.Resource

/-!
# What a call does to the handles of a process

`HostOk` counts for every handle of a process its users and how often the process relies on having
locked it. `Serves` is a call of the process: it uses each mutex as a client (`Client`), and it
changes the counts. `serves_acquire` and `serves_release` are the calls for resources.

The counts are ghost state: nothing in the code says how many users a handle has in this process, or
that a user relies on its lock. They are what `nfp_resource_acquire` needs to be right. It locks the
mutex of the table, and frees that handle again on every path; the handle of the resource it keeps
only with the lock. Both handles may be one, when a resource has the location of the table, so each
step says what it does to the counts (`addOne`, `subOne`) rather than which handles there are, and
the steps of a path cancel (`subOne_addOne`, `subOne_addOne_addOne`).

The two facts that carry the proofs:

* `serves_callMutex` — a call on a handle changes that node of the cache alone. What the depth in
  the node means for the mutex at `a` is in `HostOk.locks` and `serves_unlock`: a lock that succeeds
  raises the depth by one without reaching its maximum, and an unlock lowers it by at most one.
* `holds_eq_zero_of_first` — a handle that has just been allocated anew is one the process does not
  rely on. So the paths that free it again lose no lock (`serves_free` asks for that of the last
  user).
-/

namespace NfpUdpEcho

open Access Prog LTS

/-! ### The counts of a process

`refs` and `holds` are functions on handles, and every step of a call is one `addOne` or `subOne` on
them. -/

/-- One more for `p`. -/
def addOne (f : ℕ → ℕ) (p : ℕ) : ℕ → ℕ := Function.update f p (f p + 1)

/-- One less for `p`. -/
def subOne (f : ℕ → ℕ) (p : ℕ) : ℕ → ℕ := Function.update f p (f p - 1)

section Counts

variable {f : ℕ → ℕ} {p q : ℕ}

@[simp] theorem addOne_self : addOne f p p = f p + 1 := Function.update_self ..

@[simp] theorem addOne_of_ne (h : q ≠ p) : addOne f p q = f q := Function.update_of_ne h ..

@[simp] theorem subOne_self : subOne f p p = f p - 1 := Function.update_self ..

@[simp] theorem subOne_of_ne (h : q ≠ p) : subOne f p q = f q := Function.update_of_ne h ..

theorem addOne_pos : 0 < addOne f p p := by
  rw [addOne_self]
  exact Nat.succ_pos _

theorem le_addOne : f q ≤ addOne f p q := by
  by_cases h : q = p
  · subst h
    rw [addOne_self]
    exact Nat.le_succ _
  · rw [addOne_of_ne h]

@[simp] theorem subOne_addOne : subOne (addOne f p) p = f := by
  funext q
  by_cases h : q = p
  · subst h
    simp
  · simp [h]

/-- What has been added last need not be taken back first. -/
theorem subOne_addOne_addOne : subOne (addOne (addOne f p) q) p = addOne f q := by
  funext r
  by_cases hp : r = p <;> by_cases hq : r = q
  · subst hp hq
    simp
  · subst hp
    simp [hq]
  · subst hq
    simp [hp]
  · simp [hp, hq]

end Counts

/-- The handles of a process of the interface `i`: `refs` are their users, `holds` is how often
the process relies on having locked them, and `loc` are the addresses of their mutexes. -/
structure HostOk (i : UInt16) (host : NfpCppHost) (refs holds : ℕ → ℕ) (loc : ℕ → UInt64) :
    Prop where
  cache : ∃ xs, CacheOk host refs xs
  interface : host.interface = i
  mu : ∀ p m, host.mutexAt p = some m → m.target = nfpCppTargetMu ∧ m.address = loc p
  locked : ∀ p, holds p ≤ (host.depthOf p).toNat

variable {i : UInt16} {host host' : NfpCppHost} {refs holds : ℕ → ℕ} {loc loc' : ℕ → UInt64}
  {a address : UInt64} {key : UInt32} {calloc : ℕ → Bool} {p : ℕ} {α β : Type}

namespace HostOk

theorem exists_mutex (h : HostOk i host refs holds loc) (hp : 0 < refs p) :
    ∃ m, host.mutexAt p = some m := by
  obtain ⟨xs, hok⟩ := h.cache
  exact hok.mem_iff.mp ((hok.held p).mpr hp)

/-- A process relies on no handle that it does not have. -/
theorem holds_eq_zero (h : HostOk i host refs holds loc) (hp : refs p = 0) : holds p = 0 := by
  obtain ⟨xs, hok⟩ := h.cache
  have hnone : host.mutexAt p = none := by
    refine Option.eq_none_iff_forall_ne_some.mpr fun m hm => ?_
    exact absurd ((hok.held p).mp (hok.mem_iff.mpr ⟨m, hm⟩)) (by rw [hp]; exact lt_irrefl 0)
  have hle := h.locked p
  rw [NfpCppHost.depthOf, hnone] at hle
  exact Nat.le_zero.mp hle

/-- Nor on one that it has just got. -/
theorem holds_eq_zero_of_first (h : HostOk i host refs holds loc) (h1 : addOne refs p p = 1) :
    holds p = 0 :=
  h.holds_eq_zero (Nat.succ.inj (addOne_self.symm.trans h1))

/-- The mutex at `p` is another one now. -/
theorem change {refs' holds' : ℕ → ℕ} {xs : List ℕ} {m : Option NfpCppMutex}
    (h : HostOk i host refs holds loc) (hok : CacheOk host' refs' xs)
    (hc : Changed host host' p m)
    (hm : ∀ m₁, m = some m₁ → m₁.target = nfpCppTargetMu ∧ m₁.address = loc' p)
    (hloc : ∀ q, q ≠ p → loc' q = loc q) (hholds : ∀ q, q ≠ p → holds' q ≤ holds q)
    (hp : holds' p ≤ ((m.map NfpCppMutex.depth).getD 0).toNat) :
    HostOk i host' refs' holds' loc' := by
  -- a handle other than `p` is what it was, in the cache as well as in the counts
  refine ⟨⟨xs, hok⟩, hc.interface.trans h.interface, fun q m₁ hm₁ => ?_, fun q => ?_⟩
  · by_cases hq : q = p
    · subst hq
      rw [hc.mutexAt, Function.update_self] at hm₁
      exact hm m₁ hm₁
    · rw [hc.mutexAt, Function.update_of_ne hq] at hm₁
      rw [hloc q hq]
      exact h.mu q m₁ hm₁
  · by_cases hq : q = p
    · subst hq
      rw [NfpCppHost.depthOf, hc.mutexAt, Function.update_self]
      exact hp
    · rw [NfpCppHost.depthOf, hc.mutexAt, Function.update_of_ne hq]
      exact (hholds q hq).trans (h.locked q)

end HostOk

/-! ### What a call does

A call of the process ends with a result and the handles (`done`), waits for a mutex without end
(`waiting`), or has come to a handle that is NULL or gone. Only the last is excluded; a process that
has halted at NULL is taken to hold nothing any more. -/

namespace Outcome

/-- What is known after a call, and how often the process has locked the mutex at `a` then. A
process that uses no mutex has died. -/
def Post (a : UInt64) (Q : α → NfpCppHost → Prop) : Outcome α → UInt16 → Prop
  | .done b host, n => n = host.depthAt a ∧ Q b host
  | .waiting host, n => n = host.depthAt a
  | .nullMutex _, n => n = 0
  | .badMutex, _ => False

end Outcome

/-- A call of a process with the handles of `host`. -/
def Serves (a : UInt64) (i : UInt16) (host : NfpCppHost) (r : CppProg (Outcome α))
    (Q : α → NfpCppHost → Prop) : Prop :=
  Client a (Outcome.Post a Q) i (host.depthAt a) r

namespace Serves

variable {r : CppProg (Outcome α)} {Q Q' : α → NfpCppHost → Prop}

theorem done {b : α} (h : Q b host) : Serves a i host (.ret (.done b host)) Q := .ret ⟨rfl, h⟩

theorem nullMutex : Serves a i host (.ret (.nullMutex host)) Q := .forget (.ret rfl)

theorem mono (h : Serves a i host r Q) (hQ : ∀ b host, Q b host → Q' b host) :
    Serves a i host r Q' := by
  refine Client.mono h fun out n hout => ?_
  -- only a call that is done says something of its result
  cases out with
  | done b host => exact ⟨hout.1, hQ b host hout.2⟩
  | waiting host => exact hout
  | nullMutex host => exact hout
  | badMutex => exact hout

/-- One call after the other. -/
theorem andThen {f : α → NfpCppHost → CppProg (Outcome β)} {Q' : β → NfpCppHost → Prop}
    (h : Serves a i host r Q) (hf : ∀ b host, Q b host → Serves a i host (f b host) Q') :
    Serves a i host (r.andThen f) Q' := by
  refine Client.bind h fun out n hout => ?_
  cases out with
  | done b host =>
    obtain ⟨rfl, hb⟩ := hout
    exact hf b host hb
  | waiting host => exact .ret hout
  | nullMutex host => exact .ret hout
  | badMutex => exact hout.elim

/-- An access that is not to a lock word. -/
theorem read {cppId : UInt32} {address : UInt64} {length : ℕ}
    {k : Except ℤ (Fin length → UInt8) → CppProg (Outcome α)}
    (hk : ∀ x, Serves a i host (k x) Q) :
    Serves a i host (.access (.read cppId address length) k) Q := .other trivial hk

end Serves

/-- A call that changes the handle at `p`. -/
theorem serves_callMutex {call : NfpCppMutex → CppProg (β × NfpCppMutex)}
    {R : β × NfpCppMutex → Prop} {m : NfpCppMutex} (h : HostOk i host refs holds loc)
    (hm : host.mutexAt p = some m) (hR : ∀ b m', R (b, m') → ∃ d, m' = { m with depth := d })
    (hcall : ∀ n, (m.address = a → n = m.depth) →
      Client a (fun q n' => R q ∧ n' = if m.address = a then q.2.depth else n) i n (call m)) :
    Serves a i host (callMutex (some p) host call) fun b host' => ∃ d,
      R (b, { m with depth := d }) ∧ ∃ xs, CacheOk host' refs xs ∧
        Changed host host' p (some { m with depth := d }) := by
  obtain ⟨xs, hok⟩ := h.cache
  obtain ⟨ht, -⟩ := h.mu p m hm
  obtain ⟨node, hnode, rfl⟩ := NfpCppHost.mutexAt_eq_some.mp hm
  -- the call gets the mutex of the node, and what it leaves is stored there
  unfold callMutex
  dsimp only
  rw [hnode]
  refine Client.bind (hcall _ fun ha => hok.depthAt_eq hm ⟨ht, ha⟩) ?_
  rintro ⟨b, m'⟩ n ⟨hR', hn⟩
  obtain ⟨d, rfl⟩ := hR b m' hR'
  have hu := hok.usage p node hnode
  have hpos : 0 < refs p := (hok.held p).mp ((hok.live p).mpr ⟨node, hnode⟩)
  have hok' := hok.modify hnode (m := { node.mutex with depth := d }) rfl rfl (hu ▸ hpos)
  rw [show ({ node.mutex with depth := d } : NfpCppMutex).usage.toNat = refs p from hu,
    Function.update_eq_self] at hok'
  refine .ret ⟨?_, d, hR', xs, hok', changed_modify⟩
  -- the depth at `a` is that of the handle if the handle is there, and untouched if it is not
  rw [hn]
  split
  next ha => exact (hok'.depthAt_on (a := a) changed_modify ⟨ht, ha⟩).symm
  next ha =>
    refine (hok.depthAt_off hok' changed_modify (fun m₀ hm₀ hon => ha ?_)
      fun m₁ hm₁ hon => ha ?_).symm
    · rw [Option.some.inj (hm.symm.trans hm₀)]
      exact hon.2
    · rw [← Option.some.inj hm₁] at hon
      exact hon.2

theorem minus_one_ne_zero : (-1 : ℤ) ≠ 0 := by decide

section Calls

variable (h : HostOk i host refs holds loc)

include h

/-- The handle at `p` has a new depth. -/
theorem HostOk.setDepth {holds' : ℕ → ℕ} {m : NfpCppMutex} {d : UInt16} {xs : List ℕ}
    (hm : host.mutexAt p = some m) (hok : CacheOk host' refs xs)
    (hc : Changed host host' p (some { m with depth := d }))
    (hholds : ∀ q, q ≠ p → holds' q = holds q) (hp : holds' p ≤ d.toNat) :
    HostOk i host' refs holds' loc :=
  h.change hok hc (fun _ hm₁ => Option.some.inj hm₁ ▸ h.mu p m hm) (fun _ _ => rfl)
    (fun q hq => (hholds q hq).le) hp

theorem HostOk.holds_le {m : NfpCppMutex} (hm : host.mutexAt p = some m) :
    holds p ≤ m.depth.toNat :=
  NfpCppHost.depthOf_eq hm ▸ h.locked p

/-- A handle that has been locked once more. -/
theorem HostOk.locks {m : NfpCppMutex} {xs : List ℕ} {r : Except ℤ Unit} {d : UInt16}
    (hm : host.mutexAt p = some m) (hr : Locks m (r, { m with depth := d }))
    (hok : CacheOk host' refs xs) (hc : Changed host host' p (some { m with depth := d })) :
    (r = .ok () → HostOk i host' refs (addOne holds p) loc) ∧
      (r ≠ .ok () → HostOk i host' refs holds loc) := by
  have hle := h.holds_le hm
  -- a lock that fails leaves the depth, and one that does not has it below its maximum
  obtain ⟨err, he⟩ | ⟨hmax, he⟩ := hr
  · obtain ⟨rfl, hd⟩ := Prod.mk.inj he
    obtain rfl : d = m.depth := congrArg NfpCppMutex.depth hd
    exact ⟨nofun, fun _ => h.setDepth hm hok hc (fun _ _ => rfl) hle⟩
  · obtain ⟨rfl, hd⟩ := Prod.mk.inj he
    obtain rfl : d = m.depth + 1 := congrArg NfpCppMutex.depth hd
    refine ⟨fun _ => h.setDepth hm hok hc (fun q hq => addOne_of_ne hq) ?_, fun hr => absurd rfl hr⟩
    have hne : m.depth.toNat ≠ mutexDepthMax.toNat := fun he => hmax (UInt16.toNat_inj.mp he)
    have hmax' : mutexDepthMax.toNat = 2 ^ 16 - 1 := rfl
    have hlt := m.depth.toNat_lt
    have h1 : (1 : UInt16).toNat = 1 := rfl
    rw [addOne_self, UInt16.toNat_add, h1, Nat.mod_eq_of_lt (by omega)]
    exact Nat.succ_le_succ hle

theorem serves_trylock (hp : 0 < refs p) :
    Serves a i host (trylockMutex (some p) host) fun err host' =>
      (err = 0 → HostOk i host' refs (addOne holds p) loc) ∧
        (err ≠ 0 → HostOk i host' refs holds loc) := by
  obtain ⟨m, hm⟩ := h.exists_mutex hp
  unfold trylockMutex
  rw [h.interface]
  have hcall := serves_callMutex (a := a) (R := Locks m) h hm (fun r m' hr => ?_)
    fun n hn => Client.trylock_any (h.mu p m hm).1 hn
  · refine hcall.andThen fun r host' hr => .done ?_
    obtain ⟨d, hlocks, xs, hok, hc⟩ := hr
    obtain ⟨hyes, hno⟩ := h.locks hm hlocks hok hc
    -- an error of `trylock` comes back as -1
    cases r with
    | ok _ => exact ⟨fun _ => hyes rfl, fun hne => absurd rfl hne⟩
    | error err => exact ⟨fun he => absurd he minus_one_ne_zero, fun _ => hno nofun⟩
  · obtain ⟨err, he⟩ | ⟨-, he⟩ := hr
    · exact ⟨m.depth, congrArg Prod.snd he⟩
    · exact ⟨_, congrArg Prod.snd he⟩

theorem serves_lock (waits : ℕ) (hp : 0 < refs p) :
    Serves a i host (lockMutex waits (some p) host) fun err host' =>
      (err = 0 → HostOk i host' refs (addOne holds p) loc) ∧
        (err ≠ 0 → HostOk i host' refs holds loc) := by
  obtain ⟨m, hm⟩ := h.exists_mutex hp
  unfold lockMutex
  rw [h.interface]
  have hcall := serves_callMutex (a := a) h hm (fun r m' hr => ?_)
    fun n hn => Client.lock_any (i := i) waits (h.mu p m hm).1 hn
  · refine hcall.andThen fun r host' hr => ?_
    obtain ⟨d, hlocks, xs, hok, hc⟩ := hr
    -- `lock` waits as long as another interface has the mutex, which may be for good
    obtain he | ⟨r, hlocks, rfl⟩ := hlocks
    · obtain ⟨rfl, -⟩ := Prod.mk.inj he
      exact .ret rfl
    · obtain ⟨hyes, hno⟩ := h.locks hm hlocks hok hc
      cases r with
      | ok _ => exact .done ⟨fun _ => hyes rfl, fun hne => absurd rfl hne⟩
      | error err => exact .done ⟨fun he => absurd he minus_one_ne_zero, fun _ => hno nofun⟩
  · obtain he | ⟨r, ⟨err, he⟩ | ⟨-, he⟩, -⟩ := hr
    · exact ⟨m.depth, congrArg Prod.snd he⟩
    · exact ⟨m.depth, congrArg Prod.snd he⟩
    · exact ⟨_, congrArg Prod.snd he⟩

theorem serves_unlock (hp : 0 < refs p) :
    Serves a i host (unlockMutex (some p) host) fun _ host' =>
      HostOk i host' refs (subOne holds p) loc := by
  obtain ⟨m, hm⟩ := h.exists_mutex hp
  unfold unlockMutex
  rw [h.interface]
  have hcall := serves_callMutex (a := a) (R := Unlocks m) h hm (fun r m' hr => ?_)
    fun n hn => Client.unlock_any (h.mu p m hm).1 hn
  · refine hcall.andThen fun r host' hr => .done ?_
    obtain ⟨d, hunlocks, xs, hok, hc⟩ := hr
    refine h.setDepth hm hok hc (fun q hq => subOne_of_ne hq) ?_
    have hle := h.holds_le hm
    rw [subOne_self]
    -- the depth is the same after an error, and one less otherwise
    obtain ⟨err, he⟩ | ⟨n, hn, he⟩ := hunlocks
    · obtain rfl : d = m.depth := congrArg (fun q => q.2.depth) he
      exact (Nat.sub_le _ _).trans hle
    · obtain rfl : d = n := congrArg (fun q => q.2.depth) he
      rw [hn]
      exact Nat.sub_le_sub_right hle 1
  · obtain ⟨err, he⟩ | ⟨n, -, he⟩ := hr
    · exact ⟨m.depth, congrArg Prod.snd he⟩
    · exact ⟨n, congrArg Prod.snd he⟩

/-- The process has got a handle of the mutex at `address`. -/
def HasHandle (i : UInt16) (refs holds : ℕ → ℕ) (loc : ℕ → UInt64) (address : UInt64)
    (host' : NfpCppHost) : Option ℕ → Prop
  | none => HostOk i host' refs holds loc
  | some p => (0 < refs p → loc p = address) ∧
      HostOk i host' (addOne refs p) holds (Function.update loc p address)

theorem HostOk.allocated {r : Option ℕ} {xs : List ℕ} (hok : CacheOk host' (withUser refs r) xs)
    (halloc : Allocated host host' nfpCppTargetMu address r) :
    HasHandle i refs holds loc address host' r := by
  cases r with
  | none =>
    -- no memory, or no mutex at that address: the handles are those before
    obtain ⟨hi, hm⟩ := halloc
    refine ⟨⟨xs, hok⟩, hi.trans h.interface, fun p m hp => h.mu p m (hm ▸ hp), fun p => ?_⟩
    rw [NfpCppHost.depthOf, hm]
    exact h.locked p
  | some p =>
    -- a new handle, or one more user of the handle that is there for the address
    obtain ⟨m, hfor, hdepth, hc, hold⟩ := halloc
    refine ⟨fun hp => ?_, h.change hok hc (fun m₁ hm₁ => ?_) (fun q hq => ?_)
      (fun _ _ => le_rfl) ?_⟩
    · obtain ⟨m₀, hm₀⟩ := h.exists_mutex hp
      exact (h.mu p m₀ hm₀).2.symm.trans (hold m₀ hm₀).2
    · obtain rfl := Option.some.inj hm₁
      exact ⟨hfor.1, hfor.2.trans (Function.update_self p address loc).symm⟩
    · exact Function.update_of_ne hq ..
    · rw [Option.map_some, Option.getD_some, hdepth]
      exact h.locked p

theorem serves_alloc (hbound : ∀ p, refs p + 1 < 2 ^ 32) :
    Serves a i host (allocMutex calloc nfpCppTargetMu address key host) fun r host' =>
      HasHandle i refs holds loc address host' r := by
  obtain ⟨xs, hok⟩ := h.cache
  refine Client.bind (hok.client_alloc hbound) fun res n hres => ?_
  obtain ⟨r, host', xs', rfl, hok', halloc, rfl⟩ := hres
  exact Serves.done (h.allocated hok' halloc)

/-- The last user of a handle does not rely on it any more. -/
theorem serves_free (hp : 0 < refs p) (hlast : refs p = 1 → holds p = 0) :
    Serves a i host (freeMutex (some p) host) fun _ host' =>
      HostOk i host' (subOne refs p) holds loc := by
  obtain ⟨xs, hok⟩ := h.cache
  obtain ⟨host', xs', m, hfree, hok', hc, hm⟩ := hok.free hp
  have hhost : HostOk i host' (subOne refs p) holds loc := by
    refine h.change hok' hc (fun m₁ hm₁ => ?_) (fun _ _ => rfl) (fun _ _ => le_rfl) ?_
    · obtain rfl | ⟨m₀, usage, hm₀, rfl⟩ := hm
      · cases hm₁
      · exact Option.some.inj hm₁ ▸ h.mu p m₀ hm₀
    · obtain rfl | ⟨m₀, usage, hm₀, rfl⟩ := hm
      · -- the handle is gone, so this user was the last
        by_cases h1 : refs p = 1
        · rw [hlast h1]
          exact Nat.zero_le _
        · have hlive : 0 < Function.update refs p (refs p - 1) p := by
            rw [Function.update_self]
            exact Nat.sub_pos_of_lt (lt_of_le_of_ne hp (Ne.symm h1))
          obtain ⟨m', hm'⟩ := hok'.mem_iff.mp ((hok'.held p).mpr hlive)
          rw [hc.mutexAt, Function.update_self] at hm'
          cases hm'
      · have hle : holds p ≤ m₀.depth.toNat := h.holds_le hm₀
        exact hle
  unfold freeMutex
  dsimp only
  rw [hfree]
  obtain rfl | ⟨m₀, usage, hm₀, rfl⟩ := hm
  · -- without the handle the process does not know how often it has locked the mutex
    obtain ⟨m₀, hm₀⟩ := h.exists_mutex hp
    by_cases hon : m₀.On a
    · refine .forget (.ret ⟨(hok.depthAt_gone hok' hc hm₀ hon).symm, hhost⟩)
    · have hsame := hok.depthAt_off (a := a) hok' hc
        (fun m₁ hm₁ => Option.some.inj (hm₀.symm.trans hm₁) ▸ hon) fun m₁ hm₁ => by cases hm₁
      exact .ret ⟨hsame.symm, hhost⟩
  · -- other users keep the handle, and its depth
    refine .ret ⟨?_, hhost⟩
    by_cases hon : m₀.On a
    · rw [hok.depthAt_eq hm₀ hon, hok'.depthAt_on hc ⟨hon.1, hon.2⟩]
    · exact (hok.depthAt_off (a := a) hok' hc
        (fun m₁ hm₁ => Option.some.inj (hm₀.symm.trans hm₁) ▸ hon)
        fun m₁ hm₁ hon₁ => hon (by rw [← Option.some.inj hm₁] at hon₁; exact ⟨hon₁.1, hon₁.2⟩)).symm

end Calls

/-! ### Acquiring and releasing

The locations of handles change while a resource is looked for, since `findEntry` allocates one for
each candidate. `AgreeOn` says that those of the handles in use stay, and is passed on from round to
round. -/

/-- The handles in use are where they have been. -/
def AgreeOn (refs : ℕ → ℕ) (loc loc' : ℕ → UInt64) : Prop := ∀ p, 0 < refs p → loc' p = loc p

theorem AgreeOn.update (hp : 0 < refs p → loc p = address) :
    AgreeOn refs loc (Function.update loc p address) := by
  intro q hq
  by_cases h : q = p
  · subst h
    rw [Function.update_self, hp hq]
  · exact Function.update_of_ne h ..

/-- What the process has after it has tried to acquire a resource. -/
def Acquired (i : UInt16) (refs holds : ℕ → ℕ) (loc : ℕ → UInt64) (host' : NfpCppHost) :
    Option NfpResource → Prop
  | none => ∃ loc', AgreeOn refs loc loc' ∧ HostOk i host' refs holds loc'
  | some res => ∃ loc' p j, AgreeOn refs loc loc' ∧ res.mutex = some p ∧
      j < nfpResourceTblEntries ∧ loc' p = resourceAddr j ∧
      HostOk i host' (addOne refs p) (addOne holds p) loc'

section Acquire

variable {res : NfpResource} {waits : ℕ}

theorem serves_findEntry (h : HostOk i host refs holds loc) (hbound : ∀ p, refs p + 1 < 2 ^ 32)
    {is : List ℕ} (his : ∀ j ∈ is, j < nfpResourceTblEntries) :
    Serves a i host (findEntry calloc key res host is) fun q host' =>
      (q.1 ≠ 0 → HostOk i host' refs holds loc) ∧ (q.1 = 0 → ∃ j < nfpResourceTblEntries,
        HasHandle i refs holds loc (resourceAddr j) host' q.2.mutex) := by
  -- on the entries that are left; an entry with the key is the last that is looked at
  induction is with
  | nil => exact .done ⟨fun _ => h, fun he => absurd he (by decide : -Errno.ENOENT ≠ 0)⟩
  | cons j is ih =>
    refine .read fun x => ?_
    cases x with
    | error err => exact .done ⟨fun _ => h, fun he => absurd he (by decide : -Errno.EIO ≠ 0)⟩
    | ok bytes =>
      dsimp only
      split
      -- another key
      · exact ih fun j hj => his j (List.mem_cons_of_mem _ hj)
      -- the entry of the resource, whose mutex may not be allocated
      · refine (serves_alloc h hbound).andThen fun r host' hr => .done ⟨fun hne => ?_, fun _ => ?_⟩
        · exact absurd rfl hne
        · exact ⟨j, his j List.mem_cons_self, hr⟩

theorem serves_find (h : HostOk i host refs holds loc) (hbound : ∀ p, refs p + 1 < 2 ^ 32) :
    Serves a i host (nfpCppResourceFind calloc res host) fun q host' =>
      (q.1 ≠ 0 → HostOk i host' refs holds loc) ∧ (q.1 = 0 → ∃ j < nfpResourceTblEntries,
        HasHandle i refs holds loc (resourceAddr j) host' q.2.mutex) := by
  unfold nfpCppResourceFind
  split
  · exact .done ⟨fun _ => h, fun he => absurd he (by decide : -Errno.EOPNOTSUPP ≠ 0)⟩
  · exact serves_findEntry h hbound fun j hj => List.mem_range.mp hj

/-- One attempt, under the mutex of the table at `p`. -/
theorem serves_tryAcquire (h : HostOk i host refs holds loc) (hbound : ∀ p, refs p + 1 < 2 ^ 32)
    (hp : 0 < refs p) : Serves a i host (nfpResourceTryAcquire calloc waits res (some p) host)
      fun q host' => Acquired i refs holds loc host' (if q.1 = 0 then some q.2 else none) := by
  refine (serves_lock h waits hp).andThen fun err host hlock => ?_
  split
  -- the mutex of the table is not locked, and nothing has been done
  next herr =>
    refine .done ?_
    rw [if_neg (by decide : ¬-Errno.EINVAL = 0)]
    exact ⟨loc, fun _ _ => rfl, hlock.2 herr⟩
  next hzero =>
    -- from here on every path unlocks the mutex of the table
    have h₁ := hlock.1 (not_not.mp hzero)
    refine (serves_find h₁ hbound).andThen fun q host hfind => ?_
    obtain ⟨err, res⟩ := q
    dsimp only at hfind ⊢
    split
    next herr =>
      refine (serves_unlock (hfind.1 herr) hp).andThen fun _ host h₂ => .done ?_
      rw [subOne_addOne] at h₂
      rw [if_neg herr]
      exact ⟨loc, fun _ _ => rfl, h₂⟩
    next hzero =>
      obtain ⟨j, hj, hhandle⟩ := hfind.2 (not_not.mp hzero)
      cases hmutex : res.mutex with
      | none => exact Serves.nullMutex
      | some r =>
        rw [hmutex] at hhandle
        obtain ⟨hsame, h₂⟩ := hhandle
        have hr : 0 < addOne refs r r := addOne_pos
        have hp' : 0 < addOne refs r p := hp.trans_le le_addOne
        refine (serves_trylock h₂ hr).andThen fun err host htry => ?_
        split
        next herr =>
          -- the handle is given back, and the mutex of the table has another user
          have hlast : addOne refs r r = 1 → addOne holds p r = 0 := by
            intro h1
            have hne : r ≠ p := by
              rintro rfl
              rw [addOne_self] at h1
              omega
            rw [addOne_of_ne hne, h.holds_eq_zero_of_first h1]
          refine (serves_free (htry.2 herr) hr hlast).andThen fun _ host h₃ => ?_
          rw [subOne_addOne] at h₃
          refine (serves_unlock h₃ hp).andThen fun _ host h₄ => .done ?_
          rw [subOne_addOne] at h₄
          rw [if_neg herr]
          exact ⟨_, .update hsame, h₄⟩
        next hzero =>
          -- the resource is locked: the process keeps its handle, and unlocks only the one of the
          -- table
          refine (serves_unlock (htry.1 (not_not.mp hzero)) hp').andThen fun _ host h₃ => .done ?_
          rw [subOne_addOne_addOne] at h₃
          rw [if_pos rfl]
          exact ⟨_, r, j, .update hsame, hmutex, hj, Function.update_self .., h₃⟩

theorem Acquired.trans {r : Option NfpResource} (hagree : AgreeOn refs loc loc')
    (h : Acquired i refs holds loc' host r) : Acquired i refs holds loc host r := by
  have htrans {loc'' : ℕ → UInt64} (h' : AgreeOn refs loc' loc'') : AgreeOn refs loc loc'' :=
    fun p hp => (h' p hp).trans (hagree p hp)
  -- the handles that agree are those in use before either step
  cases r with
  | none =>
    obtain ⟨loc'', hagree', hhost⟩ := h
    exact ⟨loc'', htrans hagree', hhost⟩
  | some res =>
    obtain ⟨loc'', p, j, hagree', hrest⟩ := h
    exact ⟨loc'', p, j, htrans hagree', hrest⟩

/-- A round of the loop, with what comes after it. -/
theorem serves_round {next : NfpResource → NfpCppHost → CppProg (Outcome (ℤ × NfpResource))}
    (h : HostOk i host refs holds loc) (hbound : ∀ p, refs p + 1 < 2 ^ 32) (hp : 0 < refs p)
    (hnext : ∀ res host loc', HostOk i host refs holds loc' → Serves a i host (next res host)
      fun q host' => Acquired i refs holds loc' host' (if q.1 = 0 then some q.2 else none)) :
    Serves a i host ((nfpResourceTryAcquire calloc waits res (some p) host).andThen
        fun (err, res) host =>
          if err = 0 then .ret (.done (0, res) host)
          else if err ≠ -Errno.EBUSY then .ret (.done (err, res) host)
          else next res host)
      fun q host' => Acquired i refs holds loc host' (if q.1 = 0 then some q.2 else none) := by
  refine (serves_tryAcquire h hbound hp).andThen fun q host hq => ?_
  obtain ⟨err, res⟩ := q
  by_cases hzero : err = 0
  · subst hzero
    -- acquired
    exact .done hq
  · dsimp only at hq ⊢
    rw [if_neg hzero] at hq ⊢
    split
    -- an error that is not -EBUSY ends the loop
    · exact .done (by rwa [if_neg hzero])
    · obtain ⟨loc', hagree, h'⟩ := hq
      exact (hnext res host loc' h').mono fun q host' hq => hq.trans hagree

theorem serves_acquireLoop (h : HostOk i host refs holds loc)
    (hbound : ∀ p, refs p + 1 < 2 ^ 32) (hp : 0 < refs p) (n : ℕ) :
    Serves a i host (acquireLoop calloc waits (some p) n res host)
      fun q host' => Acquired i refs holds loc host' (if q.1 = 0 then some q.2 else none) := by
  -- a round begins with the locations that the round before has left
  induction n generalizing host loc res with
  | zero =>
    -- the last round returns -EBUSY
    have htimeout (res : NfpResource) (host : NfpCppHost) (loc' : ℕ → UInt64)
        (h' : HostOk i host refs holds loc') :
        Serves a i host (.ret (.done (-Errno.EBUSY, res) host)) fun q host' =>
          Acquired i refs holds loc' host' (if q.1 = 0 then some q.2 else none) := by
      refine .done ?_
      rw [if_neg (by decide : ¬-Errno.EBUSY = 0)]
      exact ⟨loc', fun _ _ => rfl, h'⟩
    exact serves_round h hbound hp htimeout
  | succ n ih => exact serves_round h hbound hp fun res host loc' h' => ih h'

/-- **`nfp_resource_acquire`.** -/
theorem serves_acquire (h : HostOk i host refs holds loc) (hbound : ∀ p, refs p + 2 < 2 ^ 32)
    (malloc : Bool) (name : List UInt8) :
    Serves a i host (nfpResourceAcquire calloc malloc waits name host)
      fun r host' => Acquired i refs holds loc host' r := by
  have hnone {host' : NfpCppHost} (h' : HostOk i host' refs holds loc) :
      Acquired i refs holds loc host' none := ⟨loc, fun _ _ => rfl, h'⟩
  have hbound₁ (p : ℕ) : refs p + 1 < 2 ^ 32 := Nat.lt_of_succ_lt (hbound p)
  unfold nfpResourceAcquire
  cases malloc with
  -- no memory for the resource itself
  | false => exact .done (hnone h)
  | true =>
    refine (serves_alloc h hbound₁).andThen fun devMutex host hdev => ?_
    cases devMutex with
    -- no handle for the table
    | none => exact .done (hnone hdev)
    | some p =>
      obtain ⟨hsame, h₁⟩ := hdev
      have hp : 0 < addOne refs p p := addOne_pos
      have hbound' (q : ℕ) : addOne refs p q + 1 < 2 ^ 32 := by
        by_cases hq : q = p
        · subst hq
          rw [addOne_self]
          exact hbound q
        · rw [addOne_of_ne hq]
          exact hbound₁ q
      have hagree {loc' : ℕ → UInt64} (h' : AgreeOn (addOne refs p)
          (Function.update loc p nfpResourceTblBase) loc') : AgreeOn refs loc loc' := by
        intro q hq
        rw [← AgreeOn.update hsame q hq]
        exact h' q (hq.trans_le le_addOne)
      -- the loop with the handle of the table, which is freed after it whatever came out
      refine (serves_acquireLoop h₁ hbound' hp 1001).andThen fun q host hq => ?_
      obtain ⟨err, res⟩ := q
      by_cases hzero : err = 0
      · subst hzero
        obtain ⟨loc', r, j, hagree', hmutex, hj, hloc, h₂⟩ := hq
        have hp₂ : 0 < addOne (addOne refs p) r p := hp.trans_le le_addOne
        -- the process has locked the mutex of the resource, which may be the one of the table
        have hlast : addOne (addOne refs p) r p = 1 → addOne holds r p = 0 := by
          intro h1
          by_cases he : p = r
          · subst he
            simp at h1
          · rw [addOne_of_ne he] at h1
            rw [addOne_of_ne he, h.holds_eq_zero_of_first h1]
        refine (serves_free h₂ hp₂ hlast).andThen fun _ host h₃ => .done ?_
        rw [subOne_addOne_addOne] at h₃
        exact ⟨loc', r, j, hagree hagree', hmutex, hj, hloc, h₃⟩
      · dsimp only at hq ⊢
        rw [if_neg hzero] at hq
        obtain ⟨loc', hagree', h₂⟩ := hq
        refine (serves_free h₂ hp h.holds_eq_zero_of_first).andThen fun _ host h₃ => .done ?_
        rw [subOne_addOne] at h₃
        rw [if_neg hzero]
        exact ⟨loc', hagree hagree', h₃⟩

/-- **`nfp_resource_release`.** -/
theorem serves_release (h : HostOk i host refs holds loc) (hp : 0 < refs p)
    (hmutex : res.mutex = some p) (hle : holds p ≤ refs p) :
    Serves a i host (nfpResourceRelease res host)
      fun _ host' => HostOk i host' (subOne refs p) (subOne holds p) loc := by
  unfold nfpResourceRelease
  rw [hmutex]
  refine (serves_unlock h hp).andThen fun _ host h' => serves_free h' hp fun h1 => ?_
  -- each user relies on one lock at most, so the last one leaves none behind
  rw [subOne_self]
  rw [h1] at hle
  exact Nat.sub_eq_zero_of_le hle

end Acquire

end NfpUdpEcho
