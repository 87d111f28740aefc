import Mathlib.Data.Finset.Card
import NfpUdpEcho.Framework.LinkedList
import NfpUdpEcho.NfpCore.MutexClient

/-!
# The handles of a process

`nfp_cpp_mutex_alloc` and `nfp_cpp_mutex_free` (`user/nfpcore/nfp_mutex.c`). The handles of a
process are on a doubly linked list, its cache: who asks for a mutex that the process has a
handle of gets that handle, which counts its users and is freed with the last of them.

Handles are at addresses of the heap. `none` is the use of a handle that has been freed or
never allocated. In every order of the calls of users that give back what they have got, once
each, that does not happen, and the cache holds exactly the handles in use, one for a location
(`cacheSystem_safe`).

The proof keeps the list of the handles beside the heap. `CacheOk host refs xs` says that the links
of the heap are those of the list `xs`, that the handles on the heap are its members, that there is
one for a location and that each counts the users it has in `refs`. Each surgery on the list is one
lemma: a handle changed in its place (`modify`), pushed to the front (`insert`) and unlinked
(`remove`); what pushing and unlinking do to links is known from `LinkedList`. The three are what
the two calls come to (`client_alloc`, `free`).

Beside the list, `depthAt` reads off the cache how often the process has locked the mutex at an
address. `Changed` says that a call has touched one handle, and from it follows the depth at that
handle's address and at every other (`depthAt_on`, `depthAt_off`, `depthAt_gone`). This is what the
clients of a mutex need (`MutexClient`): allocating and freeing handles is seen as locking nothing.
-/

namespace NfpUdpEcho

open Access LTS LinkedList

/-- A `struct nfp_cpp_mutex` on the heap. -/
structure MutexNode where
  mutex : NfpCppMutex
  prev : Option ℕ
  next : Option ℕ

/-- What the mutexes use of `struct nfp_cpp`, the heap, and the count of allocations. -/
structure NfpCppHost where
  model : UInt32
  interface : UInt16
  mutexCache : Option ℕ
  heap : ℕ → Option MutexNode
  callocs : ℕ

namespace NfpCppHost

/-- The handle at `p`, changed. -/
def modify (host : NfpCppHost) (p : ℕ) (f : MutexNode → MutexNode) : Option NfpCppHost :=
  (host.heap p).map fun node => { host with heap := Function.update host.heap p (some (f node)) }

/-- A handle that may not be there, changed. -/
def modifyIf (host : NfpCppHost) (q : Option ℕ) (f : MutexNode → MutexNode) :
    Option NfpCppHost :=
  match q with
  | none => some host
  | some p => host.modify p f

/-- The handle of a location, from the handle `q` of the cache on; a list is no longer than the
heap is large. -/
def cachedFrom (host : NfpCppHost) (target : UInt8) (address : UInt64) :
    ℕ → Option ℕ → Option (Option ℕ)
  | _, none => some none
  | 0, some _ => none
  | n + 1, some p =>
    (host.heap p).bind fun node =>
      if node.mutex.target = target ∧ node.mutex.address = address then some (some p)
      else host.cachedFrom target address n node.next

end NfpCppHost

/-- The last part of `nfp_cpp_mutex_alloc`; `calloc` is whether an allocation succeeds. -/
def newMutex (calloc : ℕ → Bool) (target : UInt8) (address : UInt64) (key : UInt32)
    (host : NfpCppHost) : Option (Option ℕ × NfpCppHost) :=
  let p := host.callocs
  let host := { host with callocs := p + 1 }
  if calloc p then
    let node : MutexNode := ⟨⟨target, 0, address, key, 1⟩, none, host.mutexCache⟩
    -- Add mutex to the cache
    (host.modifyIf host.mutexCache fun first => { first with prev := some p }).map fun host =>
      (some p, { host with
        heap := Function.update host.heap p (some node), mutexCache := some p })
  else some (none, host)

/-- `nfp_cpp_mutex_alloc`. -/
def nfpCppMutexAlloc (calloc : ℕ → Bool) (target : UInt8) (address : UInt64) (key : UInt32)
    (host : NfpCppHost) : CppProg (Option (Option ℕ × NfpCppHost)) :=
  -- Look for cached mutex
  match host.cachedFrom target address host.callocs host.mutexCache with
  | none => .ret none
  | some (some p) =>
    .ret ((host.heap p).bind fun node =>
      if node.mutex.key = key then
        (host.modify p fun node =>
          { node with mutex := { node.mutex with usage := node.mutex.usage + 1 } }).map
            fun host => (some p, host)
      else some (none, host))
  | some none =>
    match nfpCppMutexValidate host.model target address with
    | .error _ => .ret (some (none, host))
    | .ok () =>
      .access (.readl (mur target) (address + 4)) fun
        | .error _ => .ret (some (none, host))
        | .ok tmp =>
          if tmp ≠ key then .ret (some (none, host))
          else .ret (newMutex calloc target address key host)

/-- `nfp_cpp_mutex_free`. -/
def nfpCppMutexFree (p : ℕ) (host : NfpCppHost) : Option NfpCppHost :=
  (host.heap p).bind fun node =>
    if node.mutex.usage - 1 > 0 then
      host.modify p fun node =>
        { node with mutex := { node.mutex with usage := node.mutex.usage - 1 } }
    else
      -- Remove mutex from the cache
      (host.modifyIf node.next fun after => { after with prev := node.prev }).bind fun host =>
        (host.modifyIf node.prev fun before => { before with next := node.next }).map fun host =>
          { host with
            mutexCache := if host.mutexCache = some p then node.next else host.mutexCache
            heap := Function.update host.heap p none }

/-! ### The cache as a list

The three changes of the heap as one function each, as the two calls leave it. The source makes them
link by link; `newMutex_eq` and `nfpCppMutexFree_last` show that the links it writes are these. -/

namespace NfpCppHost

/-- The handle after `q`, and the first one after `none`. -/
def nextOf (host : NfpCppHost) : Option ℕ → Option ℕ
  | none => host.mutexCache
  | some p => (host.heap p).bind MutexNode.next

/-- The handle before `q`. -/
def prevOf (host : NfpCppHost) : Option ℕ → Option ℕ
  | none => none
  | some p => (host.heap p).bind MutexNode.prev

/-- The list with a new handle at its front. -/
def insert (host : NfpCppHost) (mutex : NfpCppMutex) : NfpCppHost :=
  { host with
    heap := fun y =>
      if y = host.callocs then some ⟨mutex, none, host.mutexCache⟩
      else (host.heap y).map fun n =>
        if host.mutexCache = some y then { n with prev := some host.callocs } else n
    mutexCache := some host.callocs
    callocs := host.callocs + 1 }

/-- The list without the handle `node` at `p`. -/
def remove (host : NfpCppHost) (p : ℕ) (node : MutexNode) : NfpCppHost :=
  { host with
    heap := fun y =>
      if y = p then none
      else (host.heap y).map fun n =>
        { n with
          prev := if node.next = some y then node.prev else n.prev
          next := if node.prev = some y then node.next else n.next }
    mutexCache := if host.mutexCache = some p then node.next else host.mutexCache }

/-- The mutex of the handle at `p`. -/
def mutexAt (host : NfpCppHost) (p : ℕ) : Option NfpCppMutex := (host.heap p).map MutexNode.mutex

/-- How often the handle at `p` has locked its mutex. -/
def depthOf (host : NfpCppHost) (p : ℕ) : UInt16 := ((host.mutexAt p).map NfpCppMutex.depth).getD 0

/-- How often the process has locked the mutex at the address `a` of the MU. -/
def depthAt (host : NfpCppHost) (a : UInt64) : UInt16 :=
  ((host.cachedFrom nfpCppTargetMu a host.callocs host.mutexCache).join.map host.depthOf).getD 0

/-- The handle at `p` is for a location. -/
def isFor (host : NfpCppHost) (target : UInt8) (address : UInt64) (p : ℕ) : Bool :=
  match host.heap p with
  | some node => node.mutex.target = target ∧ node.mutex.address = address
  | none => false

end NfpCppHost

/-- The handles `xs` are in use, each by `refs` users. -/
structure CacheOk (host : NfpCppHost) (refs : ℕ → ℕ) (xs : List ℕ) : Prop where
  list : IsList host.nextOf host.prevOf xs
  live : ∀ p, p ∈ xs ↔ ∃ node, host.heap p = some node
  below : ∀ p ∈ xs, p < host.callocs
  unique : ∀ p q node node', host.heap p = some node → host.heap q = some node' →
    node.mutex.target = node'.mutex.target → node.mutex.address = node'.mutex.address → p = q
  usage : ∀ p node, host.heap p = some node → node.mutex.usage.toNat = refs p
  held : ∀ p, p ∈ xs ↔ 0 < refs p

variable {host host' : NfpCppHost} {refs : ℕ → ℕ} {xs : List ℕ} {target : UInt8}
  {address : UInt64} {key : UInt32} {calloc : ℕ → Bool} {p : ℕ} {node : MutexNode}

/-- A change of handles that are there. -/
theorem modifyIf_eq (host : NfpCppHost) {q : Option ℕ}
    (hq : ∀ p, q = some p → ∃ node, host.heap p = some node) (f : MutexNode → MutexNode) :
    host.modifyIf q f =
      some { host with
        heap := fun y => if q = some y then (host.heap y).map f else host.heap y } := by
  cases q with
  | none => simp [NfpCppHost.modifyIf]
  | some p =>
    obtain ⟨node, hnode⟩ := hq p rfl
    have hheap : Function.update host.heap p (some (f node)) =
        fun y => if some p = some y then (host.heap y).map f else host.heap y := by
      funext y
      by_cases hy : y = p
      · subst hy
        simp [hnode]
      · rw [Function.update_of_ne hy, if_neg fun h => hy (Option.some.inj h).symm]
    rw [NfpCppHost.modifyIf, NfpCppHost.modify, hnode, Option.map_some, hheap]

namespace CacheOk

/-- Each allocation makes one handle at most, so the search has fuel enough. -/
theorem length_le (h : CacheOk host refs xs) : xs.length ≤ host.callocs := by
  rw [← List.toFinset_card_of_nodup h.list.nodup, ← Finset.card_range host.callocs]
  exact Finset.card_le_card fun p hp =>
    Finset.mem_range.mpr (h.below p (List.mem_toFinset.mp hp))

/-- The search of `nfp_cpp_mutex_alloc`. -/
theorem cachedFrom_suffix (h : CacheOk host refs xs) {l r : List ℕ} (hlr : l ++ r = xs) {n : ℕ}
    (hn : r.length ≤ n) : host.cachedFrom target address n (host.nextOf l.getLast?) =
      some (r.find? (host.isFor target address)) := by
  -- on what is left of the list; the fuel is at least that long
  induction r generalizing l n with
  | nil =>
    rw [h.list.next l [] hlr]
    cases n <;> rfl
  | cons y r ih =>
    obtain ⟨n, rfl⟩ := Nat.exists_eq_add_of_le' (Nat.lt_of_lt_of_le (Nat.succ_pos _) hn)
    obtain ⟨node, hnode⟩ := (h.live y).mp (hlr ▸ List.mem_append_right _ List.mem_cons_self)
    have hrest := ih (l := l ++ [y]) (by simpa using hlr) (Nat.le_of_succ_le_succ hn)
    rw [List.getLast?_concat, NfpCppHost.nextOf, hnode, Option.bind_some] at hrest
    rw [h.list.next l (y :: r) hlr, List.head?_cons, NfpCppHost.cachedFrom, hnode,
      Option.bind_some, List.find?_cons, NfpCppHost.isFor, hnode]
    -- the handle at the front is for the location, or the search goes on behind it
    by_cases hfor : node.mutex.target = target ∧ node.mutex.address = address
    · simp [hfor]
    · rw [if_neg hfor, hrest]
      simp [hfor]

/-- It goes through the whole list. -/
theorem cachedFrom_cache (h : CacheOk host refs xs) :
    host.cachedFrom target address host.callocs host.mutexCache =
      some (xs.find? (host.isFor target address)) :=
  h.cachedFrom_suffix (l := []) rfl h.length_le

/-- Handles keep their places when none of them is inserted or unlinked. -/
theorem of_heap (h : CacheOk host refs xs) {refs' : ℕ → ℕ}
    (hcache : host'.mutexCache = host.mutexCache) (hcallocs : host'.callocs = host.callocs)
    (hheap : ∀ p, host'.heap p = none ∧ host.heap p = none ∨ ∃ node node',
      host.heap p = some node ∧ host'.heap p = some node' ∧ node'.prev = node.prev ∧
        node'.next = node.next ∧ node'.mutex.target = node.mutex.target ∧
          node'.mutex.address = node.mutex.address ∧ node'.mutex.usage.toNat = refs' p)
    (hrefs : ∀ p, 0 < refs' p ↔ 0 < refs p) : CacheOk host' refs' xs := by
  -- the links are the same functions, so the list is the same
  have hnext : host'.nextOf = host.nextOf := by
    funext q
    cases q with
    | none => exact hcache
    | some p =>
      obtain ⟨h', h⟩ | ⟨node, node', h, h', -, hn, -⟩ := hheap p
      · rw [NfpCppHost.nextOf, NfpCppHost.nextOf, h, h']
      · rw [NfpCppHost.nextOf, NfpCppHost.nextOf, h, h', Option.bind_some, Option.bind_some, hn]
  have hprev : host'.prevOf = host.prevOf := by
    funext q
    cases q with
    | none => rfl
    | some p =>
      obtain ⟨h', h⟩ | ⟨node, node', h, h', hp, -⟩ := hheap p
      · rw [NfpCppHost.prevOf, NfpCppHost.prevOf, h, h']
      · rw [NfpCppHost.prevOf, NfpCppHost.prevOf, h, h', Option.bind_some, Option.bind_some, hp]
  -- what a handle of the new heap was before
  have hold (p : ℕ) (node' : MutexNode) (hp : host'.heap p = some node') : ∃ node,
      host.heap p = some node ∧ node'.mutex.target = node.mutex.target ∧
        node'.mutex.address = node.mutex.address ∧ node'.mutex.usage.toNat = refs' p := by
    obtain ⟨h', -⟩ | ⟨node, node'', h, h', -, -, ht, ha, hu⟩ := hheap p
    · rw [h'] at hp
      cases hp
    · rw [h'] at hp
      obtain rfl := Option.some.inj hp
      exact ⟨node, h, ht, ha, hu⟩
  refine ⟨?_, fun p => ?_, ?_, fun p q node node' hp hq ht ha => ?_, fun p node hp => ?_,
    fun p => (h.held p).trans (hrefs p).symm⟩
  · rw [hnext, hprev]
    exact h.list
  · rw [h.live p]
    obtain ⟨h', h⟩ | ⟨node, node', h, h', -⟩ := hheap p <;> simp [h, h']
  · rw [hcallocs]
    exact h.below
  · obtain ⟨np, hp', htp, hap, -⟩ := hold p node hp
    obtain ⟨nq, hq', htq, haq, -⟩ := hold q node' hq
    exact h.unique p q np nq hp' hq' (htp ▸ htq ▸ ht) (hap ▸ haq ▸ ha)
  · obtain ⟨_, -, -, -, hu⟩ := hold p node hp
    exact hu

/-- One handle is changed, but for its place and its location. -/
theorem modify (h : CacheOk host refs xs) (hp : host.heap p = some node) {m : NfpCppMutex}
    (ht : m.target = node.mutex.target) (ha : m.address = node.mutex.address)
    (hu : 0 < m.usage.toNat) :
    CacheOk { host with heap := Function.update host.heap p (some { node with mutex := m }) }
      (Function.update refs p m.usage.toNat) xs := by
  have hrefs : 0 < refs p := (h.held p).mp ((h.live p).mpr ⟨node, hp⟩)
  refine h.of_heap rfl rfl (fun q => ?_) fun q => ?_
  · by_cases hq : q = p
    · subst hq
      refine .inr ⟨node, _, hp, Function.update_self .., rfl, rfl, ht, ha, ?_⟩
      rw [Function.update_self]
    · simp only [Function.update_of_ne hq]
      cases hnode : host.heap q with
      | none => exact .inl ⟨rfl, rfl⟩
      | some n => exact .inr ⟨n, n, rfl, rfl, rfl, rfl, rfl, rfl, h.usage q n hnode⟩
  · by_cases hq : q = p
    · subst hq
      rw [Function.update_self]
      exact ⟨fun _ => hrefs, fun _ => hu⟩
    · rw [Function.update_of_ne hq]

/-- A new handle. -/
theorem newMutex_eq (h : CacheOk host refs xs) (hcalloc : calloc host.callocs = true) :
    newMutex calloc target address key host =
      some (some host.callocs, host.insert ⟨target, 0, address, key, 1⟩) := by
  -- the first handle is on the list, so it is there to be linked
  have hlive (p : ℕ) (hp : host.mutexCache = some p) : ∃ node, host.heap p = some node := by
    refine (h.live p).mp (List.mem_of_head? ?_)
    rw [← hp]
    exact (h.list.next [] xs rfl).symm
  have hmodify := modifyIf_eq { host with callocs := host.callocs + 1 } hlive
    fun first => { first with prev := some host.callocs }
  rw [newMutex, if_pos hcalloc, hmodify, Option.map_some, NfpCppHost.insert]
  simp only [Option.some.injEq, Prod.mk.injEq, NfpCppHost.mk.injEq, true_and, and_true]
  funext y
  -- the new handle, the one that was first, and the rest
  by_cases hy : y = host.callocs
  · subst hy
    rw [Function.update_self, if_pos rfl]
  · rw [Function.update_of_ne hy, if_neg hy]
    split
    · rfl
    · rw [Option.map_id']

theorem insert (h : CacheOk host refs xs) {m : NfpCppMutex} (hu : 0 < m.usage.toNat)
    (hnone : ∀ q node, host.heap q = some node →
      ¬(node.mutex.target = m.target ∧ node.mutex.address = m.address)) :
    CacheOk (host.insert m) (Function.update refs host.callocs m.usage.toNat)
      (host.callocs :: xs) := by
  have hfirst : host.nextOf none = xs.head? := h.list.next [] xs rfl
  have hfresh : host.callocs ∉ xs := fun hmem => lt_irrefl _ (h.below _ hmem)
  have hself : (host.insert m).heap host.callocs = some ⟨m, none, host.mutexCache⟩ :=
    if_pos rfl
  have hother {y : ℕ} (hy : y ≠ host.callocs) : (host.insert m).heap y =
      (host.heap y).map fun n =>
        if host.mutexCache = some y then { n with prev := some host.callocs } else n := if_neg hy
  -- the other handles are those of before
  have hold {y : ℕ} (hy : y ≠ host.callocs) {n' : MutexNode}
      (hn' : (host.insert m).heap y = some n') :
      ∃ n, host.heap y = some n ∧ n'.mutex = n.mutex := by
    rw [hother hy] at hn'
    obtain ⟨n, hn, rfl⟩ := Option.map_eq_some_iff.mp hn'
    refine ⟨n, hn, ?_⟩
    split <;> rfl
  refine ⟨h.list.push hfresh rfl ?_ (fun y hy => ?_) ?_ (fun hne => ?_) (fun y hy hyne => ?_),
    fun y => ?_, fun y hy => ?_, fun y z ny nz hy hz ht ha => ?_, fun y n hn => ?_, fun y => ?_⟩
  · simp only [NfpCppHost.nextOf, hself, Option.bind_some]
  · simp only [NfpCppHost.nextOf, hother hy]
    cases host.heap y with
    | none => rfl
    | some n =>
      rw [Option.map_some, Option.bind_some, Option.bind_some]
      split <;> rfl
  · simp only [NfpCppHost.prevOf, hself, Option.bind_some]
  · obtain ⟨c, hc⟩ := Option.ne_none_iff_exists'.mp hne
    have hmem : c ∈ xs := List.mem_of_head? (hfirst ▸ hc)
    have hcne : c ≠ host.callocs := fun he => hfresh (he ▸ hmem)
    obtain ⟨n, hn⟩ := (h.live c).mp hmem
    have hcache : host.mutexCache = some c := hc
    rw [hc, NfpCppHost.prevOf, hother hcne, hn, Option.map_some, if_pos hcache, Option.bind_some]
  · have hyne' : ¬host.mutexCache = some y := fun he => hyne he.symm
    rw [NfpCppHost.prevOf, NfpCppHost.prevOf, hother hy]
    simp only [if_neg hyne', Option.map_id']
  · rw [List.mem_cons]
    by_cases hy : y = host.callocs
    · subst hy
      exact ⟨fun _ => ⟨_, hself⟩, fun _ => .inl rfl⟩
    · rw [hother hy, h.live y]
      simp [hy]
  · obtain rfl | hy := List.mem_cons.mp hy
    · exact Nat.lt_succ_self _
    · exact Nat.lt_succ_of_lt (h.below y hy)
  · by_cases hyc : y = host.callocs <;> by_cases hzc : z = host.callocs
    · rw [hyc, hzc]
    · subst hyc
      obtain ⟨n, hn, hm⟩ := hold hzc hz
      obtain rfl := Option.some.inj (hself.symm.trans hy)
      exact absurd ⟨hm ▸ ht.symm, hm ▸ ha.symm⟩ (hnone z n hn)
    · subst hzc
      obtain ⟨n, hn, hm⟩ := hold hyc hy
      obtain rfl := Option.some.inj (hself.symm.trans hz)
      exact absurd ⟨hm ▸ ht, hm ▸ ha⟩ (hnone y n hn)
    · obtain ⟨n, hn, hm⟩ := hold hyc hy
      obtain ⟨n', hn', hm'⟩ := hold hzc hz
      exact h.unique y z n n' hn hn' (hm ▸ hm' ▸ ht) (hm ▸ hm' ▸ ha)
  · by_cases hy : y = host.callocs
    · subst hy
      obtain rfl := Option.some.inj (hself.symm.trans hn)
      rw [Function.update_self]
    · obtain ⟨n', hn', hm⟩ := hold hy hn
      rw [Function.update_of_ne hy, hm]
      exact h.usage y n' hn'
  · rw [List.mem_cons]
    by_cases hy : y = host.callocs
    · subst hy
      rw [Function.update_self]
      exact ⟨fun _ => hu, fun _ => .inl rfl⟩
    · rw [Function.update_of_ne hy, ← h.held y]
      simp [hy]

/-- The place of a handle. -/
theorem exists_split (h : CacheOk host refs xs) (hp : host.heap p = some node) :
    ∃ l r, xs = l ++ p :: r ∧ p ∉ l ++ r ∧ node.next = r.head? ∧ node.prev = l.getLast? := by
  obtain ⟨l, r, rfl⟩ := List.mem_iff_append.mp ((h.live p).mpr ⟨node, hp⟩)
  refine ⟨l, r, rfl, (List.nodup_cons.mp (List.nodup_middle.mp h.list.nodup)).1, ?_, ?_⟩
  · have hsplit := h.list.next (l ++ [p]) r (by simp)
    rwa [List.getLast?_concat, NfpCppHost.nextOf, hp, Option.bind_some] at hsplit
  · have hsplit := h.list.prev l (p :: r) rfl (List.cons_ne_nil _ _)
    rwa [List.head?_cons, NfpCppHost.prevOf, hp, Option.bind_some] at hsplit

/-- The neighbours of a handle. -/
theorem neighbour_live (h : CacheOk host refs xs) (hp : host.heap p = some node) {q : ℕ}
    (hq : node.next = some q ∨ node.prev = some q) :
    q ≠ p ∧ ∃ n, host.heap q = some n := by
  obtain ⟨l, r, rfl, hfresh, hnext, hprev⟩ := h.exists_split hp
  have hmem : q ∈ l ++ r := by
    obtain hq | hq := hq
    · exact List.mem_append_right _ (List.mem_of_head? (hnext ▸ hq))
    · exact List.mem_append_left _ (List.mem_of_getLast? (hprev ▸ hq))
  refine ⟨fun he => hfresh (he ▸ hmem), (h.live q).mp ?_⟩
  exact List.mem_append.mpr ((List.mem_append.mp hmem).imp_right (List.mem_cons_of_mem _))

/-- The first handle is the one with none before it. -/
theorem first_iff (h : CacheOk host refs xs) (hp : host.heap p = some node) :
    host.mutexCache = some p ↔ node.prev = none := by
  obtain ⟨l, r, rfl, hfresh, -, hprev⟩ := h.exists_split hp
  have hfirst : host.mutexCache = (l ++ p :: r).head? := h.list.next [] _ rfl
  rw [hprev, hfirst]
  cases l with
  | nil => simp
  | cons w l =>
    have hne : w ≠ p := fun he => hfresh (he ▸ List.mem_cons_self)
    simp [hne]

/-- The last user gives a handle back. -/
theorem nfpCppMutexFree_last (h : CacheOk host refs xs) (hp : host.heap p = some node)
    (hu : node.mutex.usage = 1) : nfpCppMutexFree p host = some (host.remove p node) := by
  have hzero : ¬node.mutex.usage - 1 > 0 := by
    rw [hu]
    decide
  -- the neighbours are unlinked one after the other
  have hafter := modifyIf_eq host (q := node.next)
    (fun q hq => (h.neighbour_live hp (.inl hq)).2) fun after => { after with prev := node.prev }
  rw [nfpCppMutexFree, hp, Option.bind_some, if_neg hzero, hafter, Option.bind_some,
    modifyIf_eq, Option.map_some, NfpCppHost.remove]
  · simp only [Option.some.injEq, NfpCppHost.mk.injEq, true_and, and_true]
    funext y
    by_cases hy : y = p
    · subst hy
      rw [Function.update_self, if_pos rfl]
    · rw [Function.update_of_ne hy, if_neg hy]
      cases host.heap y with
      | none => simp only [Option.map_none, ite_self]
      | some n => by_cases hn : node.next = some y <;> by_cases hp : node.prev = some y <;>
          simp only [hn, hp, if_true, if_false, Option.map_some]
  · intro q hq
    obtain ⟨-, n, hn⟩ := h.neighbour_live hp (.inr hq)
    dsimp only
    split
    · exact ⟨_, by rw [hn, Option.map_some]⟩
    · exact ⟨n, hn⟩

theorem remove (h : CacheOk host refs xs) (hp : host.heap p = some node) :
    CacheOk (host.remove p node) (Function.update refs p 0) (xs.erase p) := by
  have hmem : p ∈ xs := (h.live p).mpr ⟨node, hp⟩
  have hnext : host.nextOf (some p) = node.next := by
    rw [NfpCppHost.nextOf, hp, Option.bind_some]
  have hprev : host.prevOf (some p) = node.prev := by
    rw [NfpCppHost.prevOf, hp, Option.bind_some]
  have hheap {y : ℕ} (hy : y ≠ p) : (host.remove p node).heap y = (host.heap y).map fun n =>
      { n with
        prev := if node.next = some y then node.prev else n.prev
        next := if node.prev = some y then node.next else n.next } := if_neg hy
  have hgone : (host.remove p node).heap p = none := if_pos rfl
  have hold {y : ℕ} {n' : MutexNode} (hn' : (host.remove p node).heap y = some n') :
      y ≠ p ∧ ∃ n, host.heap y = some n ∧ n'.mutex = n.mutex := by
    have hy : y ≠ p := by
      rintro rfl
      rw [hgone] at hn'
      cases hn'
    rw [hheap hy] at hn'
    obtain ⟨n, hn, rfl⟩ := Option.map_eq_some_iff.mp hn'
    exact ⟨hy, n, hn, rfl⟩
  have hhead := h.first_iff hp
  refine ⟨h.list.erase hmem ?_ (fun hne => ?_) (fun y hy hya => ?_) (fun y hy hyb => ?_),
    fun y => ?_, fun y hy => ?_, fun y z ny nz hy hz ht ha => ?_, fun y n hn => ?_, fun y => ?_⟩
  · rw [hprev, hnext]
    cases hb : node.prev with
    | none => exact if_pos (hhead.mpr hb)
    | some q =>
      obtain ⟨hq, n, hn⟩ := h.neighbour_live hp (.inr hb)
      simp [NfpCppHost.nextOf, hheap hq, hn, hb]
  · rw [hnext] at hne ⊢
    rw [hprev]
    obtain ⟨q, hq⟩ := Option.ne_none_iff_exists'.mp hne
    obtain ⟨hqp, n, hn⟩ := h.neighbour_live hp (.inl hq)
    simp [hq, NfpCppHost.prevOf, hheap hqp, hn]
  · rw [hprev] at hya
    cases y with
    | none =>
      exact if_neg fun hc => hya (hhead.mp hc).symm
    | some y =>
      have hyp : y ≠ p := fun he => hy (congrArg some he)
      rw [NfpCppHost.nextOf, NfpCppHost.nextOf, hheap hyp]
      cases host.heap y with
      | none => rfl
      | some n => exact if_neg fun he => hya he.symm
  · rw [hnext] at hyb
    rw [NfpCppHost.prevOf, NfpCppHost.prevOf, hheap hy]
    cases host.heap y with
    | none => rfl
    | some n => exact if_neg fun he => hyb he.symm
  · by_cases hy : y = p
    · subst hy
      simp [hgone, h.list.nodup.not_mem_erase]
    · rw [List.mem_erase_of_ne hy, h.live y, hheap hy]
      simp
  · exact h.below y (List.mem_of_mem_erase hy)
  · obtain ⟨-, n, hn, hm⟩ := hold hy
    obtain ⟨-, n', hn', hm'⟩ := hold hz
    exact h.unique y z n n' hn hn' (hm ▸ hm' ▸ ht) (hm ▸ hm' ▸ ha)
  · obtain ⟨hy, n', hn', hm⟩ := hold hn
    rw [Function.update_of_ne hy, hm]
    exact h.usage y n' hn'
  · by_cases hy : y = p
    · subst hy
      simp [h.list.nodup.not_mem_erase]
    · rw [List.mem_erase_of_ne hy, Function.update_of_ne hy]
      exact h.held y

end CacheOk

/-! ### The depth of a mutex

Two processes never share handles, so how often a process has locked a mutex is a fact about its own
cache: the depth in the one handle of that location. -/

namespace NfpCppHost

/-- A mutex is that of its node. -/
theorem mutexAt_eq_some {m : NfpCppMutex} :
    host.mutexAt p = some m ↔ ∃ node, host.heap p = some node ∧ node.mutex = m :=
  Option.map_eq_some_iff

theorem depthOf_eq {m : NfpCppMutex} (hm : host.mutexAt p = some m) : host.depthOf p = m.depth := by
  rw [depthOf, hm, Option.map_some, Option.getD_some]

end NfpCppHost

namespace CacheOk

/-- The handles on the list are those that have a mutex. -/
theorem mem_iff (h : CacheOk host refs xs) : p ∈ xs ↔ ∃ m, host.mutexAt p = some m := by
  rw [h.live p]
  constructor
  · rintro ⟨node, hnode⟩
    exact ⟨_, NfpCppHost.mutexAt_eq_some.mpr ⟨node, hnode, rfl⟩⟩
  · rintro ⟨m, hm⟩
    obtain ⟨node, hnode, -⟩ := NfpCppHost.mutexAt_eq_some.mp hm
    exact ⟨node, hnode⟩

/-- The search finds the handle of a location. -/
theorem find?_eq (h : CacheOk host refs xs) {m : NfpCppMutex} (hm : host.mutexAt p = some m) :
    xs.find? (host.isFor m.target m.address) = some p := by
  obtain ⟨node, hnode, rfl⟩ := NfpCppHost.mutexAt_eq_some.mp hm
  have hfor : host.isFor node.mutex.target node.mutex.address p = true := by
    rw [NfpCppHost.isFor, hnode]
    exact decide_eq_true ⟨rfl, rfl⟩
  cases hfind : xs.find? (host.isFor node.mutex.target node.mutex.address) with
  | none => exact absurd hfor (List.find?_eq_none.mp hfind p (h.mem_iff.mpr ⟨_, hm⟩))
  | some q =>
    obtain ⟨node', hnode'⟩ := (h.live q).mp (List.mem_of_find?_eq_some hfind)
    have hq := List.find?_some hfind
    rw [NfpCppHost.isFor, hnode'] at hq
    obtain ⟨ht, ha⟩ := of_decide_eq_true hq
    rw [h.unique q p node' node hnode' hnode ht ha]

/-- It finds nothing for a location that has none. -/
theorem find?_eq_none (h : CacheOk host refs xs)
    (hno : ∀ p m, host.mutexAt p = some m → ¬(m.target = target ∧ m.address = address)) :
    xs.find? (host.isFor target address) = none := by
  refine List.find?_eq_none.mpr fun p hp => ?_
  obtain ⟨node, hnode⟩ := (h.live p).mp hp
  rw [NfpCppHost.isFor, hnode]
  exact fun hfor => hno p _ (NfpCppHost.mutexAt_eq_some.mpr ⟨node, hnode, rfl⟩)
    (of_decide_eq_true hfor)

variable {a : UInt64} {m : NfpCppMutex}

/-- The process has one handle for an address of the MU. -/
theorem unique_on (h : CacheOk host refs xs) {q : ℕ} {m' : NfpCppMutex}
    (hm : host.mutexAt p = some m) (hon : m.On a) (hm' : host.mutexAt q = some m')
    (hon' : m'.On a) : p = q := by
  obtain ⟨n, hn, rfl⟩ := NfpCppHost.mutexAt_eq_some.mp hm
  obtain ⟨n', hn', rfl⟩ := NfpCppHost.mutexAt_eq_some.mp hm'
  exact h.unique p q n n' hn hn' (hon.1.trans hon'.1.symm) (hon.2.trans hon'.2.symm)

/-- What it has locked there is the depth of that handle. -/
theorem depthAt_eq (h : CacheOk host refs xs) (hm : host.mutexAt p = some m) (hon : m.On a) :
    host.depthAt a = m.depth := by
  obtain ⟨ht, rfl⟩ := hon
  have hfind := h.find?_eq hm
  rw [ht] at hfind
  rw [NfpCppHost.depthAt, h.cachedFrom_cache, hfind, Option.join_some, Option.map_some,
    Option.getD_some, NfpCppHost.depthOf_eq hm]

/-- Without a handle it has locked nothing. -/
theorem depthAt_eq_zero (h : CacheOk host refs xs)
    (hno : ∀ p m, host.mutexAt p = some m → ¬m.On a) : host.depthAt a = 0 := by
  rw [NfpCppHost.depthAt, h.cachedFrom_cache, h.find?_eq_none hno]
  rfl

end CacheOk

/-- The process has the mutex `m` at `p` now, if any, and is otherwise the same. -/
structure Changed (host host' : NfpCppHost) (p : ℕ) (m : Option NfpCppMutex) : Prop where
  interface : host'.interface = host.interface
  mutexAt : host'.mutexAt = Function.update host.mutexAt p m

section Changed

variable {a : UInt64} {m₀ m₁ : NfpCppMutex} {m : Option NfpCppMutex} {refs' : ℕ → ℕ}
  {xs' : List ℕ}

/-- The three surgeries change one handle each. -/
theorem changed_modify {m : NfpCppMutex} :
    Changed host
      { host with heap := Function.update host.heap p (some { node with mutex := m }) } p
      (some m) := by
  refine ⟨rfl, funext fun q => ?_⟩
  by_cases hq : q = p
  · subst hq
    simp [NfpCppHost.mutexAt]
  · simp [NfpCppHost.mutexAt, hq]

theorem changed_insert {m : NfpCppMutex} :
    Changed host (host.insert m) host.callocs (some m) := by
  refine ⟨rfl, funext fun q => ?_⟩
  by_cases hq : q = host.callocs
  · subst hq
    simp [NfpCppHost.mutexAt, NfpCppHost.insert]
  · simp only [NfpCppHost.mutexAt, NfpCppHost.insert, if_neg hq, Function.update_of_ne hq,
      Option.map_map]
    congr 1
    funext n
    dsimp only [Function.comp_apply]
    split <;> rfl

theorem changed_remove : Changed host (host.remove p node) p none := by
  refine ⟨rfl, funext fun q => ?_⟩
  by_cases hq : q = p
  · subst hq
    simp [NfpCppHost.mutexAt, NfpCppHost.remove]
  · simp only [NfpCppHost.mutexAt, NfpCppHost.remove, if_neg hq, Function.update_of_ne hq,
      Option.map_map]
    rfl

namespace CacheOk

/-- The process has its mutex at `a` now where it has been. -/
theorem depthAt_on (h' : CacheOk host' refs' xs') (hc : Changed host host' p (some m₁))
    (hon : m₁.On a) : host'.depthAt a = m₁.depth := by
  refine h'.depthAt_eq (p := p) ?_ hon
  rw [hc.mutexAt, Function.update_self]

/-- The change is about another mutex. -/
theorem depthAt_off (h : CacheOk host refs xs) (h' : CacheOk host' refs' xs')
    (hc : Changed host host' p m) (hold : ∀ m₀, host.mutexAt p = some m₀ → ¬m₀.On a)
    (hnew : ∀ m₁, m = some m₁ → ¬m₁.On a) : host'.depthAt a = host.depthAt a := by
  have hother {q : ℕ} (hq : q ≠ p) : host'.mutexAt q = host.mutexAt q := by
    rw [hc.mutexAt, Function.update_of_ne hq]
  -- the handle of that address, if there is one, is another
  by_cases hex : ∃ q m₀, host.mutexAt q = some m₀ ∧ m₀.On a
  · obtain ⟨q, m₀, hm₀, hon⟩ := hex
    have hq : q ≠ p := by
      rintro rfl
      exact hold m₀ hm₀ hon
    rw [h.depthAt_eq hm₀ hon, h'.depthAt_eq ((hother hq).trans hm₀) hon]
  · rw [h.depthAt_eq_zero fun q m₀ hm₀ hon => hex ⟨q, m₀, hm₀, hon⟩]
    refine h'.depthAt_eq_zero fun q m₁ hm₁ hon => ?_
    by_cases hq : q = p
    · subst hq
      rw [hc.mutexAt, Function.update_self] at hm₁
      exact hnew m₁ hm₁ hon
    · exact hex ⟨q, m₁, (hother hq).symm.trans hm₁, hon⟩

/-- The process has no mutex at `a` any more. -/
theorem depthAt_gone (h : CacheOk host refs xs) (h' : CacheOk host' refs' xs')
    (hc : Changed host host' p none) (hold : host.mutexAt p = some m₀) (hon : m₀.On a) :
    host'.depthAt a = 0 := by
  refine h'.depthAt_eq_zero fun q m₁ hm₁ hon₁ => ?_
  by_cases hq : q = p
  · subst hq
    rw [hc.mutexAt, Function.update_self] at hm₁
    cases hm₁
  · rw [hc.mutexAt, Function.update_of_ne hq] at hm₁
    exact hq (h.unique_on hm₁ hon₁ hold hon)

/-- Links do not matter for the depth. -/
theorem depthAt_congr (h : CacheOk host refs xs) (h' : CacheOk host' refs' xs')
    (hm : host'.mutexAt = host.mutexAt) : host'.depthAt a = host.depthAt a := by
  by_cases hex : ∃ q m₀, host.mutexAt q = some m₀ ∧ m₀.On a
  · obtain ⟨q, m₀, hm₀, hon⟩ := hex
    rw [h.depthAt_eq hm₀ hon, h'.depthAt_eq (hm ▸ hm₀) hon]
  · rw [h.depthAt_eq_zero fun q m₀ hm₀ hon => hex ⟨q, m₀, hm₀, hon⟩,
      h'.depthAt_eq_zero fun q m₀ hm₀ hon => hex ⟨q, m₀, hm ▸ hm₀, hon⟩]

end CacheOk

end Changed

/-! ### The calls

`Client` speaks of the accesses of a call as well as of its result. Here the only access is to the
key of a mutex, which is not its lock word. -/

/-- The users after a call that has returned the handle `r`. -/
def withUser (refs : ℕ → ℕ) (r : Option ℕ) : ℕ → ℕ :=
  match r with
  | none => refs
  | some p => Function.update refs p (refs p + 1)

/-- The process has got the handle `r` for a location. -/
def Allocated (host host' : NfpCppHost) (target : UInt8) (address : UInt64) :
    Option ℕ → Prop
  | none => host'.interface = host.interface ∧ host'.mutexAt = host.mutexAt
  | some p => ∃ m : NfpCppMutex, (m.target = target ∧ m.address = address) ∧
      m.depth = host.depthOf p ∧ Changed host host' p (some m) ∧
      ∀ m₀, host.mutexAt p = some m₀ → m₀.target = target ∧ m₀.address = address

namespace CacheOk

/-- An allocation that fails. -/
theorem spent (h : CacheOk host refs xs) :
    CacheOk { host with callocs := host.callocs + 1 } refs xs :=
  ⟨h.list, h.live, fun p hp => Nat.lt_succ_of_lt (h.below p hp), h.unique, h.usage, h.held⟩

/-- A new handle, or none. -/
theorem newMutex (h : CacheOk host refs xs) (calloc : ℕ → Bool) (key : UInt32)
    (hnone : ∀ q node, host.heap q = some node →
      ¬(node.mutex.target = target ∧ node.mutex.address = address)) : ∃ r host' xs',
    NfpUdpEcho.newMutex calloc target address key host = some (r, host') ∧
      CacheOk host' (withUser refs r) xs' ∧ Allocated host host' target address r := by
  cases hc : calloc host.callocs with
  | false => exact ⟨none, _, xs, by rw [NfpUdpEcho.newMutex, hc]; rfl, h.spent, rfl, rfl⟩
  | true =>
    have hfresh : host.heap host.callocs = none := by
      refine Option.eq_none_iff_forall_ne_some.mpr fun node hnode => ?_
      exact lt_irrefl _ (h.below _ ((h.live _).mpr ⟨node, hnode⟩))
    have hrefs : refs host.callocs = 0 := by
      by_contra hne
      exact lt_irrefl _ (h.below _ ((h.held _).mpr (Nat.pos_of_ne_zero hne)))
    have hone : 0 < (1 : UInt32).toNat := Nat.one_pos
    have hinsert := h.insert (m := ⟨target, 0, address, key, 1⟩) hone hnone
    refine ⟨_, _, host.callocs :: xs, h.newMutex_eq hc, ?_, _, ⟨rfl, rfl⟩, ?_, changed_insert, ?_⟩
    · rw [withUser, hrefs]
      exact hinsert
    · simp [NfpCppHost.depthOf, NfpCppHost.mutexAt, hfresh]
    · simp [NfpCppHost.mutexAt, hfresh]

/-- Allocating a handle locks nothing, and a handle that is shared keeps its depth. -/
theorem depthAt_allocated {a : UInt64} {refs' : ℕ → ℕ} {xs' : List ℕ} {r : Option ℕ}
    (h : CacheOk host refs xs) (h' : CacheOk host' refs' xs')
    (halloc : Allocated host host' target address r) : host'.depthAt a = host.depthAt a := by
  cases r with
  | none => exact h.depthAt_congr h' halloc.2
  | some p =>
    obtain ⟨m, ⟨ht, ha⟩, hdepth, hc, hold⟩ := halloc
    -- the handle is for this address, and has kept the depth it had, or has none yet
    by_cases hon : m.On a
    · rw [h'.depthAt_on hc hon, hdepth]
      cases hm : host.mutexAt p with
      | some m₀ =>
        obtain ⟨ht₀, ha₀⟩ := hold m₀ hm
        rw [NfpCppHost.depthOf_eq hm,
          h.depthAt_eq hm ⟨ht₀.trans (ht.symm.trans hon.1), ha₀.trans (ha.symm.trans hon.2)⟩]
      | none =>
        have hzero : host.depthOf p = 0 := by
          rw [NfpCppHost.depthOf, hm]
          rfl
        rw [hzero]
        refine (h.depthAt_eq_zero fun q m₀ hm₀ hon₀ => ?_).symm
        have hq : q ≠ p := by
          rintro rfl
          rw [hm] at hm₀
          cases hm₀
        have hm₀' : host'.mutexAt q = some m₀ := by
          rw [hc.mutexAt, Function.update_of_ne hq, hm₀]
        have hm' : host'.mutexAt p = some m := by
          rw [hc.mutexAt, Function.update_self]
        exact hq (h'.unique_on hm₀' hon₀ hm' hon)
    · refine h.depthAt_off h' hc (fun m₀ hm₀ hon₀ => ?_) fun m₁ hm₁ => ?_
      · obtain ⟨ht₀, ha₀⟩ := hold m₀ hm₀
        exact hon ⟨ht.trans (ht₀.symm.trans hon₀.1), ha.trans (ha₀.symm.trans hon₀.2)⟩
      · exact Option.some.inj hm₁ ▸ hon

/-- **`nfp_cpp_mutex_alloc`**, whatever the device answers. -/
theorem client_alloc {a : UInt64} {i : UInt16} (h : CacheOk host refs xs)
    (hbound : ∀ p, refs p + 1 < 2 ^ 32) :
    Client a (fun res n => ∃ r host' xs', res = some (r, host') ∧
      CacheOk host' (withUser refs r) xs' ∧ Allocated host host' target address r ∧
        n = host'.depthAt a) i (host.depthAt a)
      (nfpCppMutexAlloc calloc target address key host) := by
  -- the depth does not depend on how the call ends
  have hret {r : Option ℕ} {host' : NfpCppHost} {xs' : List ℕ}
      {res : Option (Option ℕ × NfpCppHost)} (hres : res = some (r, host'))
      (hok : CacheOk host' (withUser refs r) xs')
      (halloc : Allocated host host' target address r) :
      Client a (fun res n => ∃ r host' xs', res = some (r, host') ∧
        CacheOk host' (withUser refs r) xs' ∧ Allocated host host' target address r ∧
          n = host'.depthAt a) i (host.depthAt a) (.ret res) :=
    .ret ⟨r, host', xs', hres, hok, halloc, (h.depthAt_allocated hok halloc).symm⟩
  have hfail := hret rfl h (r := none) ⟨rfl, rfl⟩
  unfold nfpCppMutexAlloc
  rw [h.cachedFrom_cache]
  -- a handle that is there gains a user; otherwise a new one is made once the key is right
  cases hfind : xs.find? (host.isFor target address) with
  | some p =>
    obtain ⟨node, hnode⟩ := (h.live p).mp (List.mem_of_find?_eq_some hfind)
    dsimp only
    rw [hnode, Option.bind_some]
    split
    · have hu := h.usage p node hnode
      have hsucc : (node.mutex.usage + 1).toNat = refs p + 1 := by
        rw [UInt32.toNat_add, hu]
        exact Nat.mod_eq_of_lt (hbound p)
      have hmodify := h.modify hnode
        (m := { node.mutex with usage := node.mutex.usage + 1 }) rfl rfl
        (by rw [hsucc]; exact Nat.succ_pos _)
      rw [hsucc] at hmodify
      have hfor := List.find?_some hfind
      rw [NfpCppHost.isFor, hnode] at hfor
      have hm : host.mutexAt p = some node.mutex :=
        NfpCppHost.mutexAt_eq_some.mpr ⟨node, hnode, rfl⟩
      refine hret (r := some p) ?_ hmodify ⟨{ node.mutex with usage := node.mutex.usage + 1 },
        of_decide_eq_true hfor, (NfpCppHost.depthOf_eq hm).symm, changed_modify, fun m₀ hm₀ => ?_⟩
      · rw [NfpCppHost.modify, hnode]
        rfl
      · rw [Option.some.inj (hm₀.symm.trans hm)]
        exact of_decide_eq_true hfor
    · exact hfail
  | none =>
    dsimp only
    split
    · exact hfail
    · refine .other (leaves_mur target _) fun x => ?_
      change Except ℤ UInt32 at x
      cases x with
      | error err => exact hfail
      | ok tmp =>
        dsimp only
        split
        · exact hfail
        -- the search found none, so the location has no handle
        · obtain ⟨r, host', xs', hnew, hok, halloc⟩ := h.newMutex calloc key
            fun q node hq hfor => by
              have hno := List.find?_eq_none.mp hfind q ((h.live q).mpr ⟨node, hq⟩)
              rw [NfpCppHost.isFor, hq] at hno
              exact hno (decide_eq_true hfor)
          exact hret hnew hok halloc

/-- The same for a run on any device. -/
theorem alloc {δ : Type} {dev : Device CppOp CppOp.Answer δ} {d d' : δ}
    {res : Option (Option ℕ × NfpCppHost)} (h : CacheOk host refs xs)
    (hbound : ∀ p, refs p + 1 < 2 ^ 32)
    (hrun : Runs dev (nfpCppMutexAlloc calloc target address key host) d res d') :
    ∃ r host' xs', res = some (r, host') ∧ CacheOk host' (withUser refs r) xs' := by
  obtain ⟨_, r, host', xs', hres, hok, -⟩ :=
    (h.client_alloc (a := 0) (i := 0) hbound).all.of_runs hrun
  exact ⟨r, host', xs', hres, hok⟩

/-- **`nfp_cpp_mutex_free`** of a handle in use. -/
theorem free (h : CacheOk host refs xs) (hp : 0 < refs p) : ∃ host' xs' m,
    nfpCppMutexFree p host = some host' ∧
      CacheOk host' (Function.update refs p (refs p - 1)) xs' ∧ Changed host host' p m ∧
      (m = none ∨ ∃ m₀ usage, host.mutexAt p = some m₀ ∧
        m = some { m₀ with usage := usage }) := by
  obtain ⟨node, hnode⟩ := (h.live p).mp ((h.held p).mpr hp)
  have hu := h.usage p node hnode
  -- the last user unlinks the handle, any other lowers the count
  by_cases hlast : refs p = 1
  · have hone : node.mutex.usage = 1 := UInt32.toNat_inj.mp (hu.trans hlast)
    refine ⟨_, xs.erase p, none, h.nfpCppMutexFree_last hnode hone, ?_, changed_remove, .inl rfl⟩
    rw [hlast]
    exact h.remove hnode
  · have hle : (1 : UInt32) ≤ node.mutex.usage := UInt32.le_iff_toNat_le.mpr (hu ▸ hp)
    have hpred : (node.mutex.usage - 1).toNat = refs p - 1 := by
      rw [UInt32.toNat_sub_of_le _ _ hle, hu]
      rfl
    have hpos : node.mutex.usage - 1 > 0 := by
      refine UInt32.lt_iff_toNat_lt.mpr ?_
      rw [hpred]
      exact Nat.sub_pos_of_lt (lt_of_le_of_ne hp (Ne.symm hlast))
    have hmodify := h.modify hnode
      (m := { node.mutex with usage := node.mutex.usage - 1 }) rfl rfl
      (UInt32.lt_iff_toNat_lt.mp hpos)
    rw [hpred] at hmodify
    refine ⟨_, xs, _, ?_, hmodify, changed_modify,
      .inr ⟨_, _, NfpCppHost.mutexAt_eq_some.mpr ⟨node, hnode, rfl⟩, rfl⟩⟩
    rw [nfpCppMutexFree, hnode, Option.bind_some, if_pos hpos, NfpCppHost.modify, hnode]
    rfl

end CacheOk

/-! ### Every order of the calls

A call has to return to be a step. That it does return a handle, and never touches one that is not
there, is `CacheSafe.alloc_ok`. -/

/-- The handles of a process, and how many users each of them has. -/
structure CacheState where
  host : NfpCppHost
  refs : ℕ → ℕ

/-- What users of handles do. -/
inductive CacheCall where
  | alloc (target : UInt8) (address : UInt64) (key : UInt32)
  | free (p : ℕ)
  /-- A call that locks or unlocks. -/
  | setDepth (p : ℕ) (depth : UInt16)

/-- A device that may answer anything. -/
def anyDevice : Device CppOp CppOp.Answer Unit := fun _ _ _ _ => True

/-- A call that returns. A user frees a handle that it has got, and there are fewer users than
the count can tell. -/
inductive CacheStep (calloc : ℕ → Bool) : CacheState → CacheCall → CacheState → Prop where
  | alloc {s : CacheState} {target : UInt8} {address : UInt64} {key : UInt32} {r : Option ℕ}
      {host' : NfpCppHost} : (∀ p, s.refs p + 1 < 2 ^ 32) →
      Runs anyDevice (nfpCppMutexAlloc calloc target address key s.host) () (some (r, host')) () →
      CacheStep calloc s (.alloc target address key) ⟨host', withUser s.refs r⟩
  | free {s : CacheState} {p : ℕ} {host' : NfpCppHost} : 0 < s.refs p →
      nfpCppMutexFree p s.host = some host' →
      CacheStep calloc s (.free p) ⟨host', Function.update s.refs p (s.refs p - 1)⟩
  | setDepth {s : CacheState} {p : ℕ} {depth : UInt16} {node : MutexNode} :
      s.host.heap p = some node →
      CacheStep calloc s (.setDepth p depth) { s with
        host := { s.host with
          heap := Function.update s.host.heap p
            (some { node with mutex := { node.mutex with depth := depth } }) } }

/-- A process that has no handle at first. -/
def cacheSystem (calloc : ℕ → Bool) : System CacheState CacheCall where
  init s := s.host.mutexCache = none ∧ s.host.heap = (fun _ => none) ∧ s.refs = fun _ => 0
  step := CacheStep calloc

/-- **What the cache promises.** -/
structure CacheSafe (calloc : ℕ → Bool) (s : CacheState) : Prop where
  /-- No call uses a handle that is not there. -/
  alloc_ok : ∀ target address key res, (∀ p, s.refs p + 1 < 2 ^ 32) →
    Runs anyDevice (nfpCppMutexAlloc calloc target address key s.host) () res () → res ≠ none
  free_ok : ∀ p, 0 < s.refs p → nfpCppMutexFree p s.host ≠ none
  /-- A handle is there as long as it has users, and counts them. -/
  live : ∀ p, (∃ node, s.host.heap p = some node) ↔ 0 < s.refs p
  usage : ∀ p node, s.host.heap p = some node → node.mutex.usage.toNat = s.refs p
  /-- The cache is a list of the handles in use. -/
  list : ∃ xs, IsList s.host.nextOf s.host.prevOf xs ∧ ∀ p, p ∈ xs ↔ 0 < s.refs p
  /-- There is one handle for a location. -/
  unique : ∀ p q node node', s.host.heap p = some node → s.host.heap q = some node' →
    node.mutex.target = node'.mutex.target → node.mutex.address = node'.mutex.address → p = q

/-- What `CacheOk` gives a caller. -/
theorem CacheOk.safe {s : CacheState} (h : CacheOk s.host s.refs xs) : CacheSafe calloc s where
  alloc_ok target address key res hbound hrun := by
    obtain ⟨r, host', xs', rfl, -⟩ := h.alloc hbound hrun
    exact Option.some_ne_none _
  free_ok p hp := by
    obtain ⟨host', xs', -, hfree, -⟩ := h.free hp
    rw [hfree]
    exact Option.some_ne_none _
  live p := (h.live p).symm.trans (h.held p)
  usage := h.usage
  list := ⟨xs, h.list, h.held⟩
  unique := h.unique

/-- Some handles are in use. -/
def CacheInv (s : CacheState) : Prop := ∃ xs, CacheOk s.host s.refs xs

/-- The empty heap is the empty list. -/
theorem CacheOk.init {s : CacheState} (hs : (cacheSystem calloc).init s) :
    CacheOk s.host s.refs [] := by
  obtain ⟨hcache, hheap, hrefs⟩ := hs
  refine ⟨isList_nil.mpr hcache, ?_, ?_, ?_, ?_, ?_⟩ <;> simp [hheap, hrefs]

/-- One call. -/
theorem CacheInv.step {s s' : CacheState} {call : CacheCall} (h : CacheInv s)
    (hstep : CacheStep calloc s call s') : CacheInv s' := by
  obtain ⟨xs, h⟩ := h
  cases hstep with
  | alloc hbound hrun =>
    obtain ⟨r, host', xs', hres, hok⟩ := h.alloc hbound hrun
    obtain ⟨rfl, rfl⟩ := Prod.mk.inj (Option.some.inj hres)
    exact ⟨xs', hok⟩
  | free hp hfree =>
    obtain ⟨host', xs', -, hfree', hok, -⟩ := h.free hp
    obtain rfl := Option.some.inj (hfree.symm.trans hfree')
    exact ⟨xs', hok⟩
  -- the depth is no part of what the cache keeps
  | @setDepth p depth node hnode =>
    have hu := h.usage p node hnode
    have hpos : 0 < s.refs p := (h.held p).mp ((h.live p).mpr ⟨node, hnode⟩)
    have hmodify := h.modify hnode (m := { node.mutex with depth := depth }) rfl rfl (hu ▸ hpos)
    rw [show ({ node.mutex with depth := depth } : NfpCppMutex).usage.toNat = s.refs p from hu,
      Function.update_eq_self] at hmodify
    exact ⟨xs, hmodify⟩

/-- So it is in every reachable state. -/
theorem CacheInv.of_reachable {s : CacheState} (hs : (cacheSystem calloc).Reachable s) :
    CacheInv s :=
  hs.invariant (fun _ h => ⟨[], .init h⟩) fun _ _ _ h hstep => h.step hstep

/-- **The handles of a process**, in every order of the calls. -/
theorem cacheSystem_safe {s : CacheState} (hs : (cacheSystem calloc).Reachable s) :
    CacheSafe calloc s := by
  obtain ⟨xs, hok⟩ := CacheInv.of_reachable hs
  exact hok.safe

/-- A process on an NFP-6000 without handles. -/
def freshHost : NfpCppHost := ⟨0x60000000, 0x1000, none, fun _ => none, 0⟩

/-- A location of which the process has no handle. -/
theorem reachable_newMutex {s : CacheState} (address : UInt64)
    (hs : (cacheSystem fun _ => true).Reachable s) (hbound : ∀ p, s.refs p + 1 < 2 ^ 32)
    (hmodel : nfpCppMutexValidate s.host.model nfpCppTargetMu address = .ok ())
    (hnone : s.host.cachedFrom nfpCppTargetMu address s.host.callocs s.host.mutexCache =
      some none) :
    (cacheSystem fun _ => true).Reachable
      ⟨s.host.insert ⟨nfpCppTargetMu, 0, address, 5, 1⟩,
        withUser s.refs (some s.host.callocs)⟩ := by
  obtain ⟨xs, hok⟩ := CacheInv.of_reachable hs
  have hrun : Runs anyDevice (nfpCppMutexAlloc (fun _ => true) nfpCppTargetMu address 5 s.host) ()
      (newMutex (fun _ => true) nfpCppTargetMu address 5 s.host) () := by
    simp only [nfpCppMutexAlloc, hnone, hmodel]
    -- the device shows the key
    exact runs_access.mpr ⟨(.ok 5 : Except ℤ UInt32), (), trivial, .refl⟩
  rw [hok.newMutex_eq rfl] at hrun
  exact hs.step (.alloc hbound hrun)

theorem withUser_le {refs : ℕ → ℕ} {k : ℕ} (h : ∀ p, refs p ≤ k) (r : Option ℕ) (p : ℕ) :
    withUser refs r p ≤ k + 1 := by
  cases r with
  | none => exact Nat.le_succ_of_le (h p)
  | some q =>
    rw [withUser, Function.update_apply]
    split
    · exact Nat.succ_le_succ (h q)
    · exact Nat.le_succ_of_le (h p)

/-- Two handles are made, and a second user gets the first. The handle of the other user stays
when one gives it back, and the second handle goes with its only user. -/
theorem cacheSystem_safe_two : ∃ s, (cacheSystem fun _ => true).Reachable s ∧
    s.refs 0 = 1 ∧ s.refs 1 = 0 ∧ (s.host.heap 0).isSome ∧ s.host.heap 1 = none ∧
    CacheSafe (fun _ => true) s := by
  have hinit : (cacheSystem fun _ => true).init ⟨freshHost, fun _ => 0⟩ := ⟨rfl, rfl, rfl⟩
  have hrefs₁ : ∀ p, withUser (fun _ => 0) (some 0) p ≤ 1 := withUser_le (fun _ => le_rfl) _
  have hrefs₂ := withUser_le hrefs₁ (some 1)
  have hone := reachable_newMutex 0 (.init hinit)
    (fun _ => (by decide : 0 + 1 < 2 ^ 32)) rfl rfl
  have htwo := reachable_newMutex 8 hone
    (fun p => Nat.lt_of_le_of_lt (Nat.succ_le_succ (hrefs₁ p)) (by decide)) rfl rfl
  -- the key in the handle is the caller's, and nothing is read from the device
  have hthree := htwo.step (show CacheStep _ _ (.alloc nfpCppTargetMu 0 5) _ from
    .alloc (r := some 0) (fun p => Nat.lt_of_le_of_lt (Nat.succ_le_succ (hrefs₂ p)) (by decide))
      .refl)
  have hfour := hthree.step (.free (p := 0) (by decide) rfl)
  have hfive := hfour.step (.free (p := 1) (by decide) rfl)
  exact ⟨_, hfive, by decide, by decide, by decide, by decide, cacheSystem_safe hfive⟩

end NfpUdpEcho
