import Mathlib.Data.Nat.Bitwise
import NfpUdpEcho.Framework.Lock
import NfpUdpEcho.NfpCore.MutexClient

/-!
# One mutex, several interfaces

Any number of parties, each under an interface id of its own, run programs that use the mutex at
one address of the MU through `nfp_cpp_mutex_trylock` and `nfp_cpp_mutex_unlock`, and may make
any other access in between that leaves the lock word alone (`Client`). Their accesses come in
any order, each may fail, and a process may die at any point and begin again with a fresh
handle.

The runs are simulated by `Lock.lockSystem`. The lock word says who holds the mutex but for one
window: between `test_set_imm` and the write of the owner it is `0x000f` below whatever the high
half of the unlocked word was. An interface with that id would take the mutex for its own, so
none may have it (`mutexExclusive_iff`).

The proof goes bottom up:

* *the word*: the three tests of a lock word are facts about its two halves as numbers, so that
  `omega` settles what `test_set_imm` makes of it;
* *the programs*: `Client.head` says what a program of the client does next. A call on a handle that
  is locked already makes no access, and the induction passes over it;
* *the parties*: `At` lists the points where a party can be between two accesses, with what it knows
  of the lock there. `At.mono` says that a step of the lock which is not the party's own changes
  nothing of it;
* *the simulation*: `advances_access` and `advances_begin` show that each step is one of the lock,
  or none, and the runs follow (`mutexSimulation`, `mutexRun_lock`).

Safety, the order of the steps and the lost mutex are then facts of `Lock.lockSystem`. The other
direction of `mutexExclusive_iff` is a run: `exists_two_holders` for a name in the high half of an
unlocked word, which `mutexUnlock` makes 0 from the first release on (`exists_unlocked`).
-/

namespace NfpUdpEcho

open Access Lock LTS Errno

/-! ### Lock words as numbers -/

/-- A locked word ends in `0x000f`. -/
theorem mutexIsLocked_iff (w : UInt32) : mutexIsLocked w = true ↔ w.toNat % 2 ^ 16 = 15 := by
  have hmask : (0xffff : UInt32).toNat = 2 ^ 16 - 1 := rfl
  rw [mutexIsLocked, beq_iff_eq, ← UInt32.toNat_inj, UInt32.toNat_and, hmask,
    Nat.and_two_pow_sub_one_eq_mod]
  rfl

/-- An unlocked one ends in zeros. -/
theorem mutexIsUnlocked_iff (w : UInt32) : mutexIsUnlocked w = true ↔ w.toNat % 2 ^ 16 = 0 := by
  have hmask : (0xffff : UInt32).toNat = 2 ^ 16 - 1 := rfl
  rw [mutexIsUnlocked, beq_iff_eq, ← UInt32.toNat_inj, UInt32.toNat_and, hmask,
    Nat.and_two_pow_sub_one_eq_mod]
  rfl

/-- The interface is the high half. -/
theorem toNat_mutexInterface (w : UInt32) : (mutexInterface w).toNat = w.toNat / 2 ^ 16 := by
  have hmask : (0xffff : UInt32).toNat = 2 ^ 16 - 1 := rfl
  rw [mutexInterface, UInt32.toNat_toUInt16, UInt32.toNat_and, hmask,
    Nat.and_two_pow_sub_one_eq_mod, UInt32.toNat_shiftRight, Nat.mod_mod,
    Nat.shiftRight_eq_div_pow]
  exact Nat.mod_eq_of_lt (Nat.div_lt_of_lt_mul w.toNat_lt)

/-- What an owner writes. -/
theorem toNat_mutexLocked (i : UInt16) : (mutexLocked i).toNat = i.toNat * 2 ^ 16 + 15 := by
  have hshift : (i.toUInt32 <<< 16).toNat = i.toNat <<< 16 := by
    rw [UInt32.toNat_shiftLeft, UInt16.toNat_toUInt32]
    refine Nat.mod_eq_of_lt ?_
    rw [Nat.shiftLeft_eq]
    exact Nat.mul_lt_mul_of_pos_right i.toNat_lt (by decide)
  rw [mutexLocked, UInt32.toNat_or, hshift]
  exact (Nat.shiftLeft_add_eq_or_of_lt (by decide : 15 < 2 ^ 16) _).symm.trans
    (by rw [Nat.shiftLeft_eq])

/-- What `test_set_imm` makes of a lock word. -/
theorem toNat_or_low (w : UInt32) (h : w.toNat % 2 ^ 16 = 0 ∨ w.toNat % 2 ^ 16 = 15) :
    (w ||| 0xf).toNat = w.toNat / 2 ^ 16 * 2 ^ 16 + 15 := by
  have hw : w.toNat = (w.toNat / 2 ^ 16) <<< 16 + w.toNat % 2 ^ 16 := by
    rw [Nat.shiftLeft_eq, Nat.div_add_mod']
  -- the low half is one of two values, and the high half has no bit in common with `0xf`
  have hor : w.toNat % 2 ^ 16 ||| 15 = 15 := by
    rcases h with h | h <;> rw [h] <;> rfl
  have h15 : (0xf : UInt32).toNat = 15 := rfl
  rw [UInt32.toNat_or]
  conv_lhs => rw [hw, h15, Nat.shiftLeft_add_eq_or_of_lt (Nat.mod_lt _ (by decide)),
    Nat.or_assoc, hor]
  rw [← Nat.shiftLeft_add_eq_or_of_lt (by decide : 15 < 2 ^ 16), Nat.shiftLeft_eq]

@[simp] theorem mutexIsLocked_mutexLocked (i : UInt16) : mutexIsLocked (mutexLocked i) = true := by
  rw [mutexIsLocked_iff, toNat_mutexLocked]
  omega

@[simp] theorem mutexInterface_mutexLocked (i : UInt16) : mutexInterface (mutexLocked i) = i := by
  rw [← UInt16.toNat_inj, toNat_mutexInterface, toNat_mutexLocked]
  omega

theorem not_unlocked_of_locked {w : UInt32} (h : mutexIsLocked w = true) :
    mutexIsUnlocked w = false := by
  rw [Bool.eq_false_iff, ne_eq, mutexIsUnlocked_iff]
  have hw := (mutexIsLocked_iff w).mp h
  omega

/-- A locked word names one owner. -/
theorem eq_mutexLocked_iff {w : UInt32} {i : UInt16} :
    w = mutexLocked i ↔ mutexIsLocked w = true ∧ mutexInterface w = i := by
  constructor
  · rintro rfl
    exact ⟨mutexIsLocked_mutexLocked i, mutexInterface_mutexLocked i⟩
  · rintro ⟨hlocked, rfl⟩
    have hlow := (mutexIsLocked_iff w).mp hlocked
    rw [← UInt32.toNat_inj, toNat_mutexLocked, toNat_mutexInterface]
    omega

/-- `test_set_imm` leaves a locked word as it is. -/
theorem or_low_locked {w : UInt32} (h : mutexIsLocked w = true) : w ||| 0xf = w := by
  have hlow := (mutexIsLocked_iff w).mp h
  rw [← UInt32.toNat_inj, toNat_or_low w (.inr hlow)]
  omega

/-- It locks an unlocked word and leaves its high half. -/
theorem or_low_unlocked {w : UInt32} (h : mutexIsUnlocked w = true) :
    mutexIsLocked (w ||| 0xf) = true ∧ mutexInterface (w ||| 0xf) = mutexInterface w := by
  have hor := toNat_or_low w (.inl ((mutexIsUnlocked_iff w).mp h))
  rw [mutexIsLocked_iff, ← UInt16.toNat_inj, toNat_mutexInterface, toNat_mutexInterface, hor]
  omega

/-! ### The programs

Between two accesses a program may return, make an access that leaves the lock word alone, or call
`trylock` or `unlock` on its handle. A call on a handle of some depth can be over without an access,
and what comes next is then what the program goes on with. -/

variable {α : Type} {a : UInt64} {depth : α → UInt16} {i : UInt16} {n : UInt16} {r : CppProg α}
  {mutex : NfpCppMutex}

/-- What a program goes on with after a call on the handle. -/
def KeepsOn (a : UInt64) (depth : α → UInt16) (i : UInt16) (results : MutexResult → Prop)
    (k : MutexResult → CppProg α) : Prop :=
  ∀ q, results q → Client a (tells depth) i q.2.depth (k q)

/-- What a program does next. It holds the mutex only if `holds`. -/
inductive Head (a : UInt64) (depth : α → UInt16) (i : UInt16) (holds : Prop) :
    CppProg α → Prop where
  | ret (x : α) : (0 < depth x → holds) → Head a depth i holds (.ret x)
  | other {op : CppOp} {k : op.Answer → CppProg α} : op.Leaves a →
      (∀ x, ∃ n, (0 < n → holds) ∧ Client a (tells depth) i n (k x)) →
      Head a depth i holds (.access op k)
  | trylock {mutex : NfpCppMutex} {k : MutexResult → CppProg α} : mutex.On a →
      KeepsOn a depth i (Locks mutex) k → mutex.depth = 0 →
      Head a depth i holds (.access (.readl (mur mutex.target) (mutex.address + 4))
        fun x => (trylockKey i mutex x).bind k)
  | unlock {mutex : NfpCppMutex} {k : MutexResult → CppProg α} : mutex.On a →
      KeepsOn a depth i (Unlocks mutex) k → mutex.depth ≤ 1 → (0 < mutex.depth → holds) →
      Head a depth i holds (.access (.readl (mur mutex.target) mutex.address)
        fun x => (unlockValue i mutex x).bind k)

/-- A program that holds the mutex under weaker conditions is fine under stronger ones. -/
theorem Head.mono {holds holds' : Prop} (h : holds → holds') (hr : Head a depth i holds r) :
    Head a depth i holds' r := by
  cases hr with
  | ret x hx => exact .ret x fun hpos => h (hx hpos)
  | other hop hk =>
    refine .other hop fun x => ?_
    obtain ⟨n, hn, hc⟩ := hk x
    exact ⟨n, fun hpos => h (hn hpos), hc⟩
  | trylock hon hk h0 => exact .trylock hon hk h0
  | unlock hon hk h1 hn => exact .unlock hon hk h1 fun hpos => h (hn hpos)

/-- Calls on a handle that is locked already make no access, and leave it locked. -/
theorem Client.head (h : Client a (tells depth) i n r) : Head a depth i (0 < n) r := by
  induction h with
  | @ret n x hx => exact .ret x fun hpos => hx ▸ hpos
  -- a handle that is forgotten is one that does not hold the mutex
  | forget _ ih => exact ih.mono fun hpos => absurd hpos (by decide)
  | other hop hk _ => exact .other hop fun x => ⟨_, id, hk x⟩
  | @trylock mutex k hon hk ih =>
    unfold nfpCppMutexTrylock
    split
    -- locked already: the depth goes up, or is at its maximum
    next hpos =>
      split
      next _ => exact ih _ (.error E2BIG)
      next hmax =>
        have hsucc : (0 < mutex.depth + 1) = (0 < mutex.depth) := by
          refine propext ⟨fun _ => hpos, fun _ => ?_⟩
          rw [UInt16.lt_iff_toNat_lt, UInt16.toNat_add]
          have hlt := mutex.depth.toNat_lt
          have hne : mutex.depth.toNat ≠ 65535 := fun h => hmax (UInt16.toNat_inj.mp h)
          have h1 : (1 : UInt16).toNat = 1 := rfl
          rw [h1, Nat.mod_eq_of_lt (by omega)]
          exact Nat.succ_pos _
        exact hsucc ▸ ih _ (.inr ⟨hmax, rfl⟩)
    -- not locked: the key is read
    next hzero =>
      have h0 : mutex.depth = 0 := UInt16.le_zero_iff.mp (UInt16.not_lt.mp hzero)
      exact .trylock hon hk h0
  | @unlock mutex k hon hk ih =>
    unfold nfpCppMutexUnlock
    split
    next hpos =>
      have hlt : 1 < mutex.depth.toNat := UInt16.lt_iff_toNat_lt.mp hpos
      have hpred : (0 < mutex.depth - 1) = (0 < mutex.depth) := by
        have h1 : (1 : UInt16).toNat = 1 := rfl
        refine propext ⟨fun _ => ?_, fun _ => ?_⟩
        · exact UInt16.lt_iff_toNat_lt.mpr (Nat.lt_trans Nat.zero_lt_one hlt)
        · rw [UInt16.lt_iff_toNat_lt, UInt16.toNat_sub_of_le _ _ (UInt16.le_of_lt hpos), h1]
          exact Nat.sub_pos_of_lt hlt
      exact hpred ▸ ih _ (.pred hpos)
    -- the last unlock reads the word
    next hle => exact .unlock hon hk (UInt16.not_lt.mp hle) id

/-! ### The system

A party holds the mutex while its handle has some depth. `At` has one constructor for the start of a
program and one for each access that a call is about to make; what is known at each is what the
checks before it have established. -/

variable {P : Type} (iface : P → UInt16)

/-- What the word of the lock is. -/
def LockWord : LockState P → UInt32 → Prop
  | .free, w => mutexIsUnlocked w = true ∧ ∀ p, mutexInterface w ≠ iface p
  | .held p, w => w = mutexLocked (iface p)
  | .claimed _, w | .lost, w => mutexIsLocked w = true ∧ ∀ p, mutexInterface w ≠ iface p

/-- Where a party is, with what it knows of the lock. -/
inductive At (a : UInt64) (depth : α → UInt16) (p : P) (s : LockState P) : CppProg α → Prop where
  | client {n : UInt16} {r : CppProg α} : Client a (tells depth) (iface p) n r →
      (0 < n → s = .held p) → At a depth p s r
  | testSet {mutex : NfpCppMutex} {k : MutexResult → CppProg α} : mutex.On a →
      KeepsOn a depth (iface p) (Locks mutex) k → mutex.depth = 0 →
      At a depth p s (.access (.readl (mus mutex.target) mutex.address)
        fun x => (trylockTestSet (iface p) mutex x).bind k)
  | owner {mutex : NfpCppMutex} {k : MutexResult → CppProg α} : mutex.On a →
      KeepsOn a depth (iface p) (Locks mutex) k → mutex.depth = 0 → s = .claimed p →
      At a depth p s (.access (.writel (muw mutex.target) mutex.address (mutexLocked (iface p)))
        fun x => (trylockOwner mutex x).bind k)
  | key {mutex : NfpCppMutex} {k : MutexResult → CppProg α} {value : UInt32} : mutex.On a →
      KeepsOn a depth (iface p) (Unlocks mutex) k → mutex.depth ≤ 1 →
      (0 < mutex.depth → s = .held p) →
      (value = mutexLocked (iface p) → s = .held p) →
      At a depth p s (.access (.readl (mur mutex.target) (mutex.address + 4))
        fun x => (unlockKey (iface p) mutex value x).bind k)
  | write {mutex : NfpCppMutex} {k : MutexResult → CppProg α} : mutex.On a →
      KeepsOn a depth (iface p) (Unlocks mutex) k → mutex.depth ≤ 1 → s = .held p →
      At a depth p s (.access (.writel (muw mutex.target) mutex.address (mutexUnlock (iface p)))
        fun x => (unlockWrite mutex x).bind k)

/-- What an access to the lock word shows of the lock. -/
def accessShows (a : UInt64) (p : P) : (op : CppOp) → op.Answer → Option (LockStep P)
  | .readl cppId a', x =>
    match x with
    | .ok tmp =>
      if cppId = mus nfpCppTargetMu ∧ a' = a ∧ mutexIsUnlocked tmp = true then some (.acquire p)
      else none
    | .error _ => none
  | .writel _ a' value, x =>
    if a' = a then
      match x with
      | .ok _ => some (if value = mutexUnlock 0 then .release p else .confirm p)
      | .error _ => if value = mutexUnlock 0 then none else some (.abandon p)
    else none
  | .readq _ _, _ | .writeq _ _ _, _ | .read _ _ _, _ | .write _ _ _, _ => none

/-- What an event shows of the lock. A party that begins another program where it was about to
write its name abandons the lock. -/
def mutexShows (a : UInt64) (p : P) (r : CppProg α) :
    Event P CppOp CppOp.Answer α → Option (LockStep P)
  | .access _ op x => accessShows a p op x
  | .begin _ _ =>
    match r with
    | .access (.writel _ a' value) _ =>
      if a' = a ∧ value ≠ mutexUnlock 0 then some (.abandon p) else none
    | _ => none

/-- A program follows one that has returned, or that of a process that has died. -/
def mutexBegins (a : UInt64) (depth : α → UInt16) (p : P) (r r' : CppProg α) : Prop :=
  (∃ x, r = .ret x ∧ Client a (tells depth) (iface p) (depth x) r') ∨
    Client a (tells depth) (iface p) 0 r'

/-- The parties, with fresh handles and the memory `m` of the device. -/
def mutexInit (depth : α → UInt16) (m : MuMemory)
    (c : Config P CppOp CppOp.Answer α MuMemory) : Prop :=
  c.dev = m ∧ ∀ p, ∃ x, c.prog p = .ret x ∧ depth x = 0

variable [DecidableEq P]

/-- The parties on one memory of the device, in any order. -/
def mutexSystem (a : UInt64) (depth : α → UInt16) (m : MuMemory) :
    System (Config P CppOp CppOp.Answer α MuMemory) (Event P CppOp CppOp.Answer α) :=
  parallel (mutexInit depth m) muDevice (mutexBegins iface a depth)

/-- The party has locked the mutex, and goes on with its own work. -/
def HoldsMutex (depth : α → UInt16) (c : Config P CppOp CppOp.Answer α MuMemory) (p : P) : Prop :=
  ∃ x, c.prog p = .ret x ∧ 0 < depth x

/-! ### What an access does -/

section Accesses

omit [DecidableEq P]

variable {m m' : MuMemory} {op : CppOp} {x : op.Answer} {a' : UInt64} {value : UInt32}

/-- An access that leaves the word of the lock alone. -/
theorem muDevice_leaves (hop : op.Leaves a) (h : muDevice op m x m') : m' a = m a := by
  cases op with
  | readl cppId a' =>
    obtain ⟨_, -, rfl⟩ | ⟨-, -, rfl⟩ | ⟨rfl, -, rfl⟩ | ⟨-, -, rfl⟩ := h
    · rfl
    · rfl
    -- `test_set_imm` on another address
    · have hne : a' ≠ a := hop.resolve_left fun h => h rfl
      exact Function.update_of_ne hne.symm _ _
    · rfl
  | writel cppId a' value =>
    obtain ⟨_, -, rfl⟩ | ⟨-, -, rfl⟩ | ⟨-, hsame⟩ := h
    · rfl
    · exact Function.update_of_ne (Ne.symm hop) _ _
    · exact hsame a (Ne.symm hop)
  | readq cppId a' => exact congrFun h a
  | read cppId a' length =>
    obtain ⟨_, -, rfl⟩ | ⟨-, -, rfl⟩ | ⟨-, rfl⟩ := h <;> rfl
  | writeq cppId a' value => exact hop.elim
  | write cppId a' bytes => exact hop.elim

/-- Such an access shows nothing of the lock. -/
theorem accessShows_leaves (hop : op.Leaves a) (p : P) : accessShows a p op x = none := by
  cases op with
  | readl cppId a' =>
    change Except ℤ UInt32 at x
    cases x with
    | error err => rfl
    | ok tmp => exact if_neg fun h => hop.elim (fun hid => hid h.1) fun hne => hne h.2.1
  | writel cppId a' value => exact if_neg hop
  | readq cppId a' => rfl
  | read cppId a' length => rfl
  | writeq cppId a' value => rfl
  | write cppId a' bytes => rfl

variable {target : UInt8}

/-- A plain read changes nothing. -/
theorem muDevice_mur (ht : target = nfpCppTargetMu) {x : Except ℤ UInt32}
    (h : muDevice (.readl (mur target) a') m x m') :
    m' = m ∧ ((∃ err, x = .error err) ∨ x = .ok (m a')) := by
  subst ht
  obtain ⟨err, rfl, rfl⟩ | ⟨-, rfl, rfl⟩ | ⟨hid, -, -⟩ | ⟨hid, -, -⟩ := h
  · exact ⟨rfl, .inl ⟨err, rfl⟩⟩
  · exact ⟨rfl, .inr rfl⟩
  · exact absurd hid (by decide)
  · exact absurd rfl hid

/-- `test_set_imm` gives the old word and sets its low bits. -/
theorem muDevice_mus (ht : target = nfpCppTargetMu) {x : Except ℤ UInt32}
    (h : muDevice (.readl (mus target) a') m x m') :
    (∃ err, x = .error err ∧ m' = m) ∨
      x = .ok (m a') ∧ m' = Function.update m a' (m a' ||| 0xf) := by
  subst ht
  obtain ⟨err, rfl, rfl⟩ | ⟨hid, -, -⟩ | ⟨-, rfl, rfl⟩ | ⟨-, hid, -⟩ := h
  · exact .inl ⟨err, rfl, rfl⟩
  · exact absurd hid (by decide)
  · exact .inr ⟨rfl, rfl⟩
  · exact absurd rfl hid

/-- A write is made, or fails and changes nothing. -/
theorem muDevice_muw (ht : target = nfpCppTargetMu) {x : Except ℤ Unit}
    (h : muDevice (.writel (muw target) a' value) m x m') :
    (∃ err, x = .error err ∧ m' = m) ∨ x = .ok () ∧ m' = Function.update m a' value := by
  subst ht
  obtain ⟨err, rfl, rfl⟩ | ⟨-, rfl, rfl⟩ | ⟨hid, -⟩ := h
  · exact .inl ⟨err, rfl, rfl⟩
  · exact .inr ⟨rfl, rfl⟩
  · exact absurd rfl hid

/-- A plain read shows nothing of the lock. -/
theorem accessShows_mur (ht : target = nfpCppTargetMu) {x : Except ℤ UInt32} (p : P) :
    accessShows a p (.readl (mur target) a') x = none := by
  subst ht
  cases x with
  | error err => rfl
  | ok tmp =>
    simp only [accessShows]
    exact if_neg fun h => absurd h.1 (by decide)

end Accesses

/-! ### The lock word and the lock -/

section Words

variable {iface} {s s' : LockState P} {w : UInt32} {p q : P}

omit [DecidableEq P]

/-- The word is unlocked only if the lock is free. -/
theorem LockWord.free_of_unlocked (h : LockWord iface s w) (hw : mutexIsUnlocked w = true) :
    s = .free := by
  cases s with
  | free => rfl
  -- every other state of the lock has a locked word
  | claimed q => exact absurd hw (by rw [not_unlocked_of_locked h.1]; decide)
  | held q =>
    have hlocked : mutexIsLocked w = true := h ▸ mutexIsLocked_mutexLocked _
    exact absurd hw (by rw [not_unlocked_of_locked hlocked]; decide)
  | lost => exact absurd hw (by rw [not_unlocked_of_locked h.1]; decide)

/-- Only a party that holds the mutex finds its own name. -/
theorem LockWord.held_of_eq (hinj : Function.Injective iface) (h : LockWord iface s w)
    (hw : w = mutexLocked (iface p)) : s = .held p := by
  obtain ⟨hlocked, hname⟩ := eq_mutexLocked_iff.mp hw
  cases s with
  | free => exact absurd h.1 (by rw [not_unlocked_of_locked hlocked]; decide)
  -- in the window, and when the mutex is lost, the name is nobody's
  | claimed q => exact absurd hname (h.2 p)
  | held q =>
    have hq : mutexInterface w = iface q := (eq_mutexLocked_iff.mp h).2
    rw [hinj (hname.symm.trans hq)]
  | lost => exact absurd hname (h.2 p)

/-- And locked otherwise. -/
theorem LockWord.locked (h : LockWord iface s w) (hs : s ≠ .free) : mutexIsLocked w = true := by
  cases s with
  | free => exact absurd rfl hs
  | claimed q => exact h.1
  | held q => exact h ▸ mutexIsLocked_mutexLocked _
  | lost => exact h.1

/-- `test_set_imm` on a mutex that is not free. -/
theorem LockWord.testSet (h : LockWord iface s w) (hs : s ≠ .free) :
    LockWord iface s (w ||| 0xf) := by
  rwa [or_low_locked (h.locked hs)]

/-- `test_set_imm` on one that is. -/
theorem LockWord.claim (h : LockWord iface .free w) (p : P) :
    LockWord iface (.claimed p) (w ||| 0xf) := by
  obtain ⟨hlocked, hname⟩ := or_low_unlocked h.1
  exact ⟨hlocked, fun q => hname ▸ h.2 q⟩

/-- Unlocking writes zeros, and no party has the name 0. -/
theorem LockWord.release (hzero : ∀ p, iface p ≠ 0) : LockWord iface .free (mutexUnlock 0) :=
  ⟨rfl, fun p => (hzero p).symm⟩

/-- What is written tells whether the mutex is locked or unlocked. -/
theorem mutexLocked_ne_unlock (i : UInt16) : mutexLocked i ≠ mutexUnlock 0 := by
  intro h
  have hw : mutexIsLocked (mutexUnlock 0) = true := h ▸ mutexIsLocked_mutexLocked i
  exact absurd hw (by decide)

/-- What a party knows does not depend on the rest of the lock. -/
theorem At.mono (hheld : s = .held q → s' = .held q) (hclaimed : s = .claimed q → s' = .claimed q)
    (h : At iface a depth q s r) : At iface a depth q s' r := by
  cases h with
  | client hc hn => exact .client hc fun hpos => hheld (hn hpos)
  | testSet hon hk h0 => exact .testSet hon hk h0
  | owner hon hk h0 hs => exact .owner hon hk h0 (hclaimed hs)
  | key hon hk h1 hn hv =>
    exact .key hon hk h1 (fun hpos => hheld (hn hpos)) fun he => hheld (hv he)
  | write hon hk h1 hs => exact .write hon hk h1 (hheld hs)

/-- What a call returns with is a program of the party again. -/
theorem KeepsOn.at {results : MutexResult → Prop} {k : MutexResult → CppProg α}
    (hk : KeepsOn a depth (iface p) results k) {q : MutexResult} (hq : results q)
    (hn : 0 < q.2.depth → s = .held p) : At iface a depth p s (k q) :=
  .client (hk q hq) hn

end Words

/-! ### The simulation

Each of the points of `At` that make an access to the lock word has its lemma; the rest are quiet
steps. A failed access leaves the word alone, but a party whose write of the owner fails has set the
low bits of a word that it will not unlock: the lock is lost. -/

section Simulation

variable {iface} {p : P} {s : LockState P} {m m' : MuMemory}

omit [DecidableEq P]

/-- What has to be shown of a step of the party `p`, that shows `o` and leaves the lock word `w`
and the program `r`. -/
def MutexAdvances (iface : P → UInt16) (a : UInt64) (depth : α → UInt16) (p : P)
    (s₀ s : LockState P) (o : Option (LockStep P)) (w : UInt32) (r : CppProg α) : Prop :=
  ∃ s', Follows (lockSystem s₀) s o s' ∧ LockWord iface s' w ∧ At iface a depth p s' r ∧
    ∀ q r, q ≠ p → At iface a depth q s r → At iface a depth q s' r

variable {s₀ s' : LockState P} {o : Option (LockStep P)} {w : UInt32}

/-- A step that shows nothing and leaves the lock as it was. -/
theorem MutexAdvances.quiet (ho : o = none) (hword : LockWord iface s w)
    (hAt : At iface a depth p s r) : MutexAdvances iface a depth p s₀ s o w r :=
  ⟨s, ho ▸ rfl, hword, hAt, fun _ _ _ h => h⟩

/-- A step of the lock that one party takes leaves what the others know. -/
theorem MutexAdvances.of_takes {l : LockStep P} (h : Takes s l s') (ho : o = some l)
    (hs : s = .free ∨ s = .claimed p ∨ s = .held p) (hword : LockWord iface s' w)
    (hAt : At iface a depth p s' r) : MutexAdvances iface a depth p s₀ s o w r := by
  subst ho
  refine ⟨s', h, hword, hAt, fun q r hq hAt => ?_⟩
  refine hAt.mono (fun hheld => ?_) (fun hclaimed => ?_)
  · subst hheld
    obtain h | h | h := hs <;> cases h
    exact absurd rfl hq
  · subst hclaimed
    obtain h | h | h := hs <;> cases h
    exact absurd rfl hq

/-- The answer of `test_set_imm`. -/
theorem advances_testSet (hinj : Function.Injective iface) (hInv : LockWord iface s (m a))
    {k : MutexResult → CppProg α} (hon : mutex.On a)
    (hk : KeepsOn a depth (iface p) (Locks mutex) k) (h0 : mutex.depth = 0) {x : Except ℤ UInt32}
    (hx : muDevice (.readl (mus mutex.target) mutex.address) m x m') :
    MutexAdvances iface a depth p s₀ s
      (accessShows a p (.readl (mus mutex.target) mutex.address) x) (m' a)
      ((trylockTestSet (iface p) mutex x).bind k) := by
  obtain ⟨ht, rfl⟩ := id hon
  have hret (err : ℤ) : At iface mutex.address depth p s (k (.error err, mutex)) :=
    hk.at (.error err) fun hpos => absurd (h0 ▸ hpos) (by decide)
  -- the read failed, or it gave the old word
  obtain ⟨err, rfl, rfl⟩ | ⟨rfl, rfl⟩ := muDevice_mus ht hx
  · exact .quiet rfl hInv (hret err)
  · rw [Function.update_self]
    by_cases hfree : mutexIsUnlocked (m mutex.address) = true
    · -- the mutex is free, and claimed now
      obtain rfl := hInv.free_of_unlocked hfree
      refine .of_takes (.acquire p) ?_ (.inl rfl) (hInv.claim p) ?_
      · simp only [accessShows, ht, hfree, and_self, if_true]
      · simp only [trylockTestSet, hfree, if_true]
        exact .owner hon hk h0 rfl
    -- the mutex is taken, and the word stays: it is ours only if we hold it
    · have hs : s ≠ .free := by
        rintro rfl
        exact hfree hInv.1
      have hshows : accessShows mutex.address p (.readl (mus mutex.target) mutex.address)
          (.ok (m mutex.address)) = none := by
        simp only [accessShows]
        exact if_neg fun h => hfree h.2.2
      refine .quiet hshows (hInv.testSet hs) ?_
      simp only [trylockTestSet, if_neg hfree]
      split
      next hours => exact hk.at (.first h0) fun _ => hInv.held_of_eq hinj hours
      next _ => exact hret _

/-- The answer to the write of the owner. -/
theorem advances_owner (hInv : LockWord iface (.claimed p) (m a))
    {k : MutexResult → CppProg α} (hon : mutex.On a)
    (hk : KeepsOn a depth (iface p) (Locks mutex) k) (h0 : mutex.depth = 0) {x : Except ℤ Unit}
    (hx : muDevice (.writel (muw mutex.target) mutex.address (mutexLocked (iface p))) m x m') :
    MutexAdvances iface a depth p s₀ (.claimed p)
      (accessShows a p (.writel (muw mutex.target) mutex.address (mutexLocked (iface p))) x)
      (m' a) ((trylockOwner mutex x).bind k) := by
  obtain ⟨ht, rfl⟩ := id hon
  obtain ⟨err, rfl, rfl⟩ | ⟨rfl, rfl⟩ := muDevice_muw ht hx
  -- the write failed: nobody will unlock the word
  · refine .of_takes (.abandon p) ?_ (.inr (.inl rfl)) hInv (hk.at (.error err) ?_)
    · simp only [accessShows, if_true, mutexLocked_ne_unlock, if_false]
    · exact fun hpos => absurd hpos (by rw [h0]; decide)
  · refine .of_takes (.confirm p) ?_ (.inr (.inl rfl)) (Function.update_self ..)
      (hk.at (.first h0) fun _ => rfl)
    simp only [accessShows, if_true, mutexLocked_ne_unlock, if_false]

/-- The answer to the write that unlocks. -/
theorem advances_write (hzero : ∀ p, iface p ≠ 0) (hInv : LockWord iface (.held p) (m a))
    {k : MutexResult → CppProg α} (hon : mutex.On a)
    (hk : KeepsOn a depth (iface p) (Unlocks mutex) k) (h1 : mutex.depth ≤ 1)
    {x : Except ℤ Unit}
    (hx : muDevice (.writel (muw mutex.target) mutex.address (mutexUnlock (iface p))) m x m') :
    MutexAdvances iface a depth p s₀ (.held p)
      (accessShows a p (.writel (muw mutex.target) mutex.address (mutexUnlock (iface p))) x)
      (m' a) ((unlockWrite mutex x).bind k) := by
  obtain ⟨ht, rfl⟩ := id hon
  obtain ⟨err, rfl, rfl⟩ | ⟨rfl, rfl⟩ := muDevice_muw ht hx
  -- the write failed, and the party still holds the mutex
  · refine .quiet ?_ hInv (hk.at (.error err) fun _ => rfl)
    simp only [accessShows, if_true, show mutexUnlock (iface p) = mutexUnlock 0 from rfl]
  · refine .of_takes (.release p) ?_ (.inr (.inr rfl)) ?_
      (hk.at (.last h1) fun h => absurd h (lt_irrefl 0))
    · simp only [accessShows, if_true, show mutexUnlock (iface p) = mutexUnlock 0 from rfl]
    · rw [Function.update_self]
      exact LockWord.release hzero

/-- **One access of a party.** -/
theorem advances_access (hinj : Function.Injective iface) (hzero : ∀ p, iface p ≠ 0) {op : CppOp}
    {k : op.Answer → CppProg α} {x : op.Answer} (hInv : LockWord iface s (m a))
    (hAt : At iface a depth p s (.access op k)) (hx : muDevice op m x m') :
    MutexAdvances iface a depth p s₀ s (accessShows a p op x) (m' a) (k x) := by
  cases hAt with
  | client hc hn =>
    cases hc.head with
    -- an access of its own
    | other hop hk =>
      obtain ⟨n', hn', hc'⟩ := hk x
      rw [muDevice_leaves hop hx]
      exact .quiet (accessShows_leaves hop p) hInv (.client hc' fun hpos => hn (hn' hpos))
    -- the key is compared before anything is written
    | @trylock mutex k hon hk h0 =>
      obtain ⟨ht, rfl⟩ := id hon
      have hret (err : ℤ) : At iface mutex.address depth p s (k (.error err, mutex)) :=
        hk.at (.error err) fun hpos => absurd (h0 ▸ hpos) (by decide)
      obtain ⟨rfl, hans⟩ := muDevice_mur ht hx
      refine .quiet (accessShows_mur ht p) hInv ?_
      obtain ⟨err, rfl⟩ | rfl := hans
      · exact hret err
      · simp only [trylockKey]
        split
        next _ => exact hret EPERM
        next _ => exact .testSet hon hk h0
    -- `unlock` reads the word, and goes on only if it shows its own name
    | @unlock mutex k hon hk h1 hiff =>
      obtain ⟨ht, rfl⟩ := id hon
      have hheld : 0 < mutex.depth → s = .held p := fun hpos => hn (hiff hpos)
      obtain ⟨rfl, hans⟩ := muDevice_mur ht hx
      refine .quiet (accessShows_mur ht p) hInv ?_
      obtain ⟨err, rfl⟩ | rfl := hans
      · exact hk.at (.error err) hheld
      · exact .key hon hk h1 hheld fun hours => hInv.held_of_eq hinj hours
  | testSet hon hk h0 => exact advances_testSet hinj hInv hon hk h0 hx
  | owner hon hk h0 hs =>
    subst hs
    exact advances_owner hInv hon hk h0 hx
  | @key mutex k value hon hk h1 hheld hours =>
    obtain ⟨ht, rfl⟩ := id hon
    obtain ⟨rfl, hans⟩ := muDevice_mur ht hx
    refine .quiet (accessShows_mur ht p) hInv ?_
    obtain ⟨err, rfl⟩ | rfl := hans
    · exact hk.at (.error err) hheld
    · simp only [unlockKey]
      split
      next _ => exact hk.at (.error EPERM) hheld
      next _ =>
        split
        next _ => exact hk.at (.error EACCES) hheld
        -- the name was its own, so that it holds the mutex
        next hvalue => exact .write hon hk h1 (hours (not_not.mp hvalue))
  | write hon hk h1 hs =>
    subst hs
    exact advances_write hzero hInv hon hk h1 hx

/-- **A party begins another program.** -/
theorem advances_begin {r' : CppProg α} (hInv : LockWord iface s w)
    (hAt : At iface a depth p s r) (hbegins : mutexBegins iface a depth p r r') :
    MutexAdvances iface a depth p s₀ s (mutexShows a p r (.begin p r')) w r' := by
  -- the last program has returned, or the process has died and begins again
  obtain ⟨x, rfl, hc'⟩ | hc' := hbegins
  · cases hAt with
    | client hc hn =>
      cases hc.head with
      | ret _ hiff => exact .quiet rfl hInv (.client hc' fun hpos => hn (hiff hpos))
  · -- the handle is a fresh one
    have hfresh {s : LockState P} : At iface a depth p s r' :=
      .client hc' fun hpos => absurd hpos (by decide)
    cases hAt with
    | client hc _ =>
      refine .quiet ?_ hInv hfresh
      cases hc.head with
      | ret _ _ => rfl
      | @other op k hop _ =>
        cases op with
        | readl cppId a' => rfl
        | writel cppId a' value => exact if_neg fun h => hop h.1
        | readq cppId a' => rfl
        | read cppId a' length => rfl
        | writeq cppId a' value => rfl
        | write cppId a' bytes => rfl
      | trylock _ _ _ => rfl
      | unlock _ _ _ _ => rfl
    | testSet _ _ _ => exact .quiet rfl hInv hfresh
    -- it died in the window, and the mutex is lost
    | @owner mutex k hon _ _ hs =>
      subst hs
      refine .of_takes (.abandon p) ?_ (.inr (.inl rfl)) hInv hfresh
      exact if_pos ⟨hon.2, mutexLocked_ne_unlock _⟩
    | key _ _ _ _ _ => exact .quiet rfl hInv hfresh
    | write _ _ _ _ => exact .quiet (if_neg fun h => h.2 rfl) hInv hfresh

end Simulation

/-! ### Safety

The parties' runs are runs of the lock, whose steps are those that change its word. Where the runs
end, the state of the lock is what its last step leaves. -/

section Safety

variable {iface} {m : MuMemory} {c : Config P CppOp CppOp.Answer α MuMemory} {s₀ : LockState P}
  {h : List (Transition (Config P CppOp CppOp.Answer α MuMemory)
    (Event P CppOp CppOp.Answer α))} {p q : P}

omit [DecidableEq P] in
/-- **The parties are simulated by the lock.** -/
theorem mutexSimulation (hinj : Function.Injective iface) (hzero : ∀ p, iface p ≠ 0)
    (hw : LockWord iface s₀ (m a)) :
    Simulation (mutexInit depth m) muDevice (mutexBegins iface a depth) (lockSystem s₀)
      (mutexShows (α := α) a) (fun s m => LockWord iface s (m a))
      (fun p s r => At iface a depth p s r) where
  init c hc := by
    -- every handle is fresh, so that nobody claims to hold the mutex
    obtain ⟨rfl, hprog⟩ := hc
    refine ⟨s₀, rfl, hw, fun p => ?_⟩
    obtain ⟨x, hx, hdepth⟩ := hprog p
    rw [hx]
    exact .client (.ret hdepth) fun hpos => absurd hpos (by decide)
  access s d p op k x d' hInv hAt hx := advances_access hinj hzero hInv hAt hx
  begin s d p r r' hInv hAt hbegins := advances_begin hInv hAt hbegins

/-- What a run shows of the lock. -/
def mutexSteps (a : UInt64)
    (h : List (Transition (Config P CppOp CppOp.Answer α MuMemory)
      (Event P CppOp CppOp.Answer α))) : List (LockStep P) :=
  h.filterMap (shown (mutexShows a))

omit [DecidableEq P] in
/-- A party that holds the mutex knows it. -/
theorem At.held_of_holds {s : LockState P} (hAt : At iface a depth p s (c.prog p))
    (hp : HoldsMutex depth c p) : s = .held p := by
  obtain ⟨x, hx, hpos⟩ := hp
  rw [hx] at hAt
  cases hAt with
  | client hc hn =>
    cases hc.head with
    | ret _ hiff => exact hn (hiff hpos)

/-- A run is one of the lock, in which a party that holds the mutex is the owner. -/
theorem mutexRun_lock (hinj : Function.Injective iface) (hzero : ∀ p, iface p ≠ 0)
    (hw : LockWord iface s₀ (m a)) (he : Exec (mutexSystem iface a depth m) h c) :
    ∃ s, LockWord iface s (c.dev a) ∧ (mutexSteps a h).IsChain Next ∧
      s = ((mutexSteps a h).getLast?.map after).getD s₀ ∧
      ∀ p, HoldsMutex depth c p → s = .held p := by
  obtain ⟨h', s, he', hlabels, hword, hAt⟩ := (mutexSimulation hinj hzero hw).exec he
  obtain ⟨hchain, hlast⟩ := steps_chain he'
  rw [hlabels] at hchain hlast
  exact ⟨s, hword, hchain, hlast, fun p hp => (hAt p).held_of_holds hp⟩

/-- **No two parties hold the mutex together.** -/
theorem mutex_exclusive (hinj : Function.Injective iface) (hzero : ∀ p, iface p ≠ 0)
    (hw : LockWord iface s₀ (m a)) (hc : (mutexSystem iface a depth m).Reachable c)
    (hp : HoldsMutex depth c p) (hq : HoldsMutex depth c q) : p = q := by
  obtain ⟨h, he⟩ := hc
  obtain ⟨s, -, -, -, hheld⟩ := mutexRun_lock hinj hzero hw he
  exact LockState.held.inj ((hheld p hp).symm.trans (hheld q hq))

/-- **Whoever holds the mutex has written its name last**: the steps of the lock word come in
the order of the lock, and the word is unlocked when nobody has taken it or its owner has just
released it. -/
theorem mutexRun_steps (hinj : Function.Injective iface)
    (hname : ∀ p, iface p ≠ 0 ∧ iface p ≠ mutexInterface (m a))
    (hfree : mutexIsUnlocked (m a) = true) (he : Exec (mutexSystem iface a depth m) h c) :
    (mutexSteps a h).IsChain Next ∧
      (∀ p, HoldsMutex depth c p → (mutexSteps a h).getLast? = some (.confirm p)) ∧
      (mutexIsUnlocked (c.dev a) = true ↔
        mutexSteps a h = [] ∨ ∃ p, (mutexSteps a h).getLast? = some (.release p)) := by
  have hw : LockWord iface .free (m a) := ⟨hfree, fun p => (hname p).2.symm⟩
  obtain ⟨s, hword, hchain, hlast, hheld⟩ := mutexRun_lock hinj (fun p => (hname p).1) hw he
  refine ⟨hchain, fun p hp => ?_, ?_⟩
  · have hs := (hheld p hp).symm.trans hlast
    -- the owner is who confirmed last: a run without steps leaves the mutex free
    cases hl : (mutexSteps a h).getLast? with
    | none =>
      rw [hl] at hs
      cases hs
    | some l =>
      rw [hl] at hs
      cases l <;> cases hs
      rfl
  · have hiff : mutexIsUnlocked (c.dev a) = true ↔ s = .free := by
      refine ⟨hword.free_of_unlocked, ?_⟩
      rintro rfl
      exact hword.1
    rw [hiff, hlast, ← List.getLast?_eq_none_iff]
    cases (mutexSteps a h).getLast? with
    | none => simp
    | some l => cases l <;> simp [after]

/-- **A mutex whose owner could not write its name is lost**: nobody holds it from then on, and
it stays locked. -/
theorem mutexRun_lost (hinj : Function.Injective iface) (hzero : ∀ p, iface p ≠ 0)
    (hfree : mutexIsUnlocked (m a) = true) (hname : ∀ p, iface p ≠ mutexInterface (m a))
    (he : Exec (mutexSystem iface a depth m) h c)
    {t : Transition (Config P CppOp CppOp.Answer α MuMemory) (Event P CppOp CppOp.Answer α)}
    (ht : t ∈ h) {p : P} {cppId value : UInt32} {err : ℤ}
    (hlabel : t.label = .access p (.writel cppId a value) (.error err))
    (hvalue : mutexIsLocked value = true) :
    mutexIsLocked (c.dev a) = true ∧ ∀ q, ¬HoldsMutex depth c q := by
  have hw : LockWord iface .free (m a) := ⟨hfree, fun p => (hname p).symm⟩
  obtain ⟨s, hword, hchain, hlast, hheld⟩ := mutexRun_lock hinj hzero hw he
  have hne : value ≠ mutexUnlock 0 := by
    rintro rfl
    exact absurd hvalue (by decide)
  have hmem : LockStep.abandon p ∈ mutexSteps a h := by
    refine List.mem_filterMap.mpr ⟨t, ht, ?_⟩
    simp [shown, mutexShows, accessShows, hlabel, Event.party, hne]
  -- nothing comes after it
  obtain ⟨l₁, l₂, hsplit⟩ := List.append_of_mem hmem
  -- no step of the lock follows one that abandons it
  have hnil : l₂ = [] := by
    cases l₂ with
    | nil => rfl
    | cons l l₂ =>
      rw [hsplit] at hchain
      have hnext := (List.isChain_append.mp hchain).2.1
      cases (List.isChain_cons_cons.mp hnext).1
  have hs : s = .lost := by
    rw [hlast, hsplit, hnil]
    simp [after]
  subst hs
  exact ⟨hword.1, fun q hq => (by cases hheld q hq)⟩

end Safety

/-! ### Names that the lock word may show

Runs in which a party finds its own name in a word it has not written. They are put together from
three pieces: a party up to the write of the owner, that write, and a party that goes through
`trylock` on a word which shows its name. -/

section Names

variable {iface} {m : MuMemory} {c : Config P CppOp CppOp.Answer α MuMemory} {pick : UInt16 → α}
  {p q : P}

/-- A program that only locks the mutex, and one that only unlocks it, with a result that tells
the depth. -/
def lockOnce (pick : UInt16 → α) (i : UInt16) (mutex : NfpCppMutex) : CppProg α :=
  (nfpCppMutexTrylock i mutex).bind fun q => .ret (pick q.2.depth)

def unlockOnce (pick : UInt16 → α) (i : UInt16) (mutex : NfpCppMutex) : CppProg α :=
  (nfpCppMutexUnlock i mutex).bind fun q => .ret (pick q.2.depth)

/-- The first of them where it is about to write the owner. -/
def ownerNext (pick : UInt16 → α) (i : UInt16) (mutex : NfpCppMutex) : CppProg α :=
  .access (.writel (muw nfpCppTargetMu) mutex.address (mutexLocked i))
    fun x => (trylockOwner mutex x).bind fun q => .ret (pick q.2.depth)

/-- The handle of the mutex at `a`, with the key that is there. -/
def handleAt (a : UInt64) (depth : UInt16) (m : MuMemory) : NfpCppMutex :=
  ⟨nfpCppTargetMu, depth, a, m (a + 4), 1⟩

variable (pick)

/-- A free mutex, up to the write of the owner. -/
theorem leads_testSet (hfree : mutexIsUnlocked (m a) = true) :
    Leads muDevice (lockOnce pick i (handleAt a 0 m)) m (ownerNext pick i (handleAt a 0 m))
      (Function.update m a (m a ||| 0xf)) := by
  have hkey : muDevice (.readl (mur nfpCppTargetMu) (a + 4)) m
      (.ok (m (a + 4)) : Except ℤ UInt32) m := .inr (.inl ⟨rfl, rfl, rfl⟩)
  have hset : muDevice (.readl (mus nfpCppTargetMu) a) m (.ok (m a) : Except ℤ UInt32)
      (Function.update m a (m a ||| 0xf)) := .inr (.inr (.inl ⟨rfl, rfl, rfl⟩))
  refine .access hkey ?_
  simp only [trylockKey, handleAt, ne_eq, not_true_eq_false, if_false]
  refine .access hset ?_
  simp only [trylockTestSet, hfree, if_true]
  exact .refl

/-- The write of the owner. -/
theorem runs_owner (mutex : NfpCppMutex) (m : MuMemory) :
    Runs muDevice (ownerNext pick i mutex) m (pick 1)
      (Function.update m mutex.address (mutexLocked i)) := by
  have hwrite : muDevice (.writel (muw nfpCppTargetMu) mutex.address (mutexLocked i)) m
      (.ok () : Except ℤ Unit) (Function.update m mutex.address (mutexLocked i)) :=
    .inr (.inl ⟨rfl, rfl, rfl⟩)
  exact .access hwrite .refl

/-- A mutex that shows the party's own name. -/
theorem runs_lock_ours (hours : m a = mutexLocked i) :
    Runs muDevice (lockOnce pick i (handleAt a 0 m)) m (pick 1) m := by
  have hlocked : mutexIsLocked (m a) = true := hours ▸ mutexIsLocked_mutexLocked i
  have hkey : muDevice (.readl (mur nfpCppTargetMu) (a + 4)) m
      (.ok (m (a + 4)) : Except ℤ UInt32) m := .inr (.inl ⟨rfl, rfl, rfl⟩)
  have hset : muDevice (.readl (mus nfpCppTargetMu) a) m (.ok (m a) : Except ℤ UInt32) m := by
    refine .inr (.inr (.inl ⟨rfl, rfl, ?_⟩))
    rw [or_low_locked hlocked, Function.update_eq_self]
  refine .access hkey ?_
  simp only [trylockKey, handleAt, ne_eq, not_true_eq_false, if_false]
  refine .access hset ?_
  have hnot : mutexIsUnlocked (mutexLocked i) = false := hours ▸ not_unlocked_of_locked hlocked
  simp only [trylockTestSet, hours, hnot, Bool.false_eq_true, if_false, if_true]
  exact .refl

/-- Unlocking it. -/
theorem runs_unlock (hours : m a = mutexLocked i) :
    Runs muDevice (unlockOnce pick i (handleAt a 1 m)) m (pick 0)
      (Function.update m a (mutexUnlock i)) := by
  have hvalue : muDevice (.readl (mur nfpCppTargetMu) a) m (.ok (m a) : Except ℤ UInt32) m :=
    .inr (.inl ⟨rfl, rfl, rfl⟩)
  have hkey : muDevice (.readl (mur nfpCppTargetMu) (a + 4)) m
      (.ok (m (a + 4)) : Except ℤ UInt32) m := .inr (.inl ⟨rfl, rfl, rfl⟩)
  have hwrite : muDevice (.writel (muw nfpCppTargetMu) a (mutexUnlock i)) m
      (.ok () : Except ℤ Unit) (Function.update m a (mutexUnlock i)) :=
    .inr (.inl ⟨rfl, rfl, rfl⟩)
  refine .access hvalue (.access hkey ?_)
  simp only [unlockKey, handleAt, ne_eq, not_true_eq_false, if_false, hours]
  exact .access hwrite .refl

variable {pick} (hpick : ∀ n, depth (pick n) = n)

include hpick

omit [DecidableEq P] in
/-- A program that is done tells its depth. -/
theorem client_pick (n : UInt16) : Client a (tells depth) i n (.ret (pick n)) :=
  .ret (hpick n)

omit [DecidableEq P] in
/-- An idle party may lock and unlock. -/
theorem begins_lock {x : α} (hx : depth x = 0) (m : MuMemory) :
    mutexBegins iface a depth p (.ret x) (lockOnce pick (iface p) (handleAt a 0 m)) := by
  refine .inl ⟨x, rfl, ?_⟩
  rw [hx]
  have hclient : Client a (tells depth) (iface p) (handleAt a 0 m).depth
      (lockOnce pick (iface p) (handleAt a 0 m)) :=
    .trylock ⟨rfl, rfl⟩ fun q _ => client_pick hpick q.2.depth
  exact hclient

omit [DecidableEq P] in
/-- A party that has locked may unlock. -/
theorem begins_unlock (m : MuMemory) :
    mutexBegins iface a depth p (.ret (pick 1)) (unlockOnce pick (iface p) (handleAt a 1 m)) := by
  refine .inl ⟨_, rfl, ?_⟩
  rw [hpick]
  have hclient : Client a (tells depth) (iface p) (handleAt a 1 m).depth
      (unlockOnce pick (iface p) (handleAt a 1 m)) :=
    .unlock ⟨rfl, rfl⟩ fun q _ => client_pick hpick q.2.depth
  exact hclient

/-- **Two holders.** A party that finds its own name above an unlocked word gets in while
another is between `test_set_imm` and the write of the owner. -/
theorem exists_two_holders (hc : (mutexSystem iface a depth m).Reachable c) (hne : p ≠ q)
    (hfree : mutexIsUnlocked (c.dev a) = true) (hname : mutexInterface (c.dev a) = iface p)
    {x y : α} (hp : c.prog p = .ret x) (hx : depth x = 0) (hq : c.prog q = .ret y)
    (hy : depth y = 0) : ∃ c', (mutexSystem iface a depth m).Reachable c' ∧
      HoldsMutex depth c' p ∧ HoldsMutex depth c' q := by
  -- `q` claims the mutex
  have h₁ := reachable_of_begins hc hq (begins_lock hpick hy c.dev)
    (leads_testSet pick hfree)
  obtain ⟨hlocked, hsame⟩ := or_low_unlocked hfree
  -- the word shows the name of `p`
  have hours : Function.update c.dev a (c.dev a ||| 0xf) a = mutexLocked (iface p) := by
    rw [Function.update_self]
    exact eq_mutexLocked_iff.mpr ⟨hlocked, hsame.trans hname⟩
  have hp' : Function.update c.prog q (ownerNext pick (iface q) (handleAt a 0 c.dev)) p =
      .ret x := by
    rw [Function.update_of_ne hne, hp]
  have h₂ := reachable_of_begins h₁ hp' (begins_lock hpick hx _)
    (runs_lock_ours pick hours)
  -- `q` writes its name
  have hq' : Function.update (Function.update c.prog q
      (ownerNext pick (iface q) (handleAt a 0 c.dev))) p (.ret (pick 1)) q =
      ownerNext pick (iface q) (handleAt a 0 c.dev) := by
    rw [Function.update_of_ne hne.symm, Function.update_self]
  have h₃ := reachable_of_leads h₂ hq' (runs_owner pick (handleAt a 0 c.dev) _)
  have hone : 0 < depth (pick 1) := by
    rw [hpick]
    decide
  have hp₃ := (Function.update_of_ne hne (.ret (pick 1)) _).trans
    (Function.update_self p (.ret (pick 1)) (Function.update c.prog q
      (ownerNext pick (iface q) (handleAt a 0 c.dev))))
  exact ⟨_, h₃, ⟨pick 1, hp₃, hone⟩, ⟨pick 1, Function.update_self .., hone⟩⟩

/-- A party may take the mutex and give it back. -/
theorem exists_unlocked (hc : (mutexSystem iface a depth m).Reachable c)
    (hfree : mutexIsUnlocked (c.dev a) = true) {y : α} (hq : c.prog q = .ret y)
    (hy : depth y = 0) : (mutexSystem iface a depth m).Reachable
      ⟨Function.update c.dev a (mutexUnlock (iface q)),
        Function.update c.prog q (.ret (pick 0))⟩ := by
  have h₁ := reachable_of_begins hc hq (begins_lock hpick hy c.dev)
    ((leads_testSet pick hfree).trans (runs_owner pick _ _))
  rw [show (handleAt a 0 c.dev).address = a from rfl, Function.update_idem] at h₁
  -- it finds the name it has just written
  have hours : Function.update c.dev a (mutexLocked (iface q)) a = mutexLocked (iface q) :=
    Function.update_self ..
  have h₂ := reachable_of_begins h₁ (Function.update_self q _ _) (begins_unlock hpick _)
    (runs_unlock pick hours)
  rwa [Function.update_idem, Function.update_idem] at h₂

/-- **Mutual exclusion.** When the mutex is unlocked at first, no two parties ever hold it
together, exactly if no party has the interface id 0 or the one that the unlocked word shows. -/
theorem mutexExclusive_iff (hinj : Function.Injective iface) (hparties : ∃ p q : P, p ≠ q)
    (hfree : mutexIsUnlocked (m a) = true) :
    (∀ c, (mutexSystem iface a depth m).Reachable c →
      ∀ p q, HoldsMutex depth c p → HoldsMutex depth c q → p = q) ↔
      ∀ p, iface p ≠ 0 ∧ iface p ≠ mutexInterface (m a) := by
  -- the other direction is `mutex_exclusive`
  constructor
  · intro hexcl
    by_contra hbad
    obtain ⟨p, hp⟩ := not_forall.mp hbad
    -- some other party
    obtain ⟨q, hq⟩ : ∃ q, p ≠ q := by
      obtain ⟨p₁, p₂, hne⟩ := hparties
      by_cases h : p = p₁
      · exact ⟨p₂, h ▸ hne⟩
      · exact ⟨p₁, h⟩
    have hc₀ : (mutexSystem iface a depth m).Reachable ⟨m, fun _ => .ret (pick 0)⟩ :=
      .init ⟨rfl, fun _ => ⟨_, rfl, hpick 0⟩⟩
    by_cases hname : mutexInterface (m a) = iface p
    · obtain ⟨c, hc, hp, hq'⟩ :=
        exists_two_holders hpick hc₀ hq hfree hname rfl (hpick 0) rfl (hpick 0)
      exact hq (hexcl c hc p q hp hq')
    -- the name is 0, which the word shows after the first unlock
    · have hzero : iface p = 0 := by
        by_contra h
        exact hp ⟨h, fun h => hname h.symm⟩
      have hc₁ := exists_unlocked (q := q) hpick hc₀ hfree rfl (hpick 0)
      have hword : Function.update m a (mutexUnlock (iface q)) a = mutexUnlock 0 :=
        Function.update_self ..
      obtain ⟨c, hc, hp, hq'⟩ := exists_two_holders hpick hc₁ hq
        ((congrArg mutexIsUnlocked hword).trans rfl)
        ((congrArg mutexInterface hword).trans hzero.symm)
        (Function.update_of_ne hq _ _) (hpick 0) (Function.update_self ..) (hpick 0)
      exact hq (hexcl c hc p q hp hq')
  · intro hname c hc p q hp hq
    have hw : LockWord iface .free (m a) := ⟨hfree, fun p => (hname p).2.symm⟩
    exact mutex_exclusive hinj (fun p => (hname p).1) hw hc hp hq

end Names

/-! ### Two hosts -/

/-- Two PCIe interfaces. -/
def hostIface : Bool → UInt16
  | false => 0x1000
  | true => 0x1100

/-- The two interfaces are different. -/
theorem hostIface_injective : Function.Injective hostIface := by
  intro p q h
  cases p <;> cases q <;> first | rfl | exact absurd h (by decide)

/-- Neither is the name that an unlocked word shows. -/
theorem hostIface_named (p : Bool) : hostIface p ≠ 0 ∧ hostIface p ≠ mutexInterface 0 := by
  cases p <;> decide

/-- The two of them with the mutex at address 0 of a memory of zeros. -/
abbrev hostsSystem : System (Config Bool CppOp CppOp.Answer UInt16 MuMemory)
    (Event Bool CppOp CppOp.Answer UInt16) :=
  mutexSystem hostIface 0 id fun _ => 0

/-- Neither host has begun. -/
theorem hosts_idle : hostsSystem.Reachable ⟨fun _ => 0, fun _ => .ret 0⟩ :=
  .init ⟨rfl, fun _ => ⟨0, rfl, rfl⟩⟩

/-- A depth is its own result. -/
theorem id_pick (n : UInt16) : id (id n) = n := rfl

/-- The two hosts exclude each other. -/
theorem mutexExclusive_iff_hosts :
    (∀ c, hostsSystem.Reachable c → ∀ p q, HoldsMutex id c p → HoldsMutex id c q → p = q) ↔
      ∀ p, hostIface p ≠ 0 ∧ hostIface p ≠ mutexInterface 0 :=
  mutexExclusive_iff id_pick hostIface_injective ⟨false, true, by decide⟩ rfl

/-- One of them has locked the mutex and unlocked it. -/
theorem hosts_unlocked : hostsSystem.Reachable
    ⟨Function.update (fun _ => 0) 0 (mutexUnlock (hostIface false)),
      Function.update (fun _ => .ret 0) false (.ret 0)⟩ :=
  exists_unlocked (q := false) id_pick hosts_idle rfl rfl rfl

/-- Its steps end with the release. -/
theorem mutexRun_steps_hosts : ∃ h c, Exec hostsSystem h c ∧
    (mutexSteps 0 h = [] ∨ ∃ p, (mutexSteps 0 h).getLast? = some (.release p)) := by
  obtain ⟨h, he⟩ := hosts_unlocked
  have hfree : mutexIsUnlocked 0 = true := rfl
  have hsteps := mutexRun_steps (a := 0) (m := fun _ => 0) hostIface_injective hostIface_named
    hfree he
  exact ⟨h, _, he, hsteps.2.2.mp rfl⟩

/-- One of them claims the mutex, and the write of its name fails. -/
theorem mutexRun_lost_hosts : ∃ h c, Exec hostsSystem h c ∧ mutexIsLocked (c.dev 0) = true ∧
    ∀ q, ¬HoldsMutex id c q := by
  have hfree : mutexIsUnlocked 0 = true := rfl
  obtain ⟨h, he⟩ := reachable_of_begins hosts_idle rfl (begins_lock id_pick rfl fun _ => 0)
    (leads_testSet (a := 0) (m := fun _ => 0) id hfree)
  have herr : muDevice (.writel (muw nfpCppTargetMu) 0 (mutexLocked (hostIface false)))
      (Function.update (fun _ => 0) 0 (0 ||| 0xf)) (.error EBUSY : Except ℤ Unit) _ :=
    .inl ⟨EBUSY, rfl, rfl⟩
  have hlost := mutexRun_lost (a := 0) (m := fun _ => 0) hostIface_injective
    (fun p => (hostIface_named p).1) hfree (fun p => (hostIface_named p).2)
    (he.snoc (Step.access (Function.update_self ..) herr))
    (List.mem_append_right _ (List.mem_singleton.mpr rfl)) rfl rfl
  exact ⟨_, _, he.snoc (Step.access (Function.update_self ..) herr), hlost⟩

end NfpUdpEcho
