import NfpUdpEcho.NfpCore.Mutex

/-!
# The programs that use a mutex

`Client a post i` is about the programs of the interface `i` that use the mutex at the address
`a` of the MU: they lock and unlock it through a handle, and every other access of theirs leaves
its lock word alone. The depth of the handle is followed through the program.

Programs that use other mutexes as well are clients of each of them (`Client.bind_within`).

The calls are described from two sides. What they return is `Locks` and `Unlocks`: an error, with
the handle as it was, or a depth one more or one less. What they access is `CppOp.Leaves`: a call on
another mutex reads lock words, and writes only its own. `Client` puts both together, one
constructor for each thing that a program can do next, and is closed under `bind`, so a client of
the resource table or of the NSP is built from the calls that it makes (`Client.trylock_any`,
`Client.unlock_any`, `Client.of_within`).
-/

namespace NfpUdpEcho

open Access Prog

/-! ### The results of the calls

The depth has 16 bits, and `nfp_cpp_mutex_trylock` refuses to go past its maximum. -/

/-- A result of `nfp_cpp_mutex_trylock`. -/
def Locks (mutex : NfpCppMutex) (q : MutexResult) : Prop :=
  (∃ err, q = (.error err, mutex)) ∨
    mutex.depth ≠ mutexDepthMax ∧ q = (.ok (), { mutex with depth := mutex.depth + 1 })

/-- A result of `nfp_cpp_mutex_unlock`. -/
def Unlocks (mutex : NfpCppMutex) (q : MutexResult) : Prop :=
  (∃ err, q = (.error err, mutex)) ∨
    ∃ n, n.toNat = mutex.depth.toNat - 1 ∧ q = (.ok (), { mutex with depth := n })

variable {i : UInt16} {mutex : NfpCppMutex} {a : UInt64}

/-- A lock that fails leaves the handle as it was. -/
theorem Locks.error (err : ℤ) : Locks mutex (.error err, mutex) := .inl ⟨err, rfl⟩

/-- So does an unlock that fails. -/
theorem Unlocks.error (err : ℤ) : Unlocks mutex (.error err, mutex) := .inl ⟨err, rfl⟩

/-- The first lock. -/
theorem Locks.first (h0 : mutex.depth = 0) : Locks mutex (.ok (), { mutex with depth := 1 }) := by
  refine .inr ⟨by rw [h0]; decide, ?_⟩
  rw [h0]
  rfl

/-- The last unlock. -/
theorem Unlocks.last (h1 : mutex.depth ≤ 1) :
    Unlocks mutex (.ok (), { mutex with depth := 0 }) := by
  have hle : mutex.depth.toNat ≤ 1 := UInt16.le_iff_toNat_le.mp h1
  refine .inr ⟨0, ?_, rfl⟩
  exact (Nat.sub_eq_zero_of_le hle).symm

/-- An unlock of a mutex that is held more than once. -/
theorem Unlocks.pred (h1 : 1 < mutex.depth) :
    Unlocks mutex (.ok (), { mutex with depth := mutex.depth - 1 }) :=
  .inr ⟨_, UInt16.toNat_sub_of_le _ _ (UInt16.le_of_lt h1), rfl⟩

/-! ### The accesses of the calls

On every path of a call its accesses leave the other lock words alone, and its result is one of
those above; one walk along the program shows both. -/

/-- The operations that leave the lock word at `a` alone. -/
def CppOp.Leaves (a : UInt64) : CppOp → Prop
  | .readl cppId a' => cppId ≠ mus nfpCppTargetMu ∨ a' ≠ a
  | .writel _ a' _ => a' ≠ a
  | .readq _ _ | .read _ _ _ => True
  | .writeq _ _ _ | .write _ _ _ => False

/-- They differ in their tokens. -/
theorem mur_ne_mus (t : UInt8) : mur t ≠ mus nfpCppTargetMu := by
  intro h
  have hbit : (mur t).toBitVec.getLsbD 16 = (mus nfpCppTargetMu).toBitVec.getLsbD 16 := by rw [h]
  have hone : (mus nfpCppTargetMu).toBitVec.getLsbD 16 = true := by decide
  rw [hone] at hbit
  simp [mur, nfpCppId] at hbit

/-- A plain read is not the test and set. -/
theorem leaves_mur (t : UInt8) (a' : UInt64) : (CppOp.readl (mur t) a').Leaves a :=
  .inl (mur_ne_mus t)

/-- `nfp_cpp_mutex_trylock` on a handle of another mutex. -/
theorem trylock_within (ha : mutex.address ≠ a) :
    (nfpCppMutexTrylock i mutex).Within (CppOp.Leaves a) (Locks mutex) := by
  unfold nfpCppMutexTrylock
  split
  -- the handle holds the mutex already: no access at all
  next hpos =>
    split
    next _ => exact Locks.error _
    next hmax => exact .inr ⟨hmax, rfl⟩
  -- each access may fail, and the handle is as it was before the last one
  next hzero =>
    have h0 : mutex.depth = 0 := UInt16.le_zero_iff.mp (UInt16.not_lt.mp hzero)
    refine ⟨leaves_mur _ _, fun x => ?_⟩
    change Except ℤ UInt32 at x
    cases x with
    | error err => exact Locks.error err
    | ok key =>
      rw [trylockKey]
      split
      next _ => exact Locks.error _
      next _ =>
        refine ⟨.inr ha, fun x => ?_⟩
        change Except ℤ UInt32 at x
        cases x with
        | error err => exact Locks.error err
        | ok tmp =>
          rw [trylockTestSet]
          split
          next _ =>
            refine ⟨ha, fun x => ?_⟩
            change Except ℤ Unit at x
            cases x with
            | error err => exact Locks.error err
            | ok _ => exact Locks.first h0
          next _ =>
            split
            next _ => exact Locks.first h0
            next _ => exact Locks.error _

/-- `nfp_cpp_mutex_unlock` on a handle of another mutex. -/
theorem unlock_within (ha : mutex.address ≠ a) :
    (nfpCppMutexUnlock i mutex).Within (CppOp.Leaves a) (Unlocks mutex) := by
  unfold nfpCppMutexUnlock
  split
  next hpos => exact Unlocks.pred hpos
  -- the two reads check the key and the owner before the word is written
  next hle =>
    refine ⟨leaves_mur _ _, fun x => ?_⟩
    change Except ℤ UInt32 at x
    cases x with
    | error err => exact Unlocks.error err
    | ok value =>
      refine ⟨leaves_mur _ _, fun x => ?_⟩
      change Except ℤ UInt32 at x
      cases x with
      | error err => exact Unlocks.error err
      | ok key =>
        rw [unlockKey]
        split
        next _ => exact Unlocks.error _
        next _ =>
          split
          next _ => exact Unlocks.error _
          next _ =>
            refine ⟨ha, fun x => ?_⟩
            change Except ℤ Unit at x
            cases x with
            | error err => exact Unlocks.error err
            | ok _ => exact Unlocks.last (UInt16.not_lt.mp hle)

/-- The result of a lock does not depend on where the mutex is. -/
theorem trylock_all : (nfpCppMutexTrylock i mutex).All (Locks mutex) :=
  (trylock_within (a := mutex.address + 1) (by simp)).all

/-- The result of an unlock does not depend on where the mutex is. -/
theorem unlock_all : (nfpCppMutexUnlock i mutex).All (Unlocks mutex) :=
  (unlock_within (a := mutex.address + 1) (by simp)).all

/-! ### The programs -/

/-- A handle of the mutex at `a`. -/
def NfpCppMutex.On (mutex : NfpCppMutex) (a : UInt64) : Prop :=
  mutex.target = nfpCppTargetMu ∧ mutex.address = a

variable {α β : Type}

/-- The programs of the interface `i` that use the mutex at `a` through the library, from a handle
with the depth `n`. `post` is what is known in the end of the result and of the depth. -/
inductive Client (a : UInt64) (post : α → UInt16 → Prop) (i : UInt16) :
    UInt16 → CppProg α → Prop where
  | ret {n : UInt16} {x : α} : post x n → Client a post i n (.ret x)
  /-- A handle is freed, whatever its depth. -/
  | forget {n : UInt16} {r : CppProg α} : Client a post i 0 r → Client a post i n r
  | other {n : UInt16} {op : CppOp} {k : op.Answer → CppProg α} : op.Leaves a →
      (∀ x, Client a post i n (k x)) → Client a post i n (.access op k)
  | trylock {mutex : NfpCppMutex} {k : MutexResult → CppProg α} : mutex.On a →
      (∀ q, Locks mutex q → Client a post i q.2.depth (k q)) →
      Client a post i mutex.depth ((nfpCppMutexTrylock i mutex).bind k)
  | unlock {mutex : NfpCppMutex} {k : MutexResult → CppProg α} : mutex.On a →
      (∀ q, Unlocks mutex q → Client a post i q.2.depth (k q)) →
      Client a post i mutex.depth ((nfpCppMutexUnlock i mutex).bind k)

namespace Client

variable {post post' : α → UInt16 → Prop} {n : UInt16} {r : CppProg α}

/-- One program after the other. -/
theorem bind {post' : β → UInt16 → Prop} {f : α → CppProg β} (h : Client a post i n r)
    (hf : ∀ x n, post x n → Client a post' i n (f x)) : Client a post' i n (r.bind f) := by
  induction h with
  | ret hx => exact hf _ _ hx
  | forget _ ih => exact .forget ih
  | other hop _ ih => exact .other hop ih
  | trylock hon _ ih =>
    rw [bind_assoc]
    exact .trylock hon ih
  | unlock hon _ ih =>
    rw [bind_assoc]
    exact .unlock hon ih

/-- Less may be asked of the end of a program. -/
theorem mono (h : Client a post i n r) (hpost : ∀ x n, post x n → post' x n) :
    Client a post' i n r := by
  induction h with
  | ret hx => exact .ret (hpost _ _ hx)
  | forget _ ih => exact .forget ih
  | other hop _ ih => exact .other hop ih
  | trylock hon _ ih => exact .trylock hon ih
  | unlock hon _ ih => exact .unlock hon ih

/-- A program that leaves the mutex alone. -/
theorem of_within {Q : α → Prop} (h : r.Within (CppOp.Leaves a) Q)
    (hpost : ∀ x, Q x → post x n) : Client a post i n r := by
  induction r with
  | ret x => exact .ret (hpost x h)
  | access op k ih => exact .other h.1 fun x => ih x (h.2 x)

/-- `nfp_cpp_mutex_trylock` on any mutex of the MU. -/
theorem trylock_any (ht : mutex.target = nfpCppTargetMu)
    (hn : mutex.address = a → n = mutex.depth) :
    Client a (fun q n' => Locks mutex q ∧ n' = if mutex.address = a then q.2.depth else n) i n
      (nfpCppMutexTrylock i mutex) := by
  by_cases ha : mutex.address = a
  · rw [hn ha, ← bind_ret (nfpCppMutexTrylock i mutex)]
    exact .trylock ⟨ht, ha⟩ fun q hq => .ret ⟨hq, (if_pos ha).symm⟩
  · exact of_within (trylock_within ha) fun q hq => ⟨hq, (if_neg ha).symm⟩

/-- `nfp_cpp_mutex_unlock` on any mutex of the MU. -/
theorem unlock_any (ht : mutex.target = nfpCppTargetMu)
    (hn : mutex.address = a → n = mutex.depth) :
    Client a (fun q n' => Unlocks mutex q ∧ n' = if mutex.address = a then q.2.depth else n) i n
      (nfpCppMutexUnlock i mutex) := by
  by_cases ha : mutex.address = a
  · rw [hn ha, ← bind_ret (nfpCppMutexUnlock i mutex)]
    exact .unlock ⟨ht, ha⟩ fun q hq => .ret ⟨hq, (if_pos ha).symm⟩
  · exact of_within (unlock_within ha) fun q hq => ⟨hq, (if_neg ha).symm⟩

/-- `nfp_cpp_mutex_lock` comes to its end as the last of its attempts does. -/
theorem lock_any (waits : ℕ) (ht : mutex.target = nfpCppTargetMu)
    (hn : mutex.address = a → n = mutex.depth) :
    Client a (fun q n' => (q = (none, mutex) ∨ ∃ r, Locks mutex (r, q.2) ∧ q.1 = some r) ∧
      n' = if mutex.address = a then q.2.depth else n) i n (nfpCppMutexLock i waits mutex) := by
  have hsame : n = if mutex.address = a then mutex.depth else n := by
    split
    next ha => exact hn ha
    next _ => rfl
  induction waits with
  | zero => exact .ret ⟨.inl rfl, hsame⟩
  | succ waits ih =>
    refine (trylock_any ht hn).bind fun q n' hq => ?_
    obtain ⟨hq, hn'⟩ := hq
    obtain ⟨err, rfl⟩ | ⟨hmax, rfl⟩ := id hq
    · obtain rfl : n' = n := hn'.trans hsame.symm
      by_cases hbusy : err ≠ Errno.EBUSY
      · dsimp only
        rw [if_pos hbusy]
        exact .ret ⟨.inr ⟨_, .error err, rfl⟩, hsame⟩
      · dsimp only
        rw [if_neg hbusy]
        exact ih
    · exact .ret ⟨.inr ⟨_, hq, rfl⟩, hn'⟩

/-- What a client knows in the end holds whatever the answers are. -/
theorem all (h : Client a post i n r) : r.All fun x => ∃ n, post x n := by
  induction h with
  | ret hx => exact ⟨_, hx⟩
  | forget _ ih => exact ih
  | other _ _ ih => exact ⟨trivial, ih⟩
  | trylock _ _ ih => exact within_bind.mpr (trylock_all.mono (fun _ => id) ih)
  | unlock _ _ ih => exact within_bind.mpr (unlock_all.mono (fun _ => id) ih)

end Client

/-- The result tells the depth. -/
abbrev tells (depth : α → UInt16) : α → UInt16 → Prop := fun x n => depth x = n

end NfpUdpEcho
