import NfpUdpEcho.Errno
import NfpUdpEcho.NfpCore.CppAccess

/-!
# Mutexes in the memory of the device

`user/nfpcore/nfp_mutex.c`. A mutex is a 64-bit word of the MU: the lock word, whose low half is
zero while the mutex is unlocked and `0x000f` while it is locked and whose high half then names
the owner, and a key. Hosts and firmware take it with the MU atomic engine, each under an
interface id of its own. A process holds a mutex through a handle, which counts how often it has
locked it.

Every function is a program of the accesses that it makes, in their order.
-/

namespace NfpUdpEcho

open Access Errno

/-! ### Lock words -/

/-- `MUTEX_LOCKED`. -/
def mutexLocked (interface : UInt16) : UInt32 := (interface.toUInt32 <<< 16) ||| 0x000f

/-- `MUTEX_UNLOCK`. -/
def mutexUnlock (_interface : UInt16) : UInt32 := 0 ||| 0x0000

/-- `MUTEX_IS_LOCKED`. -/
def mutexIsLocked (value : UInt32) : Bool := value &&& 0xffff == 0x000f

/-- `MUTEX_IS_UNLOCKED`. -/
def mutexIsUnlocked (value : UInt32) : Bool := value &&& 0xffff == 0x0000

/-- `MUTEX_INTERFACE`, as the `uint16_t` that `nfp_cpp_mutex_owner` returns. -/
def mutexInterface (value : UInt32) : UInt16 := ((value >>> 16) &&& 0xffff).toUInt16

/-- `MUTEX_DEPTH_MAX`. -/
def mutexDepthMax : UInt16 := 0xffff

/-! ### Handles -/

/-- `struct nfp_cpp_mutex`, without its place in the cache. -/
structure NfpCppMutex where
  target : UInt8
  depth : UInt16
  address : UInt64
  key : UInt32
  usage : UInt32
deriving DecidableEq, Repr

/-- `NFP_CPP_MODEL_IS_6000`. -/
def nfpCppModelIs6000 (model : UInt32) : Bool :=
  let chip := (model >>> 16) &&& 0xffff
  0x4000 ≤ chip && chip < 0x7000

/-- `_nfp_cpp_mutex_validate`. -/
def nfpCppMutexValidate (model : UInt32) (target : UInt8) (address : UInt64) : Except ℤ Unit :=
  -- Address must be 64-bit aligned
  if address &&& 7 ≠ 0 then .error EINVAL
  else if nfpCppModelIs6000 model then
    if target ≠ nfpCppTargetMu then .error EINVAL else .ok ()
  else .error EINVAL

/-- `nfp_cpp_mutex_init`. -/
def nfpCppMutexInit (model : UInt32) (interface : UInt16) (target : UInt8) (address : UInt64)
    (key : UInt32) : CppProg (Except ℤ Unit) :=
  match nfpCppMutexValidate model target address with
  | .error err => .ret (.error err)
  | .ok () =>
    .access (.writel (muw target) (address + 4) key) fun
      | .error err => .ret (.error err)
      | .ok () =>
        .access (.writel (muw target) (address + 0) (mutexLocked interface)) .ret

/-- `nfp_cpp_mutex_owner`. An error is the negative return value cut to a `uint16_t`. -/
def nfpCppMutexOwner (mutex : NfpCppMutex) : CppProg UInt16 :=
  .access (.readl (mur mutex.target) mutex.address) fun
    | .error _ => .ret (-1)
    | .ok value =>
      .access (.readl (mur mutex.target) (mutex.address + 4)) fun
        | .error _ => .ret (-1)
        | .ok key =>
          .ret (if key ≠ mutex.key then -1
            else if mutexIsLocked value then mutexInterface value else 0)

/-! ### Locking -/

/-- The result of a call, an `errno` for -1, with the handle after it. -/
abbrev MutexResult := Except ℤ Unit × NfpCppMutex

/-- `nfp_cpp_mutex_trylock`, once it has tried to write the owner. -/
def trylockOwner (mutex : NfpCppMutex) : Except ℤ Unit → CppProg MutexResult
  | .error err => .ret (.error err, mutex)
  | .ok () => .ret (.ok (), { mutex with depth := 1 })

/-- `nfp_cpp_mutex_trylock`, from the answer of `test_set_imm`. -/
def trylockTestSet (interface : UInt16) (mutex : NfpCppMutex) :
    Except ℤ UInt32 → CppProg MutexResult
  | .error err => .ret (.error err, mutex)
  | .ok tmp =>
    let value := mutexLocked interface
    -- Was it unlocked?
    if mutexIsUnlocked tmp then
      .access (.writel (muw mutex.target) mutex.address value) (trylockOwner mutex)
    -- Already locked by us?
    else if tmp = value then .ret (.ok (), { mutex with depth := 1 })
    else .ret (.error (if mutexIsLocked tmp then EBUSY else EINVAL), mutex)

/-- `nfp_cpp_mutex_trylock`, from the key. -/
def trylockKey (interface : UInt16) (mutex : NfpCppMutex) :
    Except ℤ UInt32 → CppProg MutexResult
  | .error err => .ret (.error err, mutex)
  | .ok key =>
    if key ≠ mutex.key then .ret (.error EPERM, mutex)
    else .access (.readl (mus mutex.target) mutex.address) (trylockTestSet interface mutex)

/-- `nfp_cpp_mutex_trylock`. -/
def nfpCppMutexTrylock (interface : UInt16) (mutex : NfpCppMutex) : CppProg MutexResult :=
  if mutex.depth > 0 then
    if mutex.depth = mutexDepthMax then .ret (.error E2BIG, mutex)
    else .ret (.ok (), { mutex with depth := mutex.depth + 1 })
  else
    -- Verify that the lock marker is not damaged
    .access (.readl (mur mutex.target) (mutex.address + 4)) (trylockKey interface mutex)

/-- `nfp_cpp_mutex_lock`, `none` if it still waits after `n` attempts. -/
def nfpCppMutexLock (interface : UInt16) :
    ℕ → NfpCppMutex → CppProg (Option (Except ℤ Unit) × NfpCppMutex)
  | 0, mutex => .ret (none, mutex)
  | n + 1, mutex =>
    (nfpCppMutexTrylock interface mutex).bind fun
      | (.ok (), mutex) => .ret (some (.ok ()), mutex)
      | (.error err, mutex) =>
        -- If errno != EBUSY, then the lock was damaged
        if err ≠ EBUSY then .ret (some (.error err), mutex)
        else nfpCppMutexLock interface n mutex

/-! ### Unlocking -/

/-- `nfp_cpp_mutex_unlock`, once it has tried to write the lock word. -/
def unlockWrite (mutex : NfpCppMutex) : Except ℤ Unit → CppProg MutexResult
  | .error err => .ret (.error err, mutex)
  | .ok () => .ret (.ok (), { mutex with depth := 0 })

/-- `nfp_cpp_mutex_unlock`, from the key. -/
def unlockKey (interface : UInt16) (mutex : NfpCppMutex) (value : UInt32) :
    Except ℤ UInt32 → CppProg MutexResult
  | .error err => .ret (.error err, mutex)
  | .ok key =>
    if key ≠ mutex.key then .ret (.error EPERM, mutex)
    else if value ≠ mutexLocked interface then .ret (.error EACCES, mutex)
    else
      .access (.writel (muw mutex.target) mutex.address (mutexUnlock interface)) (unlockWrite mutex)

/-- `nfp_cpp_mutex_unlock`, from the lock word. -/
def unlockValue (interface : UInt16) (mutex : NfpCppMutex) :
    Except ℤ UInt32 → CppProg MutexResult
  | .error err => .ret (.error err, mutex)
  | .ok value =>
    .access (.readl (mur mutex.target) (mutex.address + 4)) (unlockKey interface mutex value)

/-- `nfp_cpp_mutex_unlock`. -/
def nfpCppMutexUnlock (interface : UInt16) (mutex : NfpCppMutex) : CppProg MutexResult :=
  if mutex.depth > 1 then .ret (.ok (), { mutex with depth := mutex.depth - 1 })
  else .access (.readl (mur mutex.target) mutex.address) (unlockValue interface mutex)

end NfpUdpEcho
