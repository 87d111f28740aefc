import NfpUdpEcho.Framework.LittleEndian
import NfpUdpEcho.NfpCore.Crc
import NfpUdpEcho.NfpCore.MutexCache

/-!
# Resources

`user/nfpcore/nfp_resource.c`. The device has a table of 128 resources. An entry has a mutex, with
the check of the name of the resource as its key, and the place of a region of memory. Entry 0
is the table's own, and its mutex is held while the table is searched.

Whoever acquires a resource takes the mutex of the table, looks for the key, takes the mutex of
the entry and lets go of the table. A search that has found the key returns a resource whether it
has got a handle for its mutex or not; the next call uses the handle, and `nullMutex` is the
outcome when there is none.
-/

namespace NfpUdpEcho

open Access Errno LittleEndian

/-! ### The table -/

/-- `NFP_RESOURCE_TBL_BASE`. -/
def nfpResourceTblBase : UInt64 := 0x8100000000

/-- `NFP_RESOURCE_TBL_NAME`. -/
def nfpResourceTblName : List UInt8 := "nfp.res".toUTF8.toList

/-- `NFP_RESOURCE_TBL_KEY`. -/
def nfpResourceTblKey : UInt32 := 0x00000000

/-- `NFP_RESOURCE_ENTRY_NAME_SZ`. -/
def nfpResourceEntryNameSz : ℕ := 8

/-- `NFP_RESOURCE_TBL_ENTRIES`. -/
def nfpResourceTblEntries : ℕ := 4096 / 32

/-- What is read of `struct nfp_resource_entry`. -/
structure NfpResourceEntry where
  key : UInt32
  cppAction : UInt8
  cppToken : UInt8
  cppTarget : UInt8
  pageOffset : UInt32
  pageSize : UInt32

/-- The entry in the bytes that have been read. -/
def NfpResourceEntry.ofBytes (bytes : Fin 32 → UInt8) : NfpResourceEntry where
  key := u32OfBytes (((List.ofFn bytes).drop 4).take 4)
  cppAction := bytes 21
  cppToken := bytes 22
  cppTarget := bytes 23
  pageOffset := u32OfBytes (((List.ofFn bytes).drop 24).take 4)
  pageSize := u32OfBytes (((List.ofFn bytes).drop 28).take 4)

/-- The address of an entry. -/
def resourceAddr (i : ℕ) : UInt64 := nfpResourceTblBase + 32 * i.toUInt64

/-- `struct nfp_resource`. The name is without the zeros behind it. -/
structure NfpResource where
  name : List UInt8
  cppId : UInt32
  addr : UInt64
  size : UInt64
  mutex : Option ℕ
deriving DecidableEq

/-- A name with the zeros behind it. -/
def namePad (name : List UInt8) : List UInt8 := name.rightpad nfpResourceEntryNameSz 0

/-- What a call comes to. -/
inductive Outcome (α : Type) where
  | done (a : α) (host : NfpCppHost)
  /-- It still waits for the mutex of the table. -/
  | waiting (host : NfpCppHost)
  /-- It uses the mutex of a resource that has none. -/
  | nullMutex (host : NfpCppHost)
  /-- It uses a handle that is not there. -/
  | badMutex

variable {α β : Type}

/-- The calls one after the other. -/
def CppProg.andThen (r : CppProg (Outcome α)) (f : α → NfpCppHost → CppProg (Outcome β)) :
    CppProg (Outcome β) :=
  r.bind fun
    | .done a host => f a host
    | .waiting host => .ret (.waiting host)
    | .nullMutex host => .ret (.nullMutex host)
    | .badMutex => .ret .badMutex

/-- `nfp_cpp_mutex_alloc`. -/
def allocMutex (calloc : ℕ → Bool) (target : UInt8) (address : UInt64) (key : UInt32)
    (host : NfpCppHost) : CppProg (Outcome (Option ℕ)) :=
  (nfpCppMutexAlloc calloc target address key host).bind fun
    | none => .ret .badMutex
    | some (p, host) => .ret (.done p host)

/-- `nfp_cpp_mutex_free`. -/
def freeMutex (p : Option ℕ) (host : NfpCppHost) : CppProg (Outcome Unit) :=
  match p with
  | none => .ret (.nullMutex host)
  | some p =>
    match nfpCppMutexFree p host with
    | none => .ret .badMutex
    | some host => .ret (.done () host)

/-- A call on the handle at `p`. -/
def callMutex (p : Option ℕ) (host : NfpCppHost)
    (call : NfpCppMutex → CppProg (β × NfpCppMutex)) : CppProg (Outcome β) :=
  match p with
  | none => .ret (.nullMutex host)
  | some p =>
    match host.heap p with
    | none => .ret .badMutex
    | some node =>
      (call node.mutex).bind fun
        | (b, mutex) => .ret (.done b { host with
            heap := Function.update host.heap p (some { node with mutex := mutex }) })

/-- `nfp_cpp_mutex_trylock`, which returns -1 for every error. -/
def trylockMutex (p : Option ℕ) (host : NfpCppHost) : CppProg (Outcome ℤ) :=
  (callMutex p host (nfpCppMutexTrylock host.interface)).andThen fun r host =>
    .ret (.done (match r with | .ok () => 0 | .error _ => -1) host)

/-- `nfp_cpp_mutex_unlock`. -/
def unlockMutex (p : Option ℕ) (host : NfpCppHost) : CppProg (Outcome ℤ) :=
  (callMutex p host (nfpCppMutexUnlock host.interface)).andThen fun r host =>
    .ret (.done (match r with | .ok () => 0 | .error _ => -1) host)

/-- `nfp_cpp_mutex_lock`, with at most `waits` attempts. -/
def lockMutex (waits : ℕ) (p : Option ℕ) (host : NfpCppHost) : CppProg (Outcome ℤ) :=
  (callMutex p host (nfpCppMutexLock host.interface waits)).andThen fun r host =>
    match r with
    | none => .ret (.waiting host)
    | some (.ok ()) => .ret (.done 0 host)
    | some (.error _) => .ret (.done (-1) host)

/-! ### Acquiring -/

/-- The loop of `nfp_cpp_resource_find` over the entries `is`. -/
def findEntry (calloc : ℕ → Bool) (key : UInt32) (res : NfpResource) (host : NfpCppHost) :
    List ℕ → CppProg (Outcome (ℤ × NfpResource))
  | [] => .ret (.done (-ENOENT, res) host)
  | i :: is =>
    .access (.read (mur nfpCppTargetMu) (resourceAddr i) 32) fun
      | .error _ => .ret (.done (-Errno.EIO, res) host)
      | .ok bytes =>
        let entry := NfpResourceEntry.ofBytes bytes
        if entry.key ≠ key then findEntry calloc key res host is
        else
          -- Found key!
          (allocMutex calloc nfpCppTargetMu (resourceAddr i) key host).andThen fun mutex host =>
            .ret (.done (0, { res with
              mutex := mutex
              cppId := nfpCppId entry.cppTarget.toUInt32 entry.cppAction.toUInt32
                entry.cppToken.toUInt32
              addr := entry.pageOffset.toUInt64 <<< 8
              size := entry.pageSize.toUInt64 <<< 8 }) host)

/-- `nfp_cpp_resource_find`. -/
def nfpCppResourceFind (calloc : ℕ → Bool) (res : NfpResource) (host : NfpCppHost) :
    CppProg (Outcome (ℤ × NfpResource)) :=
  if namePad res.name = namePad nfpResourceTblName then .ret (.done (-EOPNOTSUPP, res) host)
  else
    findEntry calloc (nfpCrc32Posix (namePad res.name)) res host
      (List.range nfpResourceTblEntries)

/-- `nfp_resource_try_acquire`. -/
def nfpResourceTryAcquire (calloc : ℕ → Bool) (waits : ℕ) (res : NfpResource)
    (devMutex : Option ℕ) (host : NfpCppHost) : CppProg (Outcome (ℤ × NfpResource)) :=
  (lockMutex waits devMutex host).andThen fun err host =>
    if err ≠ 0 then .ret (.done (-EINVAL, res) host)
    else
      (nfpCppResourceFind calloc res host).andThen fun (err, res) host =>
        if err ≠ 0 then
          (unlockMutex devMutex host).andThen fun _ host => .ret (.done (err, res) host)
        else
          (trylockMutex res.mutex host).andThen fun err host =>
            if err ≠ 0 then
              (freeMutex res.mutex host).andThen fun _ host =>
                (unlockMutex devMutex host).andThen fun _ host => .ret (.done (err, res) host)
            else
              (unlockMutex devMutex host).andThen fun _ host => .ret (.done (0, res) host)

/-- The loop of `nfp_resource_acquire`, which has `n` more rounds before it times out. -/
def acquireLoop (calloc : ℕ → Bool) (waits : ℕ) (devMutex : Option ℕ) :
    ℕ → NfpResource → NfpCppHost → CppProg (Outcome (ℤ × NfpResource))
  | n, res, host =>
    (nfpResourceTryAcquire calloc waits res devMutex host).andThen fun (err, res) host =>
      if err = 0 then .ret (.done (0, res) host)
      else if err ≠ -EBUSY then .ret (.done (err, res) host)
      else
        match n with
        | 0 => .ret (.done (-EBUSY, res) host)
        | n + 1 => acquireLoop calloc waits devMutex n res host

/-- `nfp_resource_acquire`. The loop leaves when `count++ > 1000` after a failure, so that it has
1001 more rounds after the first. `malloc` is whether there is memory for the resource. -/
def nfpResourceAcquire (calloc : ℕ → Bool) (malloc : Bool) (waits : ℕ) (name : List UInt8)
    (host : NfpCppHost) : CppProg (Outcome (Option NfpResource)) :=
  if malloc then
    let res : NfpResource := ⟨name.take nfpResourceEntryNameSz, 0, 0, 0, none⟩
    (allocMutex calloc nfpCppTargetMu nfpResourceTblBase nfpResourceTblKey host).andThen
      fun devMutex host =>
        if devMutex = none then .ret (.done none host)
        else
          (acquireLoop calloc waits devMutex 1001 res host).andThen fun (err, res) host =>
            (freeMutex devMutex host).andThen fun _ host =>
              .ret (.done (if err = 0 then some res else none) host)
  else .ret (.done none host)

/-- `nfp_resource_release`. -/
def nfpResourceRelease (res : NfpResource) (host : NfpCppHost) : CppProg (Outcome Unit) :=
  (unlockMutex res.mutex host).andThen fun _ host => freeMutex res.mutex host

/-! ### The loop of the acquisition -/

namespace CppProg

variable {r : CppProg (Outcome α)} {f : α → NfpCppHost → CppProg (Outcome β)}

/-- What holds of the result of a call that comes to its end. -/
def Ends (Q : α → Prop) (r : CppProg (Outcome α)) : Prop :=
  r.All fun out => ∀ a host, out = .done a host → Q a

theorem ends_done {Q : α → Prop} {a : α} {host : NfpCppHost} (h : Q a) :
    Ends Q (.ret (.done a host)) := by
  intro a' host' he
  cases he
  exact h

theorem ends_andThen {Q : α → Prop} {Q' : β → Prop} (hr : Ends Q r)
    (hf : ∀ a host, Q a → Ends Q' (f a host)) : Ends Q' (r.andThen f) := by
  refine Prog.within_bind.mpr (hr.mono (fun _ => id) fun out hout => ?_)
  cases out with
  | done a host => exact hf a host (hout a host rfl)
  | waiting host => exact nofun
  | nullMutex host => exact nofun
  | badMutex => exact nofun

theorem ends_true (r : CppProg (Outcome α)) : Ends (fun _ => True) r := by
  induction r with
  | ret out => exact fun _ _ _ => trivial
  | access op k ih => exact ⟨trivial, ih⟩

/-- A last step that gives back what it has got. -/
theorem andThen_done {f : α → NfpCppHost → CppProg (Outcome α)}
    (hr : Ends (fun a => ∀ host, f a host = .ret (.done a host)) r) : r.andThen f = r := by
  refine (Prog.bind_congr ?_).trans r.bind_ret
  refine Prog.Within.mono hr (fun _ => id) fun out hout => ?_
  cases out with
  | done a host => exact hout a host rfl host
  | waiting host => rfl
  | nullMutex host => rfl
  | badMutex => rfl

end CppProg

open CppProg

section Retries

variable {calloc : ℕ → Bool} {waits : ℕ} {key : UInt32} {res : NfpResource}
  {devMutex p : Option ℕ} {host : NfpCppHost}

/-- `nfp_cpp_mutex_trylock` tells no error from another. -/
theorem ends_trylockMutex : Ends (fun err => err ≠ -EBUSY) (trylockMutex p host) := by
  refine ends_andThen (ends_true _) fun r host _ => ends_done ?_
  cases r with
  | ok _ => exact (by decide : (0 : ℤ) ≠ -EBUSY)
  | error err => exact (by decide : (-1 : ℤ) ≠ -EBUSY)

theorem ends_findEntry (is : List ℕ) :
    Ends (fun q => q.1 ≠ -EBUSY) (findEntry calloc key res host is) := by
  induction is with
  | nil => exact ends_done (by decide : -ENOENT ≠ -EBUSY)
  | cons i is ih =>
    refine ⟨trivial, fun x => ?_⟩
    change Except ℤ (Fin 32 → UInt8) at x
    cases x with
    | error err => exact ends_done (by decide : -Errno.EIO ≠ -EBUSY)
    | ok bytes =>
      dsimp only
      split
      · exact ih
      · exact ends_andThen (ends_true _) fun mutex host _ =>
          ends_done (by decide : (0 : ℤ) ≠ -EBUSY)

theorem ends_nfpCppResourceFind :
    Ends (fun q => q.1 ≠ -EBUSY) (nfpCppResourceFind calloc res host) := by
  unfold nfpCppResourceFind
  split
  · exact ends_done (by decide : -EOPNOTSUPP ≠ -EBUSY)
  · exact ends_findEntry _

theorem ends_nfpResourceTryAcquire :
    Ends (fun q => q.1 ≠ -EBUSY) (nfpResourceTryAcquire calloc waits res devMutex host) := by
  refine ends_andThen (ends_true _) fun err host _ => ?_
  split
  · exact ends_done (by decide : -EINVAL ≠ -EBUSY)
  · refine ends_andThen ends_nfpCppResourceFind fun q host hq => ?_
    dsimp only
    split
    · exact ends_andThen (ends_true _) fun _ host _ => ends_done hq
    · refine ends_andThen ends_trylockMutex fun err host herr => ?_
      split
      · exact ends_andThen (ends_true _) fun _ host _ =>
          ends_andThen (ends_true _) fun _ host _ => ends_done herr
      · exact ends_andThen (ends_true _) fun _ host _ =>
          ends_done (by decide : (0 : ℤ) ≠ -EBUSY)

/-- **The loop of `nfp_resource_acquire` does not go round**: it waits for another round after
`-EBUSY`, and no attempt returns that. -/
theorem acquireLoop_eq (n : ℕ) : acquireLoop calloc waits devMutex n res host =
    nfpResourceTryAcquire calloc waits res devMutex host := by
  rw [acquireLoop.eq_def]
  refine andThen_done (Prog.Within.mono ends_nfpResourceTryAcquire (fun _ => id) ?_)
  intro out hout q host' he host
  have hne := hout q host' he
  obtain ⟨err, res⟩ := q
  by_cases h0 : err = 0
  · subst h0
    rfl
  · exact (if_neg h0).trans (if_pos hne)

end Retries

end NfpUdpEcho
