import Mathlib.Data.Finset.Basic
import Mathlib.Data.Int.Notation
import NfpUdpEcho.Errno
import NfpUdpEcho.Framework.System

/-!
# The descriptor table of the shim

`shim/interpose.c` keeps in `fd_status`, an array of `MAX_FD` entries, which descriptors are
connections to the device server. `open`, `open64` and `openat` make such a connection for the
path `/dev/nfp-cpp-0` and leave every other path to libc, `close` forgets a descriptor, and the
I/O calls look theirs up. The handlers of the I/O calls close a descriptor through `close` too.

The kernel gives a new descriptor any number that is not open, and every call may fail. A `close`
that fails may have released the number all the same, as it does on Linux, and then the kernel can
give it to another file. A ghost set keeps the descriptors that the application was given for
the device and that have not been released since.

`FdCall.Sound` says of a call that it meets none of the defects of the code; it is the exact
condition for the table to be right (`fdCallOk_iff`):

* `open` answers 0 on success instead of the descriptor, and both `open` and `open64` forget
  the socket when its number is not below `MAX_FD`;
* only `open64` and `open` for the device compare a number with `MAX_FD`: `close` stores outside
  the array, and the I/O calls look outside, for a descriptor of libc that is not below it;
* a `close` that fails leaves the entry as it is, although the number may be gone.

The invariant is that an entry is `FD_CPP` exactly for the descriptors that the application holds
for the device, and that these are open; so a number that the kernel gives out has no such entry.
-/

namespace NfpUdpEcho

open LTS

def maxFd : ℕ := 1024 * 1024

/-- `enum fd_type`. -/
inductive FdType where
  | unused
  | cpp
  | libc
  deriving DecidableEq

/-- `fd_status`, and the descriptors that are open in the kernel. -/
structure FdTable where
  fd_status : Fin maxFd → FdType
  /-- A store has gone outside `fd_status`. -/
  overrun : Bool
  openFds : Finset ℕ

/-- What a call returns: `errno` if it fails. -/
structure FdResult where
  ret : ℤ
  errno : Option ℤ
  deriving DecidableEq

/-- The answer of the kernel to a `close`. -/
inductive CloseAnswer where
  | closed
  | failed (errno : ℤ) (released : Bool)
  deriving DecidableEq

/-- The number is free again. -/
def CloseAnswer.releases : CloseAnswer → Bool
  | .closed => true
  | .failed _ released => released

/-- The answers of the kernel to the calls made by an `open`: a descriptor or `errno` from
`socket` and from the `open` of libc, `errno` or success from `connect`. -/
structure OpenAnswers where
  socket : Except ℤ ℕ
  connect : Option ℤ
  close : CloseAnswer
  libc : Except ℤ ℕ

def devicePath : String := "/dev/nfp-cpp-0"

/-! ### The calls -/

namespace FdTable

/-- `fd_status[fd] = v`. -/
def store (fd : ℕ) (v : FdType) (s : FdTable) : FdTable :=
  if h : fd < maxFd then { s with fd_status := Function.update s.fd_status ⟨fd, h⟩ v }
  else { s with overrun := true }

/-- `fd_status[fd]`, `none` outside the array. -/
def lookup (fd : ℕ) (s : FdTable) : Option FdType :=
  if h : fd < maxFd then some (s.fd_status ⟨fd, h⟩) else none

/-- `libc_close`. -/
def libcClose (fd : ℕ) (ans : CloseAnswer) (s : FdTable) : FdTable :=
  if ans.releases then { s with openFds := s.openFds.erase fd } else s

/-- A descriptor made by the kernel is open. -/
def opened (fd : ℕ) (s : FdTable) : FdTable := { s with openFds := insert fd s.openFds }

/-- `libc_open` and `libc_open64`. -/
def libcOpen (answer : Except ℤ ℕ) (s : FdTable) : FdResult × FdTable :=
  match answer with
  | .error errno => (⟨-1, some errno⟩, s)
  | .ok fd => (⟨fd, none⟩, s.opened fd)

/-- The branch of `open` and `open64` for the device. They differ in what they return for a
connected socket. -/
def connectDevice (value : ℕ → ℤ) (ans : OpenAnswers) (s : FdTable) : FdResult × FdTable :=
  match ans.socket with
  | .error errno => (⟨-1, some errno⟩, s)
  | .ok fd =>
    let s := s.opened fd
    -- the socket stays open
    if fd ≥ maxFd then (⟨-1, some Errno.EMFILE⟩, s)
    else
      match ans.connect with
      | some errno => (⟨-1, some errno⟩, s.libcClose fd ans.close)
      | none => (⟨value fd, none⟩, s.store fd .cpp)

end FdTable

/-- `open`. -/
def shimOpen (pathname : String) (ans : OpenAnswers) (s : FdTable) : FdResult × FdTable :=
  if pathname = devicePath then s.connectDevice (fun _ => 0) ans else s.libcOpen ans.libc

/-- `open64`. -/
def shimOpen64 (pathname : String) (ans : OpenAnswers) (s : FdTable) : FdResult × FdTable :=
  if pathname = devicePath then s.connectDevice (fun fd => fd) ans else s.libcOpen ans.libc

/-- `openat`. -/
def shimOpenat (pathname : String) (ans : OpenAnswers) (s : FdTable) : FdResult × FdTable :=
  if pathname.toList.head? = some '/' then shimOpen pathname ans s
  else (⟨-1, some Errno.ENOTDIR⟩, s)

/-- `close`. -/
def shimClose (fd : ℤ) (ans : CloseAnswer) (s : FdTable) : FdResult × FdTable :=
  let s := s.libcClose fd.toNat ans
  match ans with
  | .closed => (⟨0, none⟩, s.store fd.toNat .unused)
  | .failed errno _ => (⟨-1, some errno⟩, s)

/-- Where `pread`, `pwrite` and `ioctl` send a request. -/
inductive Route where
  | server
  | libc
  deriving DecidableEq

/-- `if (fd_status[fd] == FD_CPP)`, `none` where that looks outside the array. -/
def FdTable.route (fd : ℕ) (s : FdTable) : Option Route :=
  (s.lookup fd).map fun status => if status = .cpp then .server else .libc

/-! ### Runs -/

inductive OpenFn where
  | open32
  | open64
  | openat
  deriving DecidableEq

def OpenFn.call : OpenFn → String → OpenAnswers → FdTable → FdResult × FdTable
  | .open32 => shimOpen
  | .open64 => shimOpen64
  | .openat => shimOpenat

/-- A call of the application, with the answers of the kernel. -/
inductive FdCall where
  | opens (fn : OpenFn) (pathname : String) (ans : OpenAnswers)
  | close (fd : ℤ) (ans : CloseAnswer)

/-- The table, and the descriptors that the application holds for the device. -/
structure FdState where
  table : FdTable
  device : Finset ℕ

/-- What the application holds after a call that returns `ret`. -/
def FdCall.holds (ret : ℤ) (device : Finset ℕ) : FdCall → Finset ℕ
  | .opens _ pathname _ =>
    if pathname = devicePath ∧ 0 ≤ ret then insert ret.toNat device else device
  | .close fd ans => if ans.releases then device.erase fd.toNat else device

def FdCall.run : FdCall → FdTable → FdResult × FdTable
  | .opens fn pathname ans => fn.call pathname ans
  | .close fd ans => shimClose fd ans

def FdCall.next (call : FdCall) (s : FdState) : FdState where
  table := (call.run s.table).2
  device := call.holds (call.run s.table).1.ret s.device

/-- The kernel opens a descriptor that is not open, and releases one that is. -/
def FdCall.Possible (s : FdState) : FdCall → Prop
  | .opens _ pathname ans =>
    if pathname = devicePath then ∀ fd, ans.socket = .ok fd → fd ∉ s.table.openFds
    else ∀ fd, ans.libc = .ok fd → fd ∉ s.table.openFds
  | .close fd ans => ans.releases = true → 0 ≤ fd ∧ fd.toNat ∈ s.table.openFds

/-- Any calls on any paths, from an empty table. -/
def fdSystem : System FdState FdCall where
  init s := s.table.fd_status = (fun _ => .unused) ∧ s.table.overrun = false ∧ s.device = ∅
  step s call s' := call.Possible s ∧ s' = call.next s

/-! ### What the calls are for -/

/-- Opening the device: the connected socket, or a failure that leaves nothing open. -/
def openDevice (ans : OpenAnswers) (openFds : Finset ℕ) : FdResult × Finset ℕ :=
  match ans.socket with
  | .error errno => (⟨-1, some errno⟩, openFds)
  | .ok fd =>
    if fd ≥ maxFd then (⟨-1, some Errno.EMFILE⟩, openFds)
    else
      match ans.connect with
      | some errno => (⟨-1, some errno⟩, openFds)
      | none => (⟨fd, none⟩, insert fd openFds)

/-- The device opens the same way through every function, the table is right, and the requests on
a descriptor go to the server exactly when the application holds it for the device. -/
structure FdCallOk (t : Transition FdState FdCall) : Prop where
  opens : ∀ fn ans, t.label = .opens fn devicePath ans →
    ((fn.call devicePath ans t.src.table).1, (fn.call devicePath ans t.src.table).2.openFds) =
      openDevice ans t.src.table.openFds
  inBounds : t.dst.table.overrun = false
  status : ∀ fd < maxFd, t.dst.table.lookup fd = some .cpp ↔ fd ∈ t.dst.device
  /-- Also of a descriptor above `MAX_FD` that the call has opened. -/
  route : ∀ fd, fd < maxFd ∨ (fd ∈ t.dst.table.openFds ∧ fd ∉ t.src.table.openFds) →
    t.dst.table.route fd = some (if fd ∈ t.dst.device then .server else .libc)

/-- The path comes to the `open` of libc. -/
def OpenFn.ReachesLibc (fn : OpenFn) (pathname : String) : Prop :=
  pathname ≠ devicePath ∧ (fn = .openat → pathname.toList.head? = some '/')

/-- The call does not hit a defect: descriptors are below `MAX_FD`; a device socket that connects
through `open` or `openat` has the number 0, and one that does not connect is released; and a
`close` that fails does not release a descriptor which the table has for the device. -/
def FdCall.Sound (s : FdTable) : FdCall → Prop
  | .opens fn pathname ans =>
    (pathname = devicePath → ∀ fd, ans.socket = .ok fd →
      fd < maxFd ∧ (ans.connect = none → fn = .open64 ∨ fd = 0) ∧
        (ans.connect ≠ none → ans.close.releases = true)) ∧
    (fn.ReachesLibc pathname → ∀ fd, ans.libc = .ok fd → fd < maxFd)
  | .close fd ans =>
    (ans = .closed → fd.toNat < maxFd) ∧
      (ans ≠ .closed → ans.releases = true → s.lookup fd.toNat ≠ some .cpp)

/-! ### The array -/

namespace FdTable

variable {s : FdTable} {fd k : ℕ} {v : FdType}

theorem store_of_lt (h : fd < maxFd) :
    s.store fd v = { s with fd_status := Function.update s.fd_status ⟨fd, h⟩ v } := dif_pos h

theorem overrun_store : (s.store fd v).overrun = false ↔ s.overrun = false ∧ fd < maxFd := by
  by_cases h : fd < maxFd
  · rw [store_of_lt h, and_iff_left h]
  · rw [store, dif_neg h]
    exact iff_of_false (show ¬true = false by decide) fun hlt => h hlt.2

@[simp] theorem openFds_store : (s.store fd v).openFds = s.openFds := by
  unfold store
  split
  · rfl
  · rfl

theorem lookup_store_self (h : fd < maxFd) : (s.store fd v).lookup fd = some v := by
  rw [store_of_lt h, lookup, dif_pos h]
  exact congrArg some (Function.update_self ..)

theorem lookup_store_of_ne (hne : k ≠ fd) : (s.store fd v).lookup k = s.lookup k := by
  unfold lookup store
  split
  next hk =>
    split
    next h =>
      have hne' : (⟨k, hk⟩ : Fin maxFd) ≠ ⟨fd, h⟩ := fun heq => hne (Fin.mk.inj heq)
      exact congrArg some (Function.update_of_ne hne' ..)
    next => rfl
  next => rfl

theorem lt_of_lookup (h : s.lookup fd = some v) : fd < maxFd := by
  by_contra hge
  rw [lookup, dif_neg hge] at h
  cases h

/-- Where the array is right about the device, so are the I/O calls. -/
theorem route_eq {device : Finset ℕ} (hlt : fd < maxFd)
    (h : s.lookup fd = some .cpp ↔ fd ∈ device) :
    s.route fd = some (if fd ∈ device then .server else .libc) := by
  have hin : s.lookup fd = some (s.fd_status ⟨fd, hlt⟩) := dif_pos hlt
  rw [hin, Option.some.injEq] at h
  rw [route, hin, Option.map_some]
  congr 1
  exact if_congr h rfl rfl

theorem route_of_ge (h : ¬fd < maxFd) : s.route fd = none := by
  rw [route, lookup, dif_neg h]
  rfl

end FdTable

/-! ### Opening the device -/

/-- What a function returns for a connected socket. -/
def OpenFn.value : OpenFn → ℕ → ℤ
  | .open32, _ => 0
  | .open64, fd => fd
  | .openat, _ => 0

theorem OpenFn.call_device (fn : OpenFn) (ans : OpenAnswers) (s : FdTable) :
    fn.call devicePath ans s = s.connectDevice fn.value ans := by
  have hopen : shimOpen devicePath ans s = s.connectDevice (fun _ => 0) ans := if_pos rfl
  cases fn with
  | open32 => exact hopen
  | open64 =>
    have hopen64 : shimOpen64 devicePath ans s = s.connectDevice (fun fd => fd) ans := if_pos rfl
    exact hopen64
  | openat =>
    have hroot : devicePath.toList.head? = some '/' := by decide
    have hopenat : shimOpenat devicePath ans s = shimOpen devicePath ans s := if_pos hroot
    exact hopenat.trans hopen

/-- A path that is not the device is left to libc, or refused. -/
theorem OpenFn.call_other (fn : OpenFn) {pathname : String} (h : pathname ≠ devicePath)
    (ans : OpenAnswers) (s : FdTable) :
    (fn.ReachesLibc pathname ∧ fn.call pathname ans s = s.libcOpen ans.libc) ∨
      (¬fn.ReachesLibc pathname ∧ fn.call pathname ans s = (⟨-1, some Errno.ENOTDIR⟩, s)) := by
  cases fn with
  | open32 => exact .inl ⟨⟨h, nofun⟩, if_neg h⟩
  | open64 => exact .inl ⟨⟨h, nofun⟩, if_neg h⟩
  | openat =>
    by_cases hroot : pathname.toList.head? = some '/'
    · exact .inl ⟨⟨h, fun _ => hroot⟩, (if_pos hroot).trans (if_neg h)⟩
    · exact .inr ⟨fun hlibc => hroot (hlibc.2 rfl), if_neg hroot⟩

variable {fn : OpenFn} {ans : OpenAnswers} {s : FdTable}

/-- What a sound call does on the device: it fails and leaves all as it was, or its socket is
connected. -/
theorem connectDevice_sound (hfresh : ∀ fd, ans.socket = .ok fd → fd ∉ s.openFds)
    (hs : (FdCall.opens fn devicePath ans).Sound s) :
    (∃ errno, s.connectDevice fn.value ans = (⟨-1, some errno⟩, s) ∧
        openDevice ans s.openFds = (⟨-1, some errno⟩, s.openFds)) ∨
      ∃ fd, fd < maxFd ∧ fd ∉ s.openFds ∧
        s.connectDevice fn.value ans = (⟨fd, none⟩, (s.opened fd).store fd .cpp) ∧
        openDevice ans s.openFds = (⟨fd, none⟩, insert fd s.openFds) := by
  unfold FdTable.connectDevice openDevice
  cases hsock : ans.socket with
  | error errno => exact .inl ⟨errno, rfl, rfl⟩
  | ok fd =>
    obtain ⟨hlt, hzero, hclose⟩ := hs.1 rfl fd hsock
    have hnew := hfresh fd hsock
    have hge : ¬ fd ≥ maxFd := Nat.not_le.mpr hlt
    dsimp only
    rw [if_neg hge, if_neg hge]
    cases hconn : ans.connect with
    | some errno =>
      -- the socket was opened and is released again
      have hreleases := hclose (by rw [hconn]; exact Option.some_ne_none errno)
      have hundo : (s.opened fd).libcClose fd ans.close = s := by
        rw [FdTable.libcClose, if_pos hreleases]
        change ({ s with openFds := (insert fd s.openFds).erase fd } : FdTable) = s
        rw [Finset.erase_insert hnew]
      exact .inl ⟨errno, congrArg (Prod.mk _) hundo, rfl⟩
    | none =>
      -- `open` answers 0, which is right for the descriptor 0 alone
      have hvalue : fn.value fd = fd := by
        rcases hzero hconn with rfl | rfl
        · rfl
        · cases fn <;> rfl
      refine .inr ⟨fd, hlt, hnew, ?_, rfl⟩
      dsimp only
      rw [hvalue]

/-- A call that opens the device as it should is sound. -/
theorem sound_of_opens (hfresh : ∀ fd, ans.socket = .ok fd → fd ∉ s.openFds)
    (h : ((s.connectDevice fn.value ans).1, (s.connectDevice fn.value ans).2.openFds) =
      openDevice ans s.openFds) :
    (FdCall.opens fn devicePath ans).Sound s := by
  refine ⟨fun _ fd hsock => ?_, fun hlibc => absurd rfl hlibc.1⟩
  have hnew := hfresh fd hsock
  -- a call that fails and leaves the socket open is seen in the open descriptors
  have hgrow : insert fd s.openFds ≠ s.openFds :=
    fun heq => hnew (heq ▸ Finset.mem_insert_self fd s.openFds)
  unfold FdTable.connectDevice openDevice at h
  rw [hsock] at h
  dsimp only at h
  by_cases hge : fd ≥ maxFd
  · rw [if_pos hge, if_pos hge] at h
    exact absurd (Prod.mk.inj h).2 hgrow
  · rw [if_neg hge, if_neg hge] at h
    refine ⟨Nat.not_le.mp hge, fun hconn => ?_, fun hconn => ?_⟩
    · rw [hconn] at h
      have hvalue : fn.value fd = fd := (FdResult.mk.inj (Prod.mk.inj h).1).1
      cases fn with
      | open32 => exact .inr (Int.natCast_eq_zero.mp hvalue.symm)
      | open64 => exact .inl rfl
      | openat => exact .inr (Int.natCast_eq_zero.mp hvalue.symm)
    · obtain ⟨errno, hconn⟩ := Option.ne_none_iff_exists'.mp hconn
      rw [hconn] at h
      by_contra hkeeps
      rw [FdTable.libcClose, if_neg hkeeps] at h
      exact absurd (Prod.mk.inj h).2 hgrow

/-! ### Runs of sound calls -/

/-- The table is right, and what the application holds is open. -/
structure FdInv (s : FdState) : Prop where
  inBounds : s.table.overrun = false
  status : ∀ fd, s.table.lookup fd = some .cpp ↔ fd ∈ s.device
  isOpen : s.device ⊆ s.table.openFds

variable {st : FdState} {fd : ℕ}

/-- Descriptors come or go that are not for the device. -/
theorem FdInv.withOpen (h : FdInv st) {openFds : Finset ℕ} (hsub : st.device ⊆ openFds) :
    FdInv ⟨{ st.table with openFds := openFds }, st.device⟩ :=
  ⟨h.inBounds, h.status, hsub⟩

/-- A device socket is handed to the application. -/
theorem FdInv.grant (h : FdInv st) (hlt : fd < maxFd) :
    FdInv ⟨(st.table.opened fd).store fd .cpp, insert fd st.device⟩ where
  inBounds := FdTable.overrun_store.mpr ⟨h.inBounds, hlt⟩
  status k := by
    by_cases hk : k = fd
    · subst hk
      exact iff_of_true (FdTable.lookup_store_self hlt) (Finset.mem_insert_self k _)
    · dsimp only
      rw [FdTable.lookup_store_of_ne hk, Finset.mem_insert, or_iff_right hk]
      exact h.status k
  isOpen := by
    dsimp only
    rw [FdTable.openFds_store]
    exact Finset.insert_subset_insert fd h.isOpen

/-- A descriptor is closed. -/
theorem FdInv.drop (h : FdInv st) (hlt : fd < maxFd) :
    FdInv ⟨({ st.table with openFds := st.table.openFds.erase fd } : FdTable).store fd .unused,
      st.device.erase fd⟩ where
  inBounds := FdTable.overrun_store.mpr ⟨h.inBounds, hlt⟩
  status k := by
    by_cases hk : k = fd
    · subst hk
      dsimp only
      rw [FdTable.lookup_store_self hlt]
      exact iff_of_false (by decide) (Finset.notMem_erase k _)
    · dsimp only
      rw [FdTable.lookup_store_of_ne hk, Finset.mem_erase, and_iff_right hk]
      exact h.status k
  isOpen := by
    dsimp only
    rw [FdTable.openFds_store]
    exact Finset.erase_subset_erase fd h.isOpen

theorem FdCall.next_opens (fn : OpenFn) (pathname : String) (ans : OpenAnswers) (st : FdState) :
    (FdCall.opens fn pathname ans).next st =
      ⟨(fn.call pathname ans st.table).2,
        if pathname = devicePath ∧ 0 ≤ (fn.call pathname ans st.table).1.ret then
          insert (fn.call pathname ans st.table).1.ret.toNat st.device
        else st.device⟩ := rfl

theorem FdInv.next_device (h : FdInv st)
    (hp : (FdCall.opens fn devicePath ans).Possible st)
    (hs : (FdCall.opens fn devicePath ans).Sound st.table) :
    FdInv ((FdCall.opens fn devicePath ans).next st) := by
  have hfresh : ∀ fd, ans.socket = .ok fd → fd ∉ st.table.openFds := by
    rwa [FdCall.Possible, if_pos rfl] at hp
  rw [FdCall.next_opens, fn.call_device]
  rcases connectDevice_sound hfresh hs with ⟨errno, heq, -⟩ | ⟨fd, hlt, -, heq, -⟩
  -- the application holds the socket when it connects, and nothing more when it does not
  · rw [heq, if_neg (fun hret => absurd hret.2 (show ¬ (0 : ℤ) ≤ -1 by decide))]
    exact h
  · rw [heq, if_pos ⟨rfl, Int.natCast_nonneg fd⟩]
    exact h.grant hlt

theorem FdInv.next_other (h : FdInv st) {pathname : String} (hpath : pathname ≠ devicePath) :
    FdInv ((FdCall.opens fn pathname ans).next st) := by
  rw [FdCall.next_opens, if_neg fun hret => hpath hret.1]
  rcases fn.call_other hpath ans st.table with ⟨-, heq⟩ | ⟨-, heq⟩
  · rw [heq]
    cases hlibc : ans.libc with
    | error errno => exact h
    | ok fd => exact h.withOpen (h.isOpen.trans (Finset.subset_insert fd _))
  · rw [heq]
    exact h

theorem FdInv.next_close (h : FdInv st) {fd : ℤ} {ans : CloseAnswer}
    (hs : (FdCall.close fd ans).Sound st.table) : FdInv ((FdCall.close fd ans).next st) := by
  cases ans with
  | closed => exact h.drop (hs.1 rfl)
  | failed errno released =>
    cases released with
    | false => exact h
    | true =>
      -- the number is gone, and it was not one of the device
      have hcpp : fd.toNat ∉ st.device := by
        rw [← h.status]
        exact hs.2 nofun rfl
      have hdevice : st.device.erase fd.toNat = st.device := Finset.erase_eq_of_notMem hcpp
      have hopen : st.device ⊆ st.table.openFds.erase fd.toNat :=
        Finset.subset_erase.mpr ⟨h.isOpen, hcpp⟩
      change FdInv ⟨{ st.table with openFds := st.table.openFds.erase fd.toNat },
        st.device.erase fd.toNat⟩
      rw [hdevice]
      exact h.withOpen hopen

/-- **A sound call** keeps the table right. -/
theorem FdInv.next (h : FdInv st) {call : FdCall} (hp : call.Possible st)
    (hs : call.Sound st.table) : FdInv (call.next st) := by
  cases call with
  | close fd ans => exact h.next_close hs
  | opens fn pathname ans =>
    by_cases hpath : pathname = devicePath
    · subst hpath
      exact h.next_device hp hs
    · exact h.next_other hpath

/-- A sound call opens nothing above `MAX_FD`. -/
theorem FdCall.Sound.opened_lt {call : FdCall} (hp : call.Possible st)
    (hs : call.Sound st.table) (hnew : fd ∈ (call.next st).table.openFds)
    (hold : fd ∉ st.table.openFds) : fd < maxFd := by
  cases call with
  | close fd' ans =>
    -- a `close` opens nothing at all
    have hsub : ((FdCall.close fd' ans).next st).table.openFds ⊆ st.table.openFds := by
      cases ans with
      | closed =>
        change ((st.table.libcClose fd'.toNat .closed).store fd'.toNat .unused).openFds ⊆ _
        rw [FdTable.openFds_store]
        exact Finset.erase_subset _ _
      | failed errno released =>
        cases released with
        | false => exact Finset.Subset.refl _
        | true => exact Finset.erase_subset _ _
    exact absurd (hsub hnew) hold
  | opens fn pathname ans =>
    rw [FdCall.next_opens] at hnew
    by_cases hpath : pathname = devicePath
    · subst hpath
      have hfresh : ∀ fd, ans.socket = .ok fd → fd ∉ st.table.openFds := by
        rwa [FdCall.Possible, if_pos rfl] at hp
      rw [fn.call_device] at hnew
      rcases connectDevice_sound hfresh hs with ⟨errno, heq, -⟩ | ⟨fd', hlt, -, heq, -⟩
      · rw [heq] at hnew
        exact absurd hnew hold
      · rw [heq] at hnew
        dsimp only at hnew
        rw [FdTable.openFds_store] at hnew
        obtain rfl := (Finset.mem_insert.mp hnew).resolve_right hold
        exact hlt
    · rcases fn.call_other hpath ans st.table with ⟨hlibc, heq⟩ | ⟨-, heq⟩
      · rw [heq] at hnew
        cases hans : ans.libc with
        | error errno =>
          rw [hans] at hnew
          exact absurd hnew hold
        | ok fd' =>
          rw [hans] at hnew
          obtain rfl := (Finset.mem_insert.mp hnew).resolve_right hold
          exact hs.2 hlibc fd hans
      · rw [heq] at hnew
        exact absurd hnew hold

theorem FdInv.callOk (h : FdInv st) {call : FdCall} (hp : call.Possible st)
    (hs : call.Sound st.table) : FdCallOk ⟨st, call, call.next st⟩ where
  opens fn ans hlabel := by
    obtain rfl : call = .opens fn devicePath ans := hlabel
    have hfresh : ∀ fd, ans.socket = .ok fd → fd ∉ st.table.openFds := by
      rwa [FdCall.Possible, if_pos rfl] at hp
    rw [fn.call_device]
    rcases connectDevice_sound hfresh hs with ⟨errno, heq, hspec⟩ | ⟨fd, -, -, heq, hspec⟩
    · rw [heq, hspec]
    · rw [heq, hspec]
      dsimp only
      rw [FdTable.openFds_store]
      rfl
  inBounds := (h.next hp hs).inBounds
  status fd _ := (h.next hp hs).status fd
  route fd hfd := by
    have hlt : fd < maxFd := hfd.elim id fun hnew => hs.opened_lt hp hnew.1 hnew.2
    exact FdTable.route_eq hlt ((h.next hp hs).status fd)

/-! ### Calls that are not sound -/

/-- A call of libc that is looked up has a number below `MAX_FD`. -/
theorem FdCallOk.libc_lt {pathname : String} (hp : (FdCall.opens fn pathname ans).Possible st)
    (hok : FdCallOk ⟨st, .opens fn pathname ans, (FdCall.opens fn pathname ans).next st⟩)
    (hlibc : fn.ReachesLibc pathname) (hans : ans.libc = .ok fd) : fd < maxFd := by
  have hfresh : fd ∉ st.table.openFds := by
    rw [FdCall.Possible, if_neg hlibc.1] at hp
    exact hp fd hans
  have hopen : fd ∈ ((FdCall.opens fn pathname ans).next st).table.openFds := by
    rw [FdCall.next_opens]
    rcases fn.call_other hlibc.1 ans st.table with ⟨-, heq⟩ | ⟨hrefused, -⟩
    · rw [heq, hans]
      exact Finset.mem_insert_self fd _
    · exact absurd hlibc hrefused
  have hroute := hok.route fd (.inr ⟨hopen, hfresh⟩)
  by_contra hge
  rw [FdTable.route_of_ge hge] at hroute
  cases hroute

theorem FdCallOk.close_sound {fd : ℤ} {ans : CloseAnswer}
    (hok : FdCallOk ⟨st, .close fd ans, (FdCall.close fd ans).next st⟩) :
    (FdCall.close fd ans).Sound st.table := by
  constructor
  · rintro rfl
    exact (FdTable.overrun_store.mp hok.inBounds).2
  · intro hne hreleases hcpp
    have hstatus := hok.status fd.toNat (FdTable.lt_of_lookup hcpp)
    cases ans with
    | closed => exact hne rfl
    | failed errno released =>
      obtain rfl : released = true := hreleases
      -- the entry is still there, but the application holds nothing
      exact absurd (hstatus.mp hcpp) (Finset.notMem_erase _ _)

theorem FdCallOk.sound {call : FdCall} (hp : call.Possible st)
    (hok : FdCallOk ⟨st, call, call.next st⟩) : call.Sound st.table := by
  cases call with
  | close fd ans => exact hok.close_sound
  | opens fn pathname ans =>
    by_cases hpath : pathname = devicePath
    · subst hpath
      have hopens := hok.opens fn ans rfl
      rw [fn.call_device] at hopens
      refine sound_of_opens ?_ hopens
      rwa [FdCall.Possible, if_pos rfl] at hp
    · exact ⟨fun hdev => absurd hdev hpath, fun hlibc fd hans => hok.libc_lt hp hlibc hans⟩

/-- **When the table is right.** Along a run of calls every opening of the device does the same
and every request is routed by what the application holds exactly when every call is sound. -/
theorem fdCallOk_iff {h : List (Transition FdState FdCall)} {s : FdState}
    (he : Exec fdSystem h s) :
    (∀ t ∈ h, FdCallOk t) ↔ ∀ t ∈ h, t.label.Sound t.src.table := by
  have hinit : ∀ st, fdSystem.init st → FdInv st := by
    rintro ⟨table, device⟩ ⟨hstatus, hbounds, rfl⟩
    refine ⟨hbounds, fun fd => iff_of_false ?_ (Finset.notMem_empty fd), Finset.empty_subset _⟩
    dsimp only at hstatus ⊢
    rw [FdTable.lookup, hstatus]
    split
    · exact nofun
    · exact nofun
  refine @Exec.exact _ _ fdSystem h s FdInv (fun st call => call.Sound st.table) FdCallOk hinit
    ?_ ?_ ?_ he
  · rintro st call _ hI ⟨hp, rfl⟩ hs
    exact hI.next hp hs
  · rintro st call _ hI ⟨hp, rfl⟩ hs
    exact hI.callOk hp hs
  · rintro st call _ hI ⟨hp, rfl⟩ hok
    exact hok.sound hp

/-- A server that accepts the connection on socket `3`. -/
def connecting3 : OpenAnswers := ⟨.ok 3, none, .closed, .error 0⟩

/-- A file that is opened as descriptor `3`. -/
def file3 : OpenAnswers := ⟨.error 0, none, .closed, .ok 3⟩

def noDevice : FdState := ⟨⟨fun _ => .unused, false, {0, 1, 2}⟩, ∅⟩

def openDevice3 : FdCall := .opens .open64 devicePath connecting3

def close3 : FdCall := .close 3 .closed

def openFile3 : FdCall := .opens .open32 "/etc/hosts" file3

/-- A first call. -/
theorem fdSystem_first {call : FdCall} (hp : call.Possible noDevice) :
    Exec fdSystem [⟨noDevice, call, call.next noDevice⟩] (call.next noDevice) :=
  (Exec.init (show fdSystem.init noDevice from ⟨rfl, rfl, rfl⟩)).snoc ⟨hp, rfl⟩

/-- The device is opened and closed, and its number is used again for a file. -/
theorem fdCallOk_iff_reused : ∃ h s, Exec fdSystem h s ∧ h.length = 3 ∧
    s.table.route 3 = some .libc ∧ ∀ t ∈ h, FdCallOk t := by
  have hopens : openDevice3.Possible noDevice := by
    rw [openDevice3, FdCall.Possible, if_pos rfl]
    rintro fd ⟨⟩
    decide
  have hclose : close3.Possible (openDevice3.next noDevice) := fun _ => by decide +kernel
  have hreuse : openFile3.Possible (close3.next (openDevice3.next noDevice)) := by
    rw [openFile3, FdCall.Possible, if_neg (by decide)]
    rintro fd ⟨⟩
    decide +kernel
  have he := ((fdSystem_first hopens).snoc ⟨hclose, rfl⟩).snoc ⟨hreuse, rfl⟩
  refine ⟨_, _, he, rfl, by decide +kernel, (fdCallOk_iff he).mpr ?_⟩
  simp only [List.nil_append, List.cons_append, List.forall_mem_cons]
  refine ⟨⟨fun _ => ?_, fun hlibc => absurd rfl hlibc.1⟩, ⟨fun _ => by decide, nofun⟩,
    ⟨fun hdev => absurd hdev (by decide), fun _ => ?_⟩, List.forall_mem_nil _⟩
  -- the socket and the file are both descriptor 3
  · rintro fd ⟨⟩
    exact ⟨by decide, fun _ => .inl rfl, fun hconn => absurd rfl hconn⟩
  · rintro fd ⟨⟩
    decide

/-- `open` connects socket `3` and answers `0`. -/
theorem open_returns_zero : ¬ ∀ h s, Exec fdSystem h s → ∀ t ∈ h, FdCallOk t := by
  intro hall
  have hfirst : (FdCall.opens .open32 devicePath connecting3).Possible noDevice := by
    rw [FdCall.Possible, if_pos rfl]
    rintro fd ⟨⟩
    decide
  have hok := (hall _ _ (fdSystem_first hfirst) _ (List.mem_singleton.mpr rfl)).opens .open32
    connecting3 rfl
  exact absurd (congrArg (fun q => q.1.ret) hok) (by decide)

end NfpUdpEcho
