import NfpUdpEcho.Framework.Exchange
import NfpUdpEcho.Server.WriteExact
import NfpUdpEcho.Shim.Framing

/-!
# Device access through the shim

A `pread` or `pwrite` that the shim sends to the server against the same access made directly
to the memory of the device, when none of the operations that the server makes for it fails.
`refines_iff` says for which counts the two agree, and complete whatever the order of the two
sides' steps. The shim takes the status for an `int`, so that bit 31 of a count is taken for a
sign, and what it returns is signed, so that a count of `2 ^ 63` never comes back. A write of
`2 ^ 32` bytes or more moreover never ends.

A server that fails is another matter: its status reaches the caller for every count
(`failsCleanly`).
-/

namespace NfpUdpEcho

open Duplex ByteMem LittleEndian

variable {σ α : Type}

/-! ### Direct access -/

/-- The buffer after `count` bytes are read into it from the device. -/
def directRead (memory : UInt32 → Mem) (count offset : UInt64) (buf : Mem) : Mem :=
  buf.copy 0 (deviceAt memory offset) 0 count.toNat

/-- The device after `count` bytes of the buffer are written to it. -/
def directWrite (memory : UInt32 → Mem) (count offset : UInt64) (buf : Mem) : UInt32 → Mem :=
  written memory offset buf count.toNat

/-- What is read back is what was written. -/
theorem directRead_directWrite (memory : UInt32 → Mem) (count offset : UInt64) (buf buf' : Mem) :
    directRead (directWrite memory count offset buf) count offset buf' =
      buf'.copy 0 buf 0 count.toNat := by
  refine Mem.copy_congr buf' fun k hk => ?_
  rw [Nat.zero_add, deviceAt, directWrite, written, Function.update_self, Mem.copy_of_lt _ _ hk,
    Nat.zero_add]

/-- A call that returns `n`. -/
def succeeded (n : UInt64) (mem : Mem) : ShimResult := ⟨n.toNat, none, false, some mem⟩

/-- A call that fails with `errno` set to `e`. -/
def failedWith (e : Int32) (mem : Mem) : ShimResult := ⟨-1, some e, false, some mem⟩

/-! ### The two sides -/

section Talks

variable {count offset status : UInt64} {buf : Mem} {bytes out : List UInt8}

/-- The request of a read. -/
def preadRequest (count offset : UInt64) : List UInt8 :=
  u64Bytes opPread ++ (u64Bytes count ++ (u64Bytes offset ++ []))

/-- The request of a write, with the payload. -/
def pwriteRequest (count offset : UInt64) (buf : Mem) : List UInt8 :=
  u64Bytes opPwrite ++ (u64Bytes count ++ (u64Bytes offset ++ (buf.load 0 count.toNat ++ [])))

theorem pread_speaks (hok : ¬asInt status < 0) (hlen : bytes.length = status.toNat) :
    Speaks (· = []) (Shim.pread buf count offset) (u64Bytes status ++ (bytes ++ []))
      (preadRequest count offset)
      ⟨status.toInt64.toInt, none, false, some (buf.store 0 bytes)⟩ := by
  refine .write (.write (.write (.read (length_u64Bytes status) rfl ?_)))
  rw [if_neg (by rw [length_u64Bytes]; decide), u64OfBytes_u64Bytes, if_neg hok]
  exact .readAll hlen rfl (.ret _ _)

theorem pread_speaks_failed (hneg : asInt status < 0) :
    Speaks (· = []) (Shim.pread buf count offset) (u64Bytes status ++ [])
      (preadRequest count offset) (failedWith (-asInt status) buf) := by
  refine .write (.write (.write (.read (length_u64Bytes status) rfl ?_)))
  rw [if_neg (by rw [length_u64Bytes]; decide), u64OfBytes_u64Bytes, if_pos hneg]
  exact .ret _ _

/-- Of the reply to a write only the sign matters. -/
theorem pwrite_speaks (status : UInt64) :
    Speaks (· = []) (Shim.pwrite buf count offset) (u64Bytes status ++ [])
      (pwriteRequest count offset buf)
      (if asInt status < 0 then failedWith (-asInt status) buf
        else ⟨status.toInt64.toInt, none, false, some buf⟩) := by
  refine .write (.write (.write (.writeAll (.read (length_u64Bytes status) rfl ?_))))
  rw [if_neg (by rw [length_u64Bytes]; decide), u64OfBytes_u64Bytes]
  by_cases hneg : asInt status < 0
  · rw [if_pos hneg, if_pos hneg]
    exact .ret _ _
  · rw [if_neg hneg, if_neg hneg]
    exact .ret _ _

variable {dev : CppDev σ α} {data : DevData σ α} {r : TransferResult σ} {b : ℤ × DevData σ α}

/-- Where the server enters the loops of a read. -/
def serverReadEntry (dev : CppDev σ α) (data : DevData σ α) (count offset : UInt64) :
    Transfer σ α :=
  readEntry count offset (dev.garbage .buf data.world) (dev.garbage .tmpbuf data.world) data.world

/-- Where it enters those of a write, with the payload in its buffer. -/
def serverWriteEntry (dev : CppDev σ α) (data : DevData σ α) (count offset : UInt64) (buf : Mem) :
    Transfer σ α :=
  writeEntry count offset 0 ((dev.garbage .buf data.world).store 0 (buf.load 0 count.toNat))
    (dev.garbage .tmpbuf data.world) data.world

/-- The loops of a read end with `r`. -/
def ReadReturns (dev : CppDev σ α) (data : DevData σ α) (count offset : UInt64)
    (r : TransferResult σ) : Prop :=
  Loop.Returns (devRead dev.ops offset) (serverReadEntry dev data count offset) r

/-- The loops of a write end with `r`. -/
def WriteReturns (dev : CppDev σ α) (data : DevData σ α) (count offset : UInt64) (buf : Mem)
    (r : TransferResult σ) : Prop :=
  Loop.Returns (devWrite dev.ops offset) (serverWriteEntry dev data count offset buf) r

theorem handleCmd_pread_speaks (hr : ReadReturns dev data count offset r)
    (htail : Speaks (fun _ => True) (readTail data r) [] out b) :
    Speaks (fun _ => True) (nfpCppDevHandleCmd dev data) (preadRequest count offset) out b := by
  refine .read (length_u64Bytes opPread) trivial ?_
  rw [u64OfBytes_u64Bytes, if_pos rfl]
  refine .read (length_u64Bytes count) trivial (.read (length_u64Bytes offset) trivial ?_)
  rw [u64OfBytes_u64Bytes, u64OfBytes_u64Bytes]
  exact .loop hr htail

/-- The word that a write is answered with. -/
def writeStatus (r : TransferResult σ) : UInt64 :=
  match r.status with
  | .ok totlen => totlen
  | .error err => statusWord err

theorem handleCmd_pwrite_speaks (hr : WriteReturns dev data count offset buf r) :
    Speaks (fun _ => True) (nfpCppDevHandleCmd dev data) (pwriteRequest count offset buf)
      (u64Bytes (writeStatus r) ++ []) (0, { data with world := r.world }) := by
  refine .read (length_u64Bytes opPwrite) trivial ?_
  rw [u64OfBytes_u64Bytes, if_neg (by decide), if_pos rfl]
  refine .read (length_u64Bytes count) trivial (.read (length_u64Bytes offset) trivial ?_)
  rw [u64OfBytes_u64Bytes, u64OfBytes_u64Bytes]
  refine .readAll (Mem.length_load buf 0 _) trivial (.loop hr ?_)
  rw [writeStatus]
  cases r.status with
  | ok totlen => exact .write (.ret _ _)
  | error err => exact .write (.ret _ _)

end Talks

/-! ### A server that fails -/

section Fails

variable {dev : CppDev σ α} {data : DevData σ α} {count offset : UInt64} {buf : Mem}
  {r : TransferResult σ} {e : ℤ}

/-- The status `-e` comes back as `e`, as an `int`. -/
theorem neg_asInt_statusWord (hint : IsInt (-e)) : -asInt (statusWord (-e)) = .ofInt e := by
  have hcast := congrArg Int32.ofInt (asInt_statusWord hint)
  rw [Int32.ofInt_toInt] at hcast
  rw [hcast, Int32.ofInt_neg, Int32.neg_neg]

theorem pread_fails (hr : ReadReturns dev data count offset r) (he : r.status = .error (-e)) :
    Completes (Shim.pread buf count offset) (nfpCppDevHandleCmd dev data)
      (failedWith (.ofInt e) buf) (0, { data with world := r.world }) := by
  have hpost := read_result hr
  rw [ReadPost, he] at hpost
  obtain ⟨hint, hneg⟩ := hpost
  have htail : Speaks (fun _ => True) (readTail data r) [] (u64Bytes (statusWord (-e)) ++ [])
      (0, { data with world := r.world }) := by
    rw [readTail, he]
    exact .write (.ret _ _)
  have hclient := @pread_speaks_failed count offset _ buf (asInt_statusWord_neg hint hneg)
  rw [neg_asInt_statusWord hint] at hclient
  exact completes_of_speaks hclient (handleCmd_pread_speaks hr htail)

theorem pwrite_fails (hr : WriteReturns dev data count offset buf r)
    (he : r.status = .error (-e)) :
    Completes (Shim.pwrite buf count offset) (nfpCppDevHandleCmd dev data)
      (failedWith (.ofInt e) buf) (0, { data with world := r.world }) := by
  -- the only error of a write is one that an `int` holds
  have heio : -e = - Errno.EIO := devWrite_error hr he
  have hint : IsInt (-e) := heio ▸ isInt_EIO.1
  have hneg : -e < 0 := heio ▸ isInt_EIO.2
  have hclient := @pwrite_speaks count offset buf (writeStatus r)
  rw [writeStatus, he, if_pos (asInt_statusWord_neg hint hneg),
    neg_asInt_statusWord hint] at hclient
  have hserver := handleCmd_pwrite_speaks hr
  rw [writeStatus, he] at hserver
  exact completes_of_speaks hclient hserver

/-- Whatever the library: when the server fails with the status `-e`, so does the call, with
`errno` set to `e` and the caller's memory as it was. `errno` is an `int`: it holds `e` but for
the status `INT_MIN`, which is stored as it is. -/
def FailsCleanly (dev : CppDev σ α) (count offset : UInt64) : Prop :=
  ∀ (data : DevData σ α) (buf : Mem) (r : TransferResult σ) (e : ℤ), r.status = .error (-e) →
    (ReadReturns dev data count offset r →
      Completes (Shim.pread buf count offset) (nfpCppDevHandleCmd dev data)
        (failedWith (.ofInt e) buf) (0, { data with world := r.world })) ∧
    (WriteReturns dev data count offset buf r →
      Completes (Shim.pwrite buf count offset) (nfpCppDevHandleCmd dev data)
        (failedWith (.ofInt e) buf) (0, { data with world := r.world }))

theorem failsCleanly (dev : CppDev σ α) (count offset : UInt64) :
    FailsCleanly dev count offset :=
  fun _ _ _ _ he => ⟨fun hr => pread_fails hr he, fun hr => pwrite_fails hr he⟩

end Fails

/-! ### A server that succeeds -/

section Succeeds

variable {dev : CppDev σ α} {place : α → UInt32 × UInt64} {mem : σ → UInt32 → Mem}
  {data : DevData σ α} {count offset : UInt64} {buf buf' : Mem}

/-- Every operation of the read that the server makes succeeds. -/
def ServesRead (dev : CppDev σ α) (data : DevData σ α) (count offset : UInt64) : Prop :=
  NoReadFails dev.ops offset (serverReadEntry dev data count offset)

/-- Every operation of the write that the server makes succeeds. -/
def ServesWrite (dev : CppDev σ α) (data : DevData σ α) (count offset : UInt64) (buf : Mem) :
    Prop :=
  NoWriteFails dev.ops offset (serverWriteEntry dev data count offset buf)

/-- Access through the shim and the server is direct access, when the operations it comes to
succeed: a read into `buf'`, a write of `buf`, and that write followed by the read. -/
structure Refines (dev : CppDev σ α) (mem : σ → UInt32 → Mem) (data : DevData σ α)
    (count offset : UInt64) (buf buf' : Mem) : Prop where
  pread : ServesRead dev data count offset → ∃ world, mem world = mem data.world ∧
    Completes (Shim.pread buf' count offset) (nfpCppDevHandleCmd dev data)
      (succeeded count (directRead (mem data.world) count offset buf'))
      (0, { data with world := world })
  pwrite : ServesWrite dev data count offset buf →
    ∃ world, mem world = directWrite (mem data.world) count offset buf ∧
      Completes (Shim.pwrite buf count offset) (nfpCppDevHandleCmd dev data)
        (succeeded count buf) (0, { data with world := world })
  readBack : ServesWrite dev data count offset buf → ∀ data',
    Completes (Shim.pwrite buf count offset) (nfpCppDevHandleCmd dev data)
      (succeeded count buf) (0, data') →
    ServesRead dev data' count offset →
    ∃ data'', Completes (Shim.pread buf' count offset) (nfpCppDevHandleCmd dev data')
      (succeeded count (buf'.copy 0 buf 0 count.toNat)) (0, data'')

/-- A count that `pread` can return: not negative as an `int`, nor as a `ssize_t`. -/
def ReadFits (count : UInt64) : Prop := ¬asInt count < 0 ∧ count.toNat < 2 ^ 63

theorem readFits_of_lt (hcount : count.toNat < 2 ^ 31) : ReadFits count := by
  refine ⟨?_, hcount.trans (by decide)⟩
  rw [asInt_neg_iff (hcount.trans (by decide))]
  exact not_le.mpr hcount

/-- The read of the server ends with the count and the bytes of the device. -/
theorem servesRead_returns (h : dev.ops.Plain place mem) (hcount : count.toNat < 2 ^ 63)
    (hserves : ServesRead dev data count offset) :
    ∃ r, ReadReturns dev data count offset r ∧ r.status = .ok count ∧
      Filled (deviceAt (mem data.world) offset) r.buf count.toNat ∧
      mem r.world = mem data.world := by
  obtain ⟨r, hr, hpost⟩ := devRead_exact dev h.accesses count offset hcount
    (dev.garbage .buf data.world) (dev.garbage .tmpbuf data.world) data.world
  have hstatus := hpost.status
  split at hstatus
  next totlen hok =>
    obtain ⟨rfl, hfilled⟩ := hstatus
    exact ⟨r, hr, hok, hfilled, hpost.same_mem⟩
  -- an error would be that of an operation
  next err _ => exact absurd hserves hstatus.2.2

theorem pread_succeeds (h : dev.ops.Plain place mem) (hfits : ReadFits count)
    (data : DevData σ α) (hserves : ServesRead dev data count offset) (buf : Mem) :
    ∃ world, mem world = mem data.world ∧
      Completes (Shim.pread buf count offset) (nfpCppDevHandleCmd dev data)
        (succeeded count (directRead (mem data.world) count offset buf))
        (0, { data with world := world }) := by
  obtain ⟨hpos, hcount⟩ := hfits
  obtain ⟨r, hr, hok, hfilled, hmem⟩ := servesRead_returns h hcount hserves
  refine ⟨r.world, hmem, ?_⟩
  have htail : Speaks (fun _ => True) (readTail data r) []
      (u64Bytes count ++ (r.buf.load 0 count.toNat ++ []))
      (0, { data with world := r.world }) := by
    rw [readTail, hok]
    exact .write (.writeAll (.ret _ _))
  have hclient := @pread_speaks count offset count buf (r.buf.load 0 count.toNat) hpos
    (Mem.length_load _ _ _)
  rw [toInt64_toInt hcount, hfilled.load, Mem.store_load] at hclient
  rw [hfilled.load] at htail
  exact completes_of_speaks hclient (handleCmd_pread_speaks hr htail)

/-- `pread` returns a `ssize_t`. -/
theorem pread_only (buf : Mem) (count offset : UInt64) :
    (Shim.pread buf count offset).Only fun a => a.ret < 2 ^ 63 := by
  intro bytes
  dsimp only
  split
  · exact show (-1 : ℤ) < 2 ^ 63 by decide
  · split
    · exact show (-1 : ℤ) < 2 ^ 63 by decide
    · exact Proc.Only.readRest fun _ => Int64.toInt_lt _

/-- A count that is negative as an `int` leaves its payload in the stream. -/
theorem pread_never (h : dev.ops.Plain place mem) (hcount : count.toNat < 2 ^ 63)
    (hneg : asInt count < 0) (hserves : ServesRead dev data count offset) (buf : Mem)
    (a : ShimResult) (b : ℤ × DevData σ α) :
    ¬Completes (Shim.pread buf count offset) (nfpCppDevHandleCmd dev data) a b := by
  intro hcompletes
  obtain ⟨r, hr, hok, -⟩ := servesRead_returns h hcount hserves
  obtain ⟨i, o, hclient, hserver⟩ := hcompletes.runs
  -- the server answers with the count and the payload
  have hanswers : Answers (nfpCppDevHandleCmd dev data) (preadRequest count offset)
      (fun _ => False) fun out _ =>
        out = u64Bytes count ++ (r.buf.load 0 count.toNat ++ []) := by
    refine .read (length_u64Bytes opPread) ?_
    rw [u64OfBytes_u64Bytes, if_pos rfl]
    refine .read (length_u64Bytes count) (.read (length_u64Bytes offset) ?_)
    rw [u64OfBytes_u64Bytes, u64OfBytes_u64Bytes]
    refine .loop fun r' hr' => ?_
    obtain rfl := hr.unique hr'
    rw [hok]
    exact .of_sends (.write (u64Bytes_ne_nil count) (.writeAll .ret)) rfl
  obtain ⟨-, -, hend⟩ := pread_asks buf count offset _ _ _ hclient
  obtain ⟨rfl, head, rest, hhead, rfl, hrest⟩ := hend a rfl
  obtain ⟨-, hret⟩ := hanswers _ _ _ hserver (List.prefix_refl _)
  have hsent := (hret b rfl).elim False.elim And.right
  -- and the shim takes the count alone
  obtain ⟨rfl, hpayload⟩ := List.append_inj hsent (hhead.trans (length_u64Bytes count).symm)
  rw [u64OfBytes_u64Bytes, preadMore, if_pos hneg, hpayload, List.append_nil,
    Mem.length_load] at hrest
  obtain rfl : count = 0 := UInt64.toNat_inj.mp hrest
  exact absurd hneg (by decide)

/-- Only the payload is looked at. -/
theorem written_payload (memory : UInt32 → Mem) (offset : UInt64) (garbage buf : Mem) (n : ℕ) :
    written memory offset (garbage.store 0 (buf.load 0 n)) n = written memory offset buf n := by
  unfold written
  rw [Mem.store_load]
  congr 1
  refine Mem.copy_congr _ fun k hk => ?_
  rw [Nat.zero_add, ← Nat.zero_add k, Mem.copy_of_lt _ _ hk]

/-- A write of fewer than `2 ^ 32` bytes completes; what it returns depends on the sign. -/
theorem pwrite_completes (h : dev.ops.Plain place mem) (hcount : count.toNat < 2 ^ 32)
    (hserves : ServesWrite dev data count offset buf) :
    ∃ world, mem world = directWrite (mem data.world) count offset buf ∧
      Completes (Shim.pwrite buf count offset) (nfpCppDevHandleCmd dev data)
        (if asInt count < 0 then failedWith (-asInt count) buf else succeeded count buf)
        (0, { data with world := world }) := by
  obtain ⟨r, hr, hpost⟩ := devWrite_exact h count offset hcount 0
    ((dev.garbage .buf data.world).store 0 (buf.load 0 count.toNat))
    (dev.garbage .tmpbuf data.world) data.world hserves
  refine ⟨r.world, ?_, ?_⟩
  · rw [hpost.stored, written_payload]
    rfl
  · have hclient := @pwrite_speaks count offset buf (writeStatus r)
    have hserver : Speaks _ (nfpCppDevHandleCmd dev data) _ _ _ := handleCmd_pwrite_speaks hr
    rw [writeStatus, hpost.status] at hclient hserver
    rw [toInt64_toInt (hcount.trans (by decide))] at hclient
    exact completes_of_speaks hclient hserver

theorem pwrite_succeeds (h : dev.ops.Plain place mem) (hcount : count.toNat < 2 ^ 31)
    (hserves : ServesWrite dev data count offset buf) :
    ∃ world, mem world = directWrite (mem data.world) count offset buf ∧
      Completes (Shim.pwrite buf count offset) (nfpCppDevHandleCmd dev data)
        (succeeded count buf) (0, { data with world := world }) := by
  obtain ⟨world, hmem, hcompletes⟩ := pwrite_completes h (hcount.trans (by decide)) hserves
  rw [if_neg (readFits_of_lt hcount).1] at hcompletes
  exact ⟨world, hmem, hcompletes⟩

/-- A write of `2 ^ 32` bytes or more is never answered. -/
theorem pwrite_never (hcount : 2 ^ 32 ≤ count.toNat)
    (hserves : ServesWrite dev data count offset buf) (a : ShimResult) (b : ℤ × DevData σ α) :
    ¬Completes (Shim.pwrite buf count offset) (nfpCppDevHandleCmd dev data) a b := by
  intro hcompletes
  obtain ⟨i, o, hclient, hserver⟩ := hcompletes.runs
  -- the client has ended, so that it has sent its whole request
  obtain ⟨-, -, hend⟩ := pwrite_asks buf count offset _ _ _ hclient
  obtain ⟨rfl, -⟩ := hend a rfl
  -- and the server that reads it never leaves its loops
  have hanswers : Answers (nfpCppDevHandleCmd dev data) (pwriteRequest count offset buf)
      (fun _ => False) fun _ _ => False := by
    refine .read (length_u64Bytes opPwrite) ?_
    rw [u64OfBytes_u64Bytes, if_neg (by decide), if_pos rfl]
    refine .read (length_u64Bytes count) (.read (length_u64Bytes offset) ?_)
    rw [u64OfBytes_u64Bytes, u64OfBytes_u64Bytes]
    refine .readAll (Mem.length_load buf 0 _) (.loop fun r hr => ?_)
    exact absurd hr (devWrite_diverges hserves hcount r)
  obtain ⟨-, hret⟩ := hanswers _ _ _ hserver (List.prefix_refl _)
  exact (hret b rfl).elim id And.right

/-- A write of `2 ^ 31` bytes or more does not return its count. -/
theorem lt_of_pwrite_succeeds (h : dev.ops.Plain place mem)
    (hserves : ServesWrite dev data count offset buf) {b : ℤ × DevData σ α}
    (hsucceeds : Completes (Shim.pwrite buf count offset) (nfpCppDevHandleCmd dev data)
      (succeeded count buf) b) : count.toNat < 2 ^ 31 := by
  by_contra hge
  rcases lt_or_ge count.toNat (2 ^ 32) with hlt | hlong
  · -- the count is taken for an error
    obtain ⟨world', -, hfails⟩ := pwrite_completes h hlt hserves
    rw [if_pos ((asInt_neg_iff hlt).mpr (not_lt.mp hge))] at hfails
    obtain ⟨hret, -⟩ := hsucceeds.unique hfails
    have hret' : (count.toNat : ℤ) = -1 := congrArg ShimResult.ret hret
    omega
  · exact pwrite_never hlong hserves _ _ hsucceeds

/-- A read does not return another count either. -/
theorem readFits_of_pread_succeeds (h : dev.ops.Plain place mem)
    (hserves : ServesRead dev data count offset) {mem' : Mem} {b : ℤ × DevData σ α}
    (hsucceeds : Completes (Shim.pread buf count offset) (nfpCppDevHandleCmd dev data)
      (succeeded count mem') b) : ReadFits count := by
  have hcount : count.toNat < 2 ^ 63 := by
    obtain ⟨i, o, hclient, -⟩ := hsucceeds.runs
    have hret := hclient.only (pread_only buf count offset)
    simp only [Proc.Only, succeeded] at hret
    exact_mod_cast hret
  exact ⟨fun hneg => pread_never h hcount hneg hserves buf _ _ hsucceeds, hcount⟩

/-- A write that returned its count is read back: the count fits a read too. -/
theorem readBack (h : dev.ops.Plain place mem) (hserves : ServesWrite dev data count offset buf)
    {data' : DevData σ α}
    (hwrite : Completes (Shim.pwrite buf count offset) (nfpCppDevHandleCmd dev data)
      (succeeded count buf) (0, data'))
    (hserves' : ServesRead dev data' count offset) (buf' : Mem) :
    ∃ data'', Completes (Shim.pread buf' count offset) (nfpCppDevHandleCmd dev data')
      (succeeded count (buf'.copy 0 buf 0 count.toNat)) (0, data'') := by
  have hcount := lt_of_pwrite_succeeds h hserves hwrite
  obtain ⟨world, hmem, hcompletes⟩ := pwrite_succeeds h hcount hserves
  -- the exchange has one result, so this is the state the server is in
  obtain ⟨-, hdata⟩ := hwrite.unique hcompletes
  obtain rfl := (Prod.mk.inj hdata).2
  obtain ⟨world', -, hread⟩ := pread_succeeds h (readFits_of_lt hcount) _ hserves' buf'
  dsimp only at hread
  rw [hmem, directRead_directWrite] at hread
  exact ⟨_, hread⟩

/-- **When access through the shim and the server is direct access**, where an access that
succeeds is exactly one to the memory of the device: a read if its count is negative neither as
an `int` nor as a `ssize_t`, and a write if its count is below `2 ^ 31`. Whatever the library, a
server that fails has the call fail with its status. -/
theorem refines_iff (dev : CppDev σ α) (place : α → UInt32 × UInt64) (mem : σ → UInt32 → Mem)
    (h : dev.ops.Plain place mem) (dev' : CppDev σ α) (data : DevData σ α)
    (count offset : UInt64) (buf buf' : Mem) :
    (Refines dev mem data count offset buf buf' ∧ FailsCleanly dev' count offset) ↔
      (ServesRead dev data count offset → ReadFits count) ∧
      (ServesWrite dev data count offset buf → count.toNat < 2 ^ 31) := by
  constructor
  · rintro ⟨hrefines, -⟩
    refine ⟨fun hserves => ?_, fun hserves => ?_⟩
    · obtain ⟨_, -, hread⟩ := hrefines.pread hserves
      exact readFits_of_pread_succeeds h hserves hread
    · obtain ⟨_, -, hwrite⟩ := hrefines.pwrite hserves
      exact lt_of_pwrite_succeeds h hserves hwrite
  · rintro ⟨hread, hwrite⟩
    refine ⟨⟨fun hserves => ?_, fun hserves => ?_, fun hserves data' hcompletes hserves' => ?_⟩,
      failsCleanly dev' count offset⟩
    · exact pread_succeeds h (hread hserves) data hserves buf'
    · exact pwrite_succeeds h (hwrite hserves) hserves
    · exact readBack h hserves hcompletes hserves' buf'

theorem memDev_plain : memDev.ops.Plain id id where
  accesses := memDev_accesses
  write_mem _ _ _ _ _ _ := rfl

/-- No operation of `memOps` fails. -/
theorem memDev_servesWrite (data : DevData (UInt32 → Mem) (UInt32 × UInt64))
    (count offset : UInt64) (buf : Mem) : ServesWrite memDev data count offset buf := by
  intro x _
  unfold iterationOk
  cases x.pc with
  | segment => exact Bool.or_true _
  | chunk area pos =>
    have hok : writeOk memOps area pos (chunkLen x.curlen pos) x = true :=
      decide_eq_true (Int.emod_nonneg _ (by decide))
    simp only [hok, Bool.or_true, memDev]

/-- Four bytes at address eight. -/
theorem refines_iff_four :
    ServesRead memDev ⟨[], fun _ a => a.toUInt8⟩ 4 8 ∧
    ServesWrite memDev ⟨[], fun _ a => a.toUInt8⟩ 4 8 0 ∧
    Refines memDev id ⟨[], fun _ a => a.toUInt8⟩ 4 8 0 0 ∧ FailsCleanly memDev 4 8 := by
  have hfits : ReadFits 4 := readFits_of_lt (by decide)
  refine ⟨?_, memDev_servesWrite _ 4 8 0, ?_⟩
  · exact Loop.forall_visits_of_passes (n := 4) (by decide +kernel)
  · exact (refines_iff memDev id id memDev_plain memDev ⟨[], fun _ a => a.toUInt8⟩ 4 8 0 0).mpr
      ⟨fun _ => hfits, fun _ => by decide⟩

/-- A transfer of two gibibytes. -/
theorem refines_two_gib :
    ¬ ∀ (count offset : UInt64) (buf buf' : Mem),
      Refines memDev id ⟨[], fun _ a => a.toUInt8⟩ count offset buf buf' := by
  intro hall
  have hserves := memDev_servesWrite ⟨[], fun _ a => a.toUInt8⟩ 0x80000000 0 0
  obtain ⟨world, -, hwrite⟩ := (hall 0x80000000 0 0 0).pwrite hserves
  have hlt := lt_of_pwrite_succeeds memDev_plain hserves hwrite
  exact absurd hlt (by decide)

end Succeeds

end NfpUdpEcho
