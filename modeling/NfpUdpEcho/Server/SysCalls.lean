import NfpUdpEcho.Framework.Socket
import NfpUdpEcho.Server.Commands

/-!
# The commands of the server and their system calls

The commands of `Server/Commands` with what they make of the result of every `read` and `write`.
The words of a header are read into one variable, `tmp`, and only a negative result is looked
at: of a word that comes short, or not at all, the rest is what `tmp` held before. The argument
of an `ioctl` is compared with its size, which is unsigned, so that -1 passes. Payloads are
looped over.

`nfpCppDevHandleCmdCalls_whole` says that these are the programs of `Server/Commands` when every
call does what it is asked for.

The two readings of a command are kept apart on purpose. Results about what goes wrong on a
connection are stated of the programs here, where a call may move less than it was asked for or
fail; results about what a whole exchange comes to are stated of those of `Server/Commands`, and
hold of these as long as no call comes short.
-/

namespace NfpUdpEcho

open Duplex Socket ByteMem LittleEndian

/-- What the server carries out. -/
inductive Request where
  | pread (count offset : UInt64)
  | pwrite (count offset : UInt64) (payload : List UInt8)
  | ioctl (request : UInt64) (arg : List UInt8)
deriving DecidableEq

/-- A program of the server with its system calls; it performs the requests it has read. -/
abbrev ServerSock (σ α : Type) :=
  Sock (Transfer σ α) (TransferResult σ) Request (ℤ × DevData σ α)

variable {σ α : Type} (dev : CppDev σ α) (data : DevData σ α)

/-! ### Calls that recur -/

section Calls

variable {data}

/-- A variable after some bytes were read to its start. -/
def overwrite (tmp bytes : List UInt8) : List UInt8 := bytes ++ tmp.drop bytes.length

/-- `ret = read(fd, &tmp, sizeof(tmp)); if (ret < 0) return ret`. -/
def readWord (tmp : List UInt8) (data : DevData σ α) (k : List UInt8 → ServerSock σ α) :
    ServerSock σ α :=
  .read 8 fun r =>
  match r with
  | none => .ret (-1, data)
  | some bytes => k (overwrite tmp bytes)

/-- `err = read(fd, &req, sizeof(req)); if (err < sizeof(req)) return -1`, with what is in memory
before. -/
def readArg (garbage : Mem) (size : ℕ) (data : DevData σ α) (k : List UInt8 → ServerSock σ α) :
    ServerSock σ α :=
  .read size fun r =>
  if isShort (r.map List.length) size then .ret (-1, data)
  else k ((garbage.store 0 (received r)).load 0 size)

/-- `err = write(fd, &word, sizeof(word)); if (err < sizeof(word)) return -1`. -/
def sendReply (bytes : List UInt8) (data : DevData σ α) (k : ServerSock σ α) : ServerSock σ α :=
  .write bytes fun r => if isShort r bytes.length then .ret (-1, data) else k

/-- After `handle_read_error` and `handle_write_error` only a negative result is looked at. -/
def sendError (err : ℤ) (data : DevData σ α) : ServerSock σ α :=
  .write (u64Bytes (statusWord err)) fun r =>
  match r with
  | none => .ret (-1, data)
  | some _ => .ret (0, data)

end Calls

/-! ### The commands -/

/-- `ioctl_cpp_identification`. -/
def ioctlCppIdentificationCalls : ServerSock σ α :=
  let garbage := dev.garbage .ident data.world
  readArg garbage 4 data fun arg =>
  .perform (.ioctl nfpIoctlCppIdentification arg) <|
  let (ident, world) := doCppIdentification dev (identGarbage garbage (u32OfBytes arg)) data.world
  let data := { data with world := world }
  sendReply (u64Bytes identificationSize.toUInt64) data <|
  sendReply ident.bytes data <|
  .ret (0, data)

/-- `ioctl_area_request`. -/
def ioctlAreaRequestCalls : ServerSock σ α :=
  readArg (dev.garbage .areaReq data.world) areaRequestSize data fun arg =>
  .perform (.ioctl nfpIoctlCppAreaRequest arg) <|
  let alloc := fun (areaReq : AreaRequest) =>
    dev.ops.areaAlloc areaReq.cppId areaReq.cppAddr areaReq.size
  let (err, areaReq, list, world) := doCppAreaRequest (dev.malloc data.world) alloc
    dev.interface.toUInt16 (.ofBytes arg) data.list data.world
  sendReply (u64Bytes (statusWord err)) ⟨list, world⟩ <|
  sendReply (setOffset arg areaReq.offset) ⟨list, world⟩ <|
  .ret (0, ⟨list, world⟩)

/-- `ioctl_area_release`. -/
def ioctlAreaReleaseCalls : ServerSock σ α :=
  readArg (dev.garbage .areaReq data.world) areaRequestSize data fun arg =>
  .perform (.ioctl nfpIoctlCppAreaRelease arg) <|
  let (err, list, world) :=
    doCppAreaRelease dev.ops.areaFree (.ofBytes arg) data.list data.world
  sendReply (u64Bytes (statusWord err)) ⟨list, world⟩ <|
  .ret (0, ⟨list, world⟩)

/-- `ioctl_expl_request`. -/
def ioctlExplRequestCalls : ServerSock σ α :=
  readArg (dev.garbage .explicitReq data.world) explicitRequestSize data fun arg =>
  .perform (.ioctl nfpIoctlCppExplRequest arg) <|
  sendReply (u64Bytes (statusWord (doCppExplRequest arg))) data <|
  sendReply arg data <|
  .ret (0, data)

/-- `nfp_cpp_dev_ioctl`. -/
def nfpCppDevIoctlCalls (request : UInt64) : ServerSock σ α :=
  if request = nfpIoctlCppIdentification then ioctlCppIdentificationCalls dev data
  else if request = nfpIoctlCppAreaRequest then ioctlAreaRequestCalls dev data
  else if request = nfpIoctlCppAreaRelease then ioctlAreaReleaseCalls dev data
  else if request = nfpIoctlCppExplRequest then ioctlExplRequestCalls dev data
  else .ret (-1, data)

/-- The size of the argument, of the requests that `nfp_cpp_dev_ioctl` knows. -/
def ioctlArgSize (request : UInt64) : Option ℕ :=
  if request = nfpIoctlCppIdentification then some 4
  else if request = nfpIoctlCppAreaRequest then some areaRequestSize
  else if request = nfpIoctlCppAreaRelease then some areaRequestSize
  else if request = nfpIoctlCppExplRequest then some explicitRequestSize
  else none

/-- Every known `ioctl` has an argument. -/
theorem ioctlArgSize_pos {request : UInt64} {size : ℕ} (h : ioctlArgSize request = some size) :
    0 < size := by
  unfold ioctlArgSize at h
  split_ifs at h
  all_goals
    obtain rfl := Option.some.inj h
    decide

/-- A reply of an `ioctl`: every call of it is checked, and then the command is content. -/
inductive IsReply : ServerSock σ α → Prop where
  | done (data : DevData σ α) : IsReply (.ret (0, data))
  | send {bytes : List UInt8} {data : DevData σ α} {k : ServerSock σ α} :
      IsReply k → IsReply (sendReply bytes data k)

/-- An `ioctl` that is known reads its argument, carries it out and replies. -/
theorem nfpCppDevIoctlCalls_cases (request : UInt64) :
    (ioctlArgSize request = none ∧ nfpCppDevIoctlCalls dev data request = .ret (-1, data)) ∨
    ∃ (arg : Local) (size : ℕ) (reply : List UInt8 → ServerSock σ α),
      ioctlArgSize request = some size ∧ (∀ bytes, IsReply (reply bytes)) ∧
      nfpCppDevIoctlCalls dev data request =
        readArg (dev.garbage arg data.world) size data fun bytes =>
          .perform (.ioctl request bytes) (reply bytes) := by
  unfold nfpCppDevIoctlCalls ioctlArgSize
  split
  next hident =>
    subst hident
    unfold ioctlCppIdentificationCalls
    -- the reply depends on the device, but its shape does not
    refine .inr ⟨.ident, 4, _, rfl, fun bytes => ?_, rfl⟩
    generalize doCppIdentification dev _ data.world = outcome
    exact .send (.send (.done _))
  split
  next harea =>
    subst harea
    refine .inr ⟨.areaReq, areaRequestSize, _, rfl, fun bytes => ?_, rfl⟩
    exact .send (.send (.done _))
  split
  next hrelease =>
    subst hrelease
    refine .inr ⟨.areaReq, areaRequestSize, _, rfl, fun bytes => ?_, rfl⟩
    exact .send (.done _)
  split
  next hexpl =>
    subst hexpl
    refine .inr ⟨.explicitReq, explicitRequestSize, _, rfl, fun bytes => ?_, rfl⟩
    exact .send (.send (.done _))
  next => exact .inl ⟨rfl, rfl⟩

/-- `nfp_cpp_dev_read`. -/
def nfpCppDevReadCalls (count offset : UInt64) : ServerSock σ α :=
  let buf := dev.garbage .buf data.world
  let tmpbuf := dev.garbage .tmpbuf data.world
  .perform (.pread count offset) <|
  .loop (devRead dev.ops offset) (readEntry count offset buf tmpbuf data.world) fun r =>
  let data := { data with world := r.world }
  match r.status with
  | .ok totlen =>
    sendReply (u64Bytes totlen) data <|
    .writeAll (r.buf.load 0 totlen.toNat) (.ret (-1, data)) <|
    .ret (0, data)
  | .error err => sendError err data

/-- `nfp_cpp_dev_write`. -/
def nfpCppDevWriteCalls (count offset : UInt64) : ServerSock σ α :=
  .readAll count.toNat (fun _ => .ret (-1, data)) fun bytes =>
  let buf := (dev.garbage .buf data.world).store 0 bytes
  let tmpbuf := dev.garbage .tmpbuf data.world
  .perform (.pwrite count offset bytes) <|
  .loop (devWrite dev.ops offset) (writeEntry count offset 0 buf tmpbuf data.world) fun r =>
  let data := { data with world := r.world }
  match r.status with
  | .ok totlen =>
    sendReply (u64Bytes totlen) data <|
    .ret (0, data)
  | .error err => sendError err data

/-- `nfp_cpp_dev_handle_cmd`. -/
def nfpCppDevHandleCmdCalls : ServerSock σ α :=
  -- nobody has written `tmp` yet
  readWord ((dev.garbage .tmp data.world).load 0 8) data fun tmp =>
  if u64OfBytes tmp = opPread then
    readWord tmp data fun count =>
    readWord count data fun offset =>
    nfpCppDevReadCalls dev data (u64OfBytes count) (u64OfBytes offset)
  else if u64OfBytes tmp = opPwrite then
    readWord tmp data fun count =>
    readWord count data fun offset =>
    nfpCppDevWriteCalls dev data (u64OfBytes count) (u64OfBytes offset)
  else if u64OfBytes tmp = opIoctl then
    readWord tmp data fun request =>
    nfpCppDevIoctlCalls dev data (u64OfBytes request)
  else .ret (-1, data)

/-! ### Calls that do what they are asked for

Each function of `Server/Commands` is the one here with whole calls, by the structure of the two. -/

section Whole

variable {data} {tmp bytes : List UInt8} {k : ServerSock σ α} {k' : DevProc σ α}
  {ks : List UInt8 → ServerSock σ α} {kp : List UInt8 → DevProc σ α}

/-- A word that comes whole leaves nothing of what was there. -/
theorem overwrite_whole (htmp : tmp.length = 8) (hlen : bytes.length = 8) :
    overwrite tmp bytes = bytes := by
  rw [overwrite, List.drop_of_length_le (htmp.trans hlen.symm).le, List.append_nil]

/-- `tmp` keeps its size. -/
theorem length_overwrite (htmp : tmp.length = 8) (hle : bytes.length ≤ 8) :
    (overwrite tmp bytes).length = 8 := by
  rw [overwrite, List.length_append, List.length_drop]
  omega

/-- A whole word is the word. -/
theorem readWord_whole (htmp : tmp.length = 8)
    (h : ∀ bytes, bytes.length = 8 → Whole (ks bytes) (kp bytes)) :
    Whole (readWord tmp data ks) (.read 8 kp) := by
  refine .read fun bytes hlen => ?_
  show Whole (ks (overwrite tmp bytes)) (kp bytes)
  rw [overwrite_whole htmp hlen]
  exact h bytes hlen

/-- A whole argument passes the comparison with its size. -/
theorem readArg_whole {garbage : Mem} {size : ℕ}
    (h : ∀ bytes, bytes.length = size → Whole (ks bytes) (kp bytes)) :
    Whole (readArg garbage size data ks) (.read size fun bytes =>
      if bytes.length < size then .ret (-1, data) else kp bytes) := by
  refine .read fun bytes hlen => ?_
  -- an argument that comes whole leaves nothing of what was there
  have hload : (garbage.store 0 bytes).load 0 size = bytes := by
    rw [← hlen]
    exact Mem.load_store garbage 0 bytes
  rw [if_neg (by rw [Option.map_some, isShort_some, decide_eq_true_eq]; omega), if_neg (by omega)]
  show Whole (ks ((garbage.store 0 bytes).load 0 size)) (kp bytes)
  rw [hload]
  exact h bytes hlen

/-- A whole reply goes on. -/
theorem sendReply_whole (h : Whole k k') : Whole (sendReply bytes data k) (.write bytes k') := by
  refine .write ?_
  rwa [if_neg (by rw [isShort_some, decide_eq_true_eq]; omega)]

/-- An error status is one `write`. -/
theorem sendError_whole (err : ℤ) :
    Whole (sendError err data) (.write (u64Bytes (statusWord err)) (.ret (0, data))) :=
  .write (.ret _)

/-- The four numbers, and any other. -/
theorem nfpCppDevIoctlCalls_whole (request : UInt64) :
    Whole (nfpCppDevIoctlCalls dev data request) (nfpCppDevIoctl dev data request) := by
  unfold nfpCppDevIoctlCalls nfpCppDevIoctl
  split
  · unfold ioctlCppIdentificationCalls ioctlCppIdentification
    refine readArg_whole fun arg _ => .perform ?_
    dsimp only
    generalize doCppIdentification dev _ data.world = outcome
    exact sendReply_whole (sendReply_whole (.ret _))
  split
  · unfold ioctlAreaRequestCalls ioctlAreaRequest
    refine readArg_whole fun arg _ => .perform ?_
    generalize doCppAreaRequest _ _ _ _ _ data.world = outcome
    exact sendReply_whole (sendReply_whole (.ret _))
  split
  · unfold ioctlAreaReleaseCalls ioctlAreaRelease
    refine readArg_whole fun arg _ => .perform ?_
    generalize doCppAreaRelease _ _ _ data.world = outcome
    exact sendReply_whole (.ret _)
  split
  · unfold ioctlExplRequestCalls ioctlExplRequest
    exact readArg_whole fun arg _ => .perform (sendReply_whole (sendReply_whole (.ret _)))
  · exact .ret _

/-- A `pread`, with its reply or its error. -/
theorem nfpCppDevReadCalls_whole (count offset : UInt64) :
    Whole (nfpCppDevReadCalls dev data count offset) (nfpCppDevRead dev data count offset) := by
  refine .perform (.loop fun r => ?_)
  cases r.status with
  | ok totlen => exact sendReply_whole (Whole.writeAll (.ret _))
  | error err => exact sendError_whole err

/-- A `pwrite`, with the loop over its payload. -/
theorem nfpCppDevWriteCalls_whole (count offset : UInt64) :
    Whole (nfpCppDevWriteCalls dev data count offset) (nfpCppDevWrite dev data count offset) := by
  refine Whole.readRest fun bytes => .perform (.loop fun r => ?_)
  cases r.status with
  | ok totlen => exact sendReply_whole (.ret _)
  | error err => exact sendError_whole err

/-- A command as a whole. -/
theorem nfpCppDevHandleCmdCalls_whole :
    Whole (nfpCppDevHandleCmdCalls dev data) (nfpCppDevHandleCmd dev data) := by
  refine readWord_whole (Mem.length_load _ 0 8) fun tmp htmp => ?_
  split
  · refine readWord_whole htmp fun count hcount => readWord_whole hcount fun offset _ => ?_
    exact nfpCppDevReadCalls_whole dev _ _
  split
  · refine readWord_whole htmp fun count hcount => readWord_whole hcount fun offset _ => ?_
    exact nfpCppDevWriteCalls_whole dev _ _
  split
  · exact readWord_whole htmp fun request _ => nfpCppDevIoctlCalls_whole dev _
  · exact .ret _

end Whole

end NfpUdpEcho
