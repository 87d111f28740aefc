import NfpUdpEcho.Framework.Socket
import NfpUdpEcho.Shim.Interpose

/-!
# The interposed calls and their system calls

The calls of `Shim/Interpose` with what they make of the result of every `write` and `read`. A
result is compared with a size that is unsigned: -1 is converted to the largest size and passes
the test, and what should have been read is then what the variable held before. For the status
that is the word that was sent last.

`preadCalls_whole`, `pwriteCalls_whole` and `ioctlCalls_whole` say that these are the programs of
`Shim/Interpose` when every system call does what it is asked for.
-/

namespace NfpUdpEcho

open Duplex Socket ByteMem LittleEndian

/-- A program of the shim; its operations are the stores of `ioctl` through `argp`. -/
abbrev ShimSock := Sock Empty Empty (List UInt8) ShimResult

namespace Shim

/-- `handle_pread_error`, and the same in the other calls. -/
def errorResult (mem : Option Mem) : ShimResult := ⟨-1, some (.ofInt Errno.EIO), true, mem⟩

/-- The result of a negative status. -/
def failedResult (status : Int32) (mem : Option Mem) : ShimResult :=
  ⟨-1, some (-status), false, mem⟩

/-- `temp = word; ret = write(fd, &temp, sizeof(temp)); if (ret < sizeof(temp)) goto error`. -/
def sendWord (word : UInt64) (mem : Option Mem) (k : ShimSock) : ShimSock :=
  .write (u64Bytes word) fun ret => if isShort ret 8 then .ret (errorResult mem) else k

/-- `ret = read(fd, &temp, sizeof(temp)); if (ret < sizeof(temp)) goto error`, with what `temp`
holds before. -/
def readStatus (temp : UInt64) (mem : Option Mem) (k : UInt64 → ShimSock) : ShimSock :=
  .read 8 fun r =>
    if isShort (r.map List.length) 8 then .ret (errorResult mem)
    else
      match r with
      | none => k temp
      | some bytes => k (u64OfBytes bytes)

/-- `pread`. -/
def preadCalls (buf : Mem) (count offset : UInt64) : ShimSock :=
  sendWord opPread (some buf) <|
  sendWord count (some buf) <|
  sendWord offset (some buf) <|
  readStatus offset (some buf) fun temp =>
  if asInt temp < 0 then .ret (failedResult (asInt temp) (some buf))
  else
    .readAll temp.toNat (fun got => .ret (errorResult (some (buf.store 0 got)))) fun data =>
    .ret ⟨temp.toInt64.toInt, none, false, some (buf.store 0 data)⟩

/-- `pwrite`. -/
def pwriteCalls (buf : Mem) (count offset : UInt64) : ShimSock :=
  sendWord opPwrite (some buf) <|
  sendWord count (some buf) <|
  sendWord offset (some buf) <|
  .writeAll (buf.load 0 count.toNat) (.ret (errorResult (some buf))) <|
  readStatus offset (some buf) fun temp =>
  if asInt temp < 0 then .ret (failedResult (asInt temp) (some buf))
  else .ret ⟨temp.toInt64.toInt, none, false, some buf⟩

/-- `if (arg_size > 0)`. A `write` from a null pointer returns -1. -/
def sendArg (argp : Option Mem) (argSize : ℕ) (k : ShimSock) : ShimSock :=
  match argp with
  | none => k
  | some mem =>
    if argSize > 0 then
      .write (mem.load 0 argSize) fun ret =>
        if isShort ret argSize then .ret (errorResult argp) else k
    else k

/-- `memcpy` to `argp`; a null pointer ends the process. -/
def storeArg (argp : Option Mem) (bytes : List UInt8) (ret : ℤ) : ShimSock :=
  match argp with
  | none => .ret ⟨-1, none, true, none⟩
  | some mem => .perform bytes <| .ret ⟨ret, none, false, some (mem.store 0 bytes)⟩

/-- A reply that is read into a struct on the stack, which is copied to `argp`; `size` says how
many of its bytes. -/
def readStruct (stack : Mem) (argp : Option Mem) (n : ℕ) (size : Mem → ℕ) (ret : ℤ) : ShimSock :=
  .read n fun r =>
    if isShort (r.map List.length) identificationSize then .ret (errorResult argp)
    else
      let struct := stack.store 0 (received r)
      storeArg argp (struct.load 0 (size struct)) ret

/-- The firmware name is read through `argp` itself; to a null pointer `read` returns -1, or 0 at
the end of the stream. -/
def readFirmware (argp : Option Mem) (ret : ℤ) : ShimSock :=
  match argp with
  | none =>
    .read 0 fun r =>
    if isShort (r.map List.length) 4 then .ret (errorResult none)
    else .ret ⟨ret, none, false, none⟩
  | some mem =>
    .read nfpFirmwareMax fun r =>
    .perform (received r) <|
    let mem := mem.store 0 (received r)
    -- `sizeof(NFP_FIRMWARE_MAX)` is that of an `int`
    if isShort (r.map List.length) 4 then .ret (errorResult (some mem))
    else .ret ⟨ret, none, false, some mem⟩

/-- The second `switch`, after the status. -/
def replyCalls (stack : Mem) (request : UInt64) (argp : Option Mem) (temp : UInt64) : ShimSock :=
  let ret := (asInt temp).toInt
  if request = nfpIoctlCppIdentification then
    -- `ident.size` bytes of the struct
    readStruct stack argp identificationSize (fun ident => (u32OfBytes (ident.load 0 4)).toNat) ret
  else if request = nfpIoctlFirmwareLast then readFirmware argp ret
  else if request = nfpIoctlCppAreaRequest then
    readStruct stack argp areaRequestSize (fun _ => areaRequestSize) ret
  else if request = nfpIoctlCppExplRequest then
    readStruct stack argp explicitRequestSize (fun _ => explicitRequestSize) ret
  else .ret ⟨ret, none, false, argp⟩

/-- `ioctl`, with what is on its stack. -/
def ioctlCalls (stack : Mem) (request : UInt64) (argp : Option Mem) : ShimSock :=
  sendWord opIoctl argp <|
  if request = nfpIoctlCppIdentification ∧ argp.isNone then
    .ret ⟨identificationSize, none, false, argp⟩
  else
    match argSize request with
    | none => .ret ⟨-1, some (.ofInt Errno.EINVAL), false, argp⟩
    | some size =>
      sendWord request argp <|
      sendArg argp size <|
      readStatus request argp fun temp =>
      if asInt temp < 0 then .ret (failedResult (asInt temp) argp)
      else replyCalls stack request argp temp

end Shim

/-- A call with its system calls. -/
def ShimCall.calls (stack : Mem) : ShimCall → ShimSock
  | .pread buf count offset => Shim.preadCalls buf count offset
  | .pread64 buf count offset => Shim.preadCalls buf count offset
  | .pwrite buf count offset => Shim.pwriteCalls buf count offset
  | .pwrite64 buf count offset => Shim.pwriteCalls buf count offset
  | .ioctl request argp => Shim.ioctlCalls stack request argp

/-! ### Calls that do what they are asked for -/

section Whole

variable {word temp : UInt64} {mem : Option Mem} {k : ShimSock} {k' : ShimProc}
  {ks : UInt64 → ShimSock} {kp : List UInt8 → ShimProc}

theorem sendWord_whole (h : Whole k k') :
    Whole (Shim.sendWord word mem k) (.write (u64Bytes word) k') := by
  refine .write ?_
  rwa [if_neg (by rw [isShort_some, length_u64Bytes]; decide)]

theorem readStatus_whole
    (h : ∀ bytes, bytes.length = 8 → Whole (ks (u64OfBytes bytes)) (kp bytes)) :
    Whole (Shim.readStatus temp mem ks) (.read 8 kp) := by
  refine .read fun bytes hlen => ?_
  rw [if_neg (by rw [Option.map_some, isShort_some, hlen]; decide)]
  exact h bytes hlen

theorem preadCalls_whole (buf : Mem) (count offset : UInt64) :
    Whole (Shim.preadCalls buf count offset) (Shim.pread buf count offset) := by
  refine sendWord_whole (sendWord_whole (sendWord_whole (readStatus_whole fun bytes hlen => ?_)))
  rw [if_neg (show ¬bytes.length < 8 by omega)]
  dsimp only
  split
  · exact .ret _
  · exact Whole.readRest fun data => .ret _

theorem pwriteCalls_whole (buf : Mem) (count offset : UInt64) :
    Whole (Shim.pwriteCalls buf count offset) (Shim.pwrite buf count offset) := by
  refine sendWord_whole (sendWord_whole (sendWord_whole (.writeAll
    (readStatus_whole fun bytes hlen => ?_))))
  rw [if_neg (show ¬bytes.length < 8 by omega)]
  dsimp only
  split
  · exact .ret _
  · exact .ret _

/-- A struct that comes whole is copied whole. -/
theorem readStruct_whole (stack mem : Mem) {n : ℕ} (hn : identificationSize ≤ n) (ret : ℤ) :
    Whole (Shim.readStruct stack (some mem) n (fun _ => n) ret) (.read n fun struct =>
      if struct.length < identificationSize then Shim.handleError (some mem)
      else Shim.copyArg (some mem) struct ret) := by
  refine .read fun struct hlen => ?_
  rw [Option.map_some, isShort_some, if_neg (by rw [decide_eq_true_eq]; omega), if_neg (by omega)]
  have hload : (stack.store 0 struct).load 0 n = struct := by
    rw [← hlen]
    exact Mem.load_store stack 0 struct
  show Whole (Shim.storeArg _ ((stack.store 0 struct).load 0 n) ret) _
  rw [hload]
  exact .perform (.ret _)

/-- An identification is left out: a `size` of more than the struct has the code copy what lies
behind it. -/
theorem ioctlCalls_whole (stack mem : Mem) {request : UInt64}
    (hident : request ≠ nfpIoctlCppIdentification) :
    Whole (Shim.ioctlCalls stack request (some mem)) (Shim.ioctl request (some mem)) := by
  refine sendWord_whole ?_
  rw [if_neg fun hnull => hident hnull.1, if_neg fun hnull => hident hnull.1]
  cases Shim.argSize request with
  | none => exact .ret _
  | some size =>
    refine sendWord_whole ?_
    have hstatus : Whole
        (Shim.readStatus request (some mem) fun temp =>
          if asInt temp < 0 then .ret (Shim.failedResult (asInt temp) (some mem))
          else Shim.replyCalls stack request (some mem) temp)
        (.read 8 fun bytes =>
          if bytes.length < 8 then Shim.handleError (some mem)
          else
            let temp := u64OfBytes bytes
            if asInt temp < 0 then Shim.failed (asInt temp) (some mem)
            else Shim.readReply request (some mem) temp) := by
      refine readStatus_whole fun bytes hlen => ?_
      rw [if_neg (show ¬bytes.length < 8 by omega)]
      dsimp only
      split
      · exact .ret _
      · simp only [Shim.replyCalls, Shim.readReply, if_neg hident]
        split
        · -- the name goes to `argp` at once
          refine .read fun firmware hlen => .perform ?_
          rw [Option.map_some, isShort_some, hlen, if_neg (by decide), if_neg (by decide)]
          exact .ret _
        · split
          · exact readStruct_whole stack mem (by decide) _
          · split
            · exact readStruct_whole stack mem (by decide) _
            · exact .ret _
    simp only [Shim.sendArg, Shim.writeArg]
    split
    · refine .write ?_
      rw [Mem.length_load, isShort_some, if_neg (by rw [decide_eq_true_eq]; omega)]
      exact hstatus
    · exact hstatus

end Whole

end NfpUdpEcho
