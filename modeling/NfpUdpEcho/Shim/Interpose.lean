import NfpUdpEcho.Errno
import NfpUdpEcho.Framework.Duplex
import NfpUdpEcho.Shim.Wire

/-!
# The interposed calls

`shim/interpose.c` replaces `pread`, `pwrite` and `ioctl` on a descriptor that is connected to
the device server. Each is a program that sends the operation with its arguments and reads the
reply.

A `write` of a header or a struct is never cut short, so the tests after one are not taken, and
a `read` returns fewer bytes than it was asked for only when the server has closed the
connection.
-/

namespace NfpUdpEcho

open Duplex ByteMem LittleEndian

/-- What a call returns: `errno` if it sets it, whether it has closed the descriptor, and the
caller's memory, `none` for a null pointer. -/
structure ShimResult where
  ret : ℤ
  errno : Option Int32
  closed : Bool
  mem : Option Mem

/-- A program of the shim. It has no loops beside those that move a payload. -/
abbrev ShimProc := Proc Empty Empty ShimResult

namespace Shim

/-- `handle_pread_error`, and the same in the other calls. -/
def handleError (mem : Option Mem) : ShimProc :=
  .ret ⟨-1, some (.ofInt Errno.EIO), true, mem⟩

/-- A negative status: `errno = -ret`, which is cut to an `int` again, so that the least one is
stored as it is. -/
def failed (status : Int32) (mem : Option Mem) : ShimProc := .ret ⟨-1, some (-status), false, mem⟩

/-! ### Transfers -/

/-- `pread`. -/
def pread (buf : Mem) (count offset : UInt64) : ShimProc :=
  .write (u64Bytes opPread) <|
  .write (u64Bytes count) <|
  .write (u64Bytes offset) <|
  .read 8 fun bytes =>
    if bytes.length < 8 then handleError (some buf)
    else
      let temp := u64OfBytes bytes
      if asInt temp < 0 then failed (asInt temp) (some buf)
      else
        .readAll temp.toNat fun data =>
        .ret ⟨temp.toInt64.toInt, none, false, some (buf.store 0 data)⟩

/-- `pread64`. -/
def pread64 (buf : Mem) (count offset : UInt64) : ShimProc := pread buf count offset

/-- `pwrite`. -/
def pwrite (buf : Mem) (count offset : UInt64) : ShimProc :=
  .write (u64Bytes opPwrite) <|
  .write (u64Bytes count) <|
  .write (u64Bytes offset) <|
  .writeAll (buf.load 0 count.toNat) <|
  .read 8 fun bytes =>
    if bytes.length < 8 then handleError (some buf)
    else
      let temp := u64OfBytes bytes
      if asInt temp < 0 then failed (asInt temp) (some buf)
      else .ret ⟨temp.toInt64.toInt, none, false, some buf⟩

/-- `pwrite64`. -/
def pwrite64 (buf : Mem) (count offset : UInt64) : ShimProc := pwrite buf count offset

/-! ### `ioctl` -/

/-- The first `switch` of `ioctl`: `arg_size`, `none` for a request it does not know. -/
def argSize (request : UInt64) : Option ℕ :=
  if request = nfpIoctlCppIdentification then some 4
  else if request = nfpIoctlFirmwareLoad then some nfpFirmwareMax
  else if request = nfpIoctlFirmwareLast then some 0
  else if request = nfpIoctlCppAreaRequest then some areaRequestSize
  else if request = nfpIoctlCppAreaRelease then some areaRequestSize
  else if request = nfpIoctlCppAreaReleaseObsolete then some 8
  else if request = nfpIoctlCppExplRequest then some explicitRequestSize
  else if request = nfpIoctlCppEventAcquire then some eventRequestSize
  else if request = nfpIoctlCppEventRelease then some eventRequestSize
  else none

/-- `if (arg_size > 0)`. From a null pointer `write` sends nothing and returns -1, which
compared with the unsigned `arg_size` is not less. -/
def writeArg (argp : Option Mem) (argSize : ℕ) (k : ShimProc) : ShimProc :=
  match argp with
  | some mem => if argSize > 0 then .write (mem.load 0 argSize) k else k
  | none => k

/-- `memcpy` to `argp`; a null pointer ends the process, and with it the connection. -/
def copyArg (argp : Option Mem) (bytes : List UInt8) (ret : ℤ) : ShimProc :=
  match argp with
  | some mem => .ret ⟨ret, none, false, some (mem.store 0 bytes)⟩
  | none => .ret ⟨-1, none, true, none⟩

/-- The second `switch`, after the status. -/
def readReply (request : UInt64) (argp : Option Mem) (temp : UInt64) : ShimProc :=
  let ret := (asInt temp).toInt
  if request = nfpIoctlCppIdentification then
    .read identificationSize fun ident =>
    if ident.length < identificationSize then handleError argp
    -- `ident.size` bytes of the struct
    else copyArg argp (ident.take (u32OfBytes (ident.take 4)).toNat) ret
  else if request = nfpIoctlFirmwareLast then
    .read nfpFirmwareMax fun firmware =>
    -- `sizeof(NFP_FIRMWARE_MAX)` is that of an `int`
    if firmware.length < 4 then handleError argp else copyArg argp firmware ret
  else if request = nfpIoctlCppAreaRequest then
    .read areaRequestSize fun areaReq =>
    if areaReq.length < identificationSize then handleError argp else copyArg argp areaReq ret
  else if request = nfpIoctlCppExplRequest then
    .read explicitRequestSize fun explicitReq =>
    if explicitReq.length < identificationSize then handleError argp
    else copyArg argp explicitReq ret
  else .ret ⟨ret, none, false, argp⟩

/-- `ioctl`. -/
def ioctl (request : UInt64) (argp : Option Mem) : ShimProc :=
  .write (u64Bytes opIoctl) <|
  if request = nfpIoctlCppIdentification ∧ argp.isNone then
    .ret ⟨identificationSize, none, false, argp⟩
  else
    match argSize request with
    | none => .ret ⟨-1, some (.ofInt Errno.EINVAL), false, argp⟩
    | some size =>
      .write (u64Bytes request) <|
      writeArg argp size <|
      .read 8 fun bytes =>
        if bytes.length < 8 then handleError argp
        else
          let temp := u64OfBytes bytes
          if asInt temp < 0 then failed (asInt temp) argp else readReply request argp temp

end Shim

/-- A call on the descriptor, with the memory its pointer leads to. -/
inductive ShimCall where
  | pread (buf : Mem) (count offset : UInt64)
  | pread64 (buf : Mem) (count offset : UInt64)
  | pwrite (buf : Mem) (count offset : UInt64)
  | pwrite64 (buf : Mem) (count offset : UInt64)
  | ioctl (request : UInt64) (argp : Option Mem)

def ShimCall.proc : ShimCall → ShimProc
  | .pread buf count offset => Shim.pread buf count offset
  | .pread64 buf count offset => Shim.pread64 buf count offset
  | .pwrite buf count offset => Shim.pwrite buf count offset
  | .pwrite64 buf count offset => Shim.pwrite64 buf count offset
  | .ioctl request argp => Shim.ioctl request argp

end NfpUdpEcho
