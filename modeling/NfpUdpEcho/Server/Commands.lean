import NfpUdpEcho.Framework.Duplex
import NfpUdpEcho.Server.AreaTable
import NfpUdpEcho.Server.Transfer
import NfpUdpEcho.Shim.Wire

/-!
# The commands of the device server

`nfp_cpp_dev_handle_cmd` (`user/nfpcore/nfp_cpp_dev.c`) reads one request from a connection and
carries it out, with the functions of `nfp_cpp_dev_ops.c`. They are programs over the stream
to the client, generic in the CPP library, whose operations may succeed or fail in any
pattern.

A function returns a negative value to have the connection closed.
-/

namespace NfpUdpEcho

open Duplex ByteMem LittleEndian

/-- The variables and buffers that the commands do not initialise. -/
inductive Local where
  | tmp | ident | areaReq | explicitReq | buf | tmpbuf

/-- What the commands use of the library and the machine. -/
structure CppDev (σ α : Type) where
  ops : CppOps σ α
  /-- `nfp_cpp_model`, which may have to ask the device. -/
  model : σ → UInt32 × σ
  interface : UInt32
  serial : ℕ → UInt8
  /-- Whether there is memory for the entry of an area. -/
  malloc : σ → Bool
  /-- What is in memory that nobody has written yet. -/
  garbage : Local → σ → Mem
  /-- `nfp_cpp_area_read` returns an `int`. -/
  read_int : ∀ area offset mem len s, IsInt (ops.areaRead area offset mem len s).1

/-- What the commands read and write of `struct nfp_cpp_dev_data`, and the library. -/
structure DevData (σ α : Type) where
  list : List (NfpDevCppArea α)
  world : σ

/-- A program of the server: what it returns, and the data it leaves. -/
abbrev DevProc (σ α : Type) := Proc (Transfer σ α) (TransferResult σ) (ℤ × DevData σ α)

variable {σ α : Type} (dev : CppDev σ α) (data : DevData σ α)

/-! ### `ioctl` -/

/-- `do_cpp_identification`. -/
def doCppIdentification (ident : NfpCppIdentification) (s : σ) : NfpCppIdentification × σ :=
  let total : UInt32 := 4
  let (ident, total, s) :=
    if ident.size ≥ 8 then
      let (model, s) := dev.model s
      ({ ident with model := model }, 8, s)
    else (ident, total, s)
  let (ident, total) :=
    if ident.size ≥ 12 then ({ ident with interface := dev.interface }, 12) else (ident, total)
  let (ident, total) :=
    if ident.size ≥ 20 then
      ({ ident with
        serialHi := ((dev.serial 0).toUInt32 <<< 8) ||| (dev.serial 1).toUInt32
        serialLo := ((dev.serial 2).toUInt32 <<< 24) ||| ((dev.serial 3).toUInt32 <<< 16) |||
          ((dev.serial 4).toUInt32 <<< 8) ||| (dev.serial 5).toUInt32 }, 20)
    else (ident, total)
  -- modify size to our actual size
  ({ ident with size := total }, s)

/-- A struct that nobody has written, but for its `size`. -/
def identGarbage (mem : Mem) (size : UInt32) : NfpCppIdentification where
  size := size
  model := u32OfBytes (mem.load 4 4)
  interface := u32OfBytes (mem.load 8 4)
  serialLo := u32OfBytes (mem.load 12 4)
  serialHi := u32OfBytes (mem.load 16 4)

/-- `ioctl_cpp_identification`. -/
def ioctlCppIdentification : DevProc σ α :=
  .read 4 fun bytes =>
  if bytes.length < 4 then .ret (-1, data)
  else
    let ident := identGarbage (dev.garbage .ident data.world) (u32OfBytes bytes)
    let (ident, world) := doCppIdentification dev ident data.world
    .write (u64Bytes identificationSize.toUInt64) <|
    .write ident.bytes <|
    .ret (0, { data with world := world })

/-- `ioctl_area_request`. -/
def ioctlAreaRequest : DevProc σ α :=
  .read areaRequestSize fun bytes =>
  if bytes.length < areaRequestSize then .ret (-1, data)
  else
    let alloc := fun (areaReq : AreaRequest) =>
      dev.ops.areaAlloc areaReq.cppId areaReq.cppAddr areaReq.size
    let (err, areaReq, list, world) := doCppAreaRequest (dev.malloc data.world) alloc
      dev.interface.toUInt16 (.ofBytes bytes) data.list data.world
    .write (u64Bytes (statusWord err)) <|
    -- the request goes back even when it is refused
    .write (setOffset bytes areaReq.offset) <|
    .ret (0, ⟨list, world⟩)

/-- `ioctl_area_release`. -/
def ioctlAreaRelease : DevProc σ α :=
  .read areaRequestSize fun bytes =>
  if bytes.length < areaRequestSize then .ret (-1, data)
  else
    let (err, list, world) :=
      doCppAreaRelease dev.ops.areaFree (.ofBytes bytes) data.list data.world
    .write (u64Bytes (statusWord err)) <|
    .ret (0, ⟨list, world⟩)

/-- `do_cpp_expl_request`. -/
def doCppExplRequest (_explicitReq : List UInt8) : ℤ := -Errno.EINVAL

/-- `ioctl_expl_request`. -/
def ioctlExplRequest : DevProc σ α :=
  .read explicitRequestSize fun bytes =>
  if bytes.length < explicitRequestSize then .ret (-1, data)
  else
    .write (u64Bytes (statusWord (doCppExplRequest bytes))) <|
    .write bytes <|
    .ret (0, data)

/-- `nfp_cpp_dev_ioctl`. -/
def nfpCppDevIoctl (request : UInt64) : DevProc σ α :=
  if request = nfpIoctlCppIdentification then ioctlCppIdentification dev data
  else if request = nfpIoctlCppAreaRequest then ioctlAreaRequest dev data
  else if request = nfpIoctlCppAreaRelease then ioctlAreaRelease dev data
  else if request = nfpIoctlCppExplRequest then ioctlExplRequest data
  else .ret (-1, data)

/-! ### Transfers -/

/-- `nfp_cpp_dev_read`. -/
def nfpCppDevRead (count offset : UInt64) : DevProc σ α :=
  let buf := dev.garbage .buf data.world
  let tmpbuf := dev.garbage .tmpbuf data.world
  .loop (devRead dev.ops offset) (readEntry count offset buf tmpbuf data.world) fun r =>
  match r.status with
  | .ok totlen =>
    .write (u64Bytes totlen) <|
    .writeAll (r.buf.load 0 totlen.toNat) <|
    .ret (0, { data with world := r.world })
  | .error err =>
    .write (u64Bytes (statusWord err)) <|
    .ret (0, { data with world := r.world })

/-- `nfp_cpp_dev_write`. -/
def nfpCppDevWrite (count offset : UInt64) : DevProc σ α :=
  .readAll count.toNat fun bytes =>
  let buf := (dev.garbage .buf data.world).store 0 bytes
  let tmpbuf := dev.garbage .tmpbuf data.world
  -- `err` is assigned again before it is looked at
  let entry := writeEntry count offset 0 buf tmpbuf data.world
  .loop (devWrite dev.ops offset) entry fun r =>
  match r.status with
  | .ok totlen =>
    .write (u64Bytes totlen) <|
    .ret (0, { data with world := r.world })
  | .error err =>
    .write (u64Bytes (statusWord err)) <|
    .ret (0, { data with world := r.world })

/-- `nfp_cpp_dev_handle_cmd`. -/
def nfpCppDevHandleCmd : DevProc σ α :=
  .read 8 fun tmp =>
  if u64OfBytes tmp = opPread then
    .read 8 fun count =>
    .read 8 fun offset =>
    nfpCppDevRead dev data (u64OfBytes count) (u64OfBytes offset)
  else if u64OfBytes tmp = opPwrite then
    .read 8 fun count =>
    .read 8 fun offset =>
    nfpCppDevWrite dev data (u64OfBytes count) (u64OfBytes offset)
  else if u64OfBytes tmp = opIoctl then
    .read 8 fun request =>
    nfpCppDevIoctl dev data (u64OfBytes request)
  else .ret (-1, data)

end NfpUdpEcho
