import NfpUdpEcho.NfpCore.Fields
import NfpUdpEcho.NfpCore.Resource

/-!
# The service processor

`user/nfpcore/nfp_nsp.c`. The NSP is told what to do through registers at the place of its
resource. `nfp_nsp_command` writes a command with its START bit, waits until the bit is 0 again and
then until the BUSY bit of the status is, and reads the result.
-/

namespace NfpUdpEcho

open Access Errno

/-! ### Registers -/

/-- `NSP_STATUS`. -/
def nspStatus : UInt64 := 0x00
def nspStatusMagic : UInt64 := genmaskUll 63 48
def nspStatusMajor : UInt64 := genmaskUll 47 44
def nspStatusMinor : UInt64 := genmaskUll 43 32
def nspStatusResult : UInt64 := genmaskUll 15 8
def nspStatusBusy : UInt64 := 1

/-- `NSP_COMMAND`. -/
def nspCommand : UInt64 := 0x08
def nspCommandOption : UInt64 := genmaskUll 63 32
def nspCommandCode : UInt64 := genmaskUll 31 16
def nspCommandStart : UInt64 := 1

/-- `NSP_BUFFER`. -/
def nspBuffer : UInt64 := 0x10
def nspBufferCpp : UInt64 := genmaskUll 63 40
def nspBufferAddress : UInt64 := genmaskUll 37 0

/-- `NSP_DFLT_BUFFER`. -/
def nspDfltBuffer : UInt64 := 0x18

/-- `NSP_DFLT_BUFFER_CONFIG`. -/
def nspDfltBufferConfig : UInt64 := 0x20
def nspDfltBufferSizeMb : UInt64 := genmaskUll 7 0

/-- `NSP_MAGIC`. -/
def nspMagic : UInt64 := 0xab10

/-- `NSP_MAJOR`. -/
def nspMajor : UInt16 := 0

/-- `NSP_MINOR`. -/
def nspMinor : UInt16 := 8

/-- `enum nfp_nsp_cmd`, those that the library gives. -/
inductive NfpNspCmd where
  | noop | softReset | macInit | fwLoad | ethRescan | ethControl | nspSensors | nspIdentify
deriving DecidableEq

def NfpNspCmd.code : NfpNspCmd → UInt16
  | .noop => 0
  | .softReset => 1
  | .macInit => 4
  | .fwLoad => 6
  | .ethRescan => 7
  | .ethControl => 8
  | .nspSensors => 12
  | .nspIdentify => 13

/-! ### Commands -/

/-- `struct nfp_nsp`, with the version of the NSP. -/
structure NfpNsp where
  res : NfpResource
  major : UInt16
  minor : UInt16

/-- `nfp_nsp_check`. -/
def nfpNspCheck (state : NfpNsp) : CppProg (ℤ × NfpNsp) :=
  .access (.readq state.res.cppId (state.res.addr + nspStatus)) fun
    | .error _ => .ret (-1, state)
    | .ok reg =>
      if fieldGet nspStatusMagic reg ≠ nspMagic then .ret (-ENODEV, state)
      else
        let state := { state with
          major := (fieldGet nspStatusMajor reg).toUInt16
          minor := (fieldGet nspStatusMinor reg).toUInt16 }
        if state.major ≠ nspMajor ∨ state.minor < nspMinor then .ret (-EINVAL, state)
        else if reg &&& nspStatusBusy ≠ 0 then .ret (-EBUSY, state)
        else .ret (0, state)

/-- A round of `nfp_nsp_wait_reg`, with what comes after it. -/
def nspWaitRound (nspCpp : UInt32) (addr mask val : UInt64)
    (next : CppProg (Except ℤ UInt64)) : CppProg (Except ℤ UInt64) :=
  .access (.readq nspCpp addr) fun
    | .error _ => .ret (.error (-1))
    | .ok reg => if reg &&& mask = val then .ret (.ok reg) else next

/-- `nfp_nsp_wait_reg`, with `n` rounds left after the next; its result is the register. -/
def nfpNspWaitReg (nspCpp : UInt32) (addr mask val : UInt64) : ℕ → CppProg (Except ℤ UInt64)
  | 0 => nspWaitRound nspCpp addr mask val (.ret (.error (-ETIMEDOUT)))
  | n + 1 => nspWaitRound nspCpp addr mask val (nfpNspWaitReg nspCpp addr mask val n)

/-- The rounds after the first: it gives up when `count++ > 1000`. -/
def nspWaitRounds : ℕ := 1001

/-- The last part of `nfp_nsp_command`: the result, when the status was `reg` at last. -/
def nspResult (state : NfpNsp) (reg : UInt64) : CppProg ℤ :=
  .access (.readq state.res.cppId (state.res.addr + nspCommand)) fun
    | .error _ => .ret (-1)
    | .ok retVal =>
      let retVal := fieldGet nspCommandOption retVal
      let err := fieldGet nspStatusResult reg
      if err ≠ 0 then .ret (-err.toNat) else .ret retVal.toUInt32.toInt32.toInt

/-- The second part of `nfp_nsp_command`: it waits for the end of the command. -/
def nspAwait (state : NfpNsp) : CppProg ℤ :=
  (nfpNspWaitReg state.res.cppId (state.res.addr + nspCommand) nspCommandStart 0
    nspWaitRounds).bind fun
      | .error err => .ret err
      | .ok _ =>
        (nfpNspWaitReg state.res.cppId (state.res.addr + nspStatus) nspStatusBusy 0
          nspWaitRounds).bind fun
            | .error err => .ret err
            | .ok reg => nspResult state reg

/-- What is written to the register of the buffer. -/
def nspBufferWord (buffCpp : UInt32) (buffAddr : UInt64) : UInt64 :=
  fieldPrep nspBufferCpp (buffCpp >>> 8).toUInt64 ||| fieldPrep nspBufferAddress buffAddr

/-- What is written to the register of the command. -/
def nspCommandWord (code : UInt16) (option : UInt32) : UInt64 :=
  fieldPrep nspCommandOption option.toUInt64 ||| fieldPrep nspCommandCode code.toUInt64 |||
    fieldPrep nspCommandStart 1

/-- `nfp_nsp_command`. -/
def nfpNspCommand (state : NfpNsp) (code : UInt16) (option buffCpp : UInt32)
    (buffAddr : UInt64) : CppProg (ℤ × NfpNsp) :=
  (nfpNspCheck state).bind fun (err, state) =>
    if err ≠ 0 then .ret (err, state)
    else if fieldFit nspBufferCpp (buffCpp >>> 8).toUInt64 = false ∨
        fieldFit nspBufferAddress buffAddr = false then
      .ret (-EINVAL, state)
    else
      .access (.writeq state.res.cppId (state.res.addr + nspBuffer)
          (nspBufferWord buffCpp buffAddr)) fun
        | .error _ => .ret (-1, state)
        | .ok _ =>
          .access (.writeq state.res.cppId (state.res.addr + nspCommand)
              (nspCommandWord code option)) fun
            | .error _ => .ret (-1, state)
            | .ok _ => (nspAwait state).bind fun ret => .ret (ret, state)

/-- `SZ_1M`. -/
def sz1M : UInt64 := 0x00100000

/-- The last part of `nfp_nsp_command_buf`: the command, and its bytes. -/
def nspCommandOut (nsp : NfpNsp) (code : UInt16) (option cppId : UInt32) (cppBuf : UInt64)
    (outSize : ℕ) : CppProg (ℤ × NfpNsp × List UInt8) :=
  (nfpNspCommand nsp code option cppId cppBuf).bind fun (ret, nsp) =>
    if ret < 0 then .ret (ret, nsp, [])
    else if outSize ≠ 0 then
      .access (.read cppId cppBuf outSize) fun
        | .error err => .ret (err, nsp, [])
        | .ok bytes => .ret (ret, nsp, List.ofFn bytes)
    else .ret (ret, nsp, [])

/-- The part before: it zeroes the remaining part of the buffer, behind `inSize` bytes. -/
def nspClearBuf (nsp : NfpNsp) (code : UInt16) (option cppId : UInt32) (cppBuf : UInt64)
    (inSize outSize : ℕ) : CppProg (ℤ × NfpNsp × List UInt8) :=
  if inSize < outSize then
    .access (.write cppId (cppBuf + inSize.toUInt64) (List.replicate (outSize - inSize) 0)) fun
      | .error err => .ret (err, nsp, [])
      | .ok _ => nspCommandOut nsp code option cppId cppBuf outSize
  else nspCommandOut nsp code option cppId cppBuf outSize

/-- `nfp_nsp_command_buf`. There is a buffer in if `inBuf` is not empty, and one out if `outSize`
is not 0; its bytes are the last result, if the command has been carried out. -/
def nfpNspCommandBuf (nsp : NfpNsp) (code : UInt16) (option : UInt32) (inBuf : List UInt8)
    (outSize : ℕ) : CppProg (ℤ × NfpNsp × List UInt8) :=
  if nsp.minor < 13 then .ret (-EOPNOTSUPP, nsp, [])
  else
    .access (.readq nsp.res.cppId (nsp.res.addr + nspDfltBufferConfig)) fun
      | .error _ => .ret (-1, nsp, [])
      | .ok reg =>
        if (fieldGet nspDfltBufferSizeMb reg * sz1M).toNat < max inBuf.length outSize then
          .ret (-EINVAL, nsp, [])
        else
          .access (.readq nsp.res.cppId (nsp.res.addr + nspDfltBuffer)) fun
            | .error _ => .ret (-1, nsp, [])
            | .ok reg =>
              let cppId := (fieldGet nspBufferCpp reg <<< 8).toUInt32
              let cppBuf := fieldGet nspBufferAddress reg
              if inBuf ≠ [] then
                .access (.write cppId cppBuf inBuf) fun
                  | .error err => .ret (err, nsp, [])
                  | .ok _ => nspClearBuf nsp code option cppId cppBuf inBuf.length outSize
              else nspClearBuf nsp code option cppId cppBuf inBuf.length outSize

/-- The loop of `nfp_nsp_wait`, with `n` rounds left after the next. -/
def nspWaitLoop : ℕ → NfpNsp → CppProg (ℤ × NfpNsp)
  | n, state =>
    (nfpNspCommand state NfpNspCmd.noop.code 0 0 0).bind fun (err, state) =>
      if err ≠ -EAGAIN then .ret (err, state)
      else
        match n with
        | 0 => .ret (-ETIMEDOUT, state)
        | n + 1 => nspWaitLoop n state

/-- `nfp_nsp_wait`. -/
def nfpNspWait (state : NfpNsp) : CppProg (ℤ × NfpNsp) := nspWaitLoop nspWaitRounds state

/-- `nfp_nsp_device_soft_reset`. -/
def nfpNspDeviceSoftReset (state : NfpNsp) : CppProg (ℤ × NfpNsp) :=
  nfpNspCommand state NfpNspCmd.softReset.code 0 0 0

/-- `nfp_nsp_mac_reinit`. -/
def nfpNspMacReinit (state : NfpNsp) : CppProg (ℤ × NfpNsp) :=
  nfpNspCommand state NfpNspCmd.macInit.code 0 0 0

/-- `nfp_nsp_load_fw`. -/
def nfpNspLoadFw (state : NfpNsp) (buf : List UInt8) : CppProg (ℤ × NfpNsp × List UInt8) :=
  nfpNspCommandBuf state NfpNspCmd.fwLoad.code buf.length.toUInt32 buf 0

/-- `nfp_nsp_read_eth_table`. -/
def nfpNspReadEthTable (state : NfpNsp) (size : ℕ) : CppProg (ℤ × NfpNsp × List UInt8) :=
  nfpNspCommandBuf state NfpNspCmd.ethRescan.code size.toUInt32 [] size

/-- `nfp_nsp_write_eth_table`. -/
def nfpNspWriteEthTable (state : NfpNsp) (buf : List UInt8) :
    CppProg (ℤ × NfpNsp × List UInt8) :=
  nfpNspCommandBuf state NfpNspCmd.ethControl.code buf.length.toUInt32 buf 0

/-- `nfp_nsp_read_identify`. -/
def nfpNspReadIdentify (state : NfpNsp) (size : ℕ) : CppProg (ℤ × NfpNsp × List UInt8) :=
  nfpNspCommandBuf state NfpNspCmd.nspIdentify.code size.toUInt32 [] size

/-- `nfp_nsp_read_sensors`. -/
def nfpNspReadSensors (state : NfpNsp) (sensorMask : UInt32) (size : ℕ) :
    CppProg (ℤ × NfpNsp × List UInt8) :=
  nfpNspCommandBuf state NfpNspCmd.nspSensors.code sensorMask [] size

/-! ### The lock -/

/-- `NFP_RESOURCE_NSP`. -/
def nfpResourceNsp : List UInt8 := "nfp.sp".toUTF8.toList

/-- `nfp_nsp_close`. -/
def nfpNspClose (state : NfpNsp) (host : NfpCppHost) : CppProg (Outcome Unit) :=
  nfpResourceRelease state.res host

/-- `nfp_nsp_open`. `malloc` is whether there is memory for the resource and for the state. -/
def nfpNspOpen (calloc : ℕ → Bool) (malloc : Bool × Bool) (waits : ℕ) (host : NfpCppHost) :
    CppProg (Outcome (Option NfpNsp)) :=
  (nfpResourceAcquire calloc malloc.1 waits nfpResourceNsp host).andThen fun
    | none, host => .ret (.done none host)
    | some res, host =>
      if malloc.2 then
        (nfpNspCheck ⟨res, 0, 0⟩).bind fun (err, state) =>
          if err ≠ 0 then
            (nfpNspClose state host).andThen fun _ host => .ret (.done none host)
          else .ret (.done (some state) host)
      else (nfpResourceRelease res host).andThen fun _ host => .ret (.done none host)

end NfpUdpEcho
