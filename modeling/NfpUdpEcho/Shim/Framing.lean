import NfpUdpEcho.Framework.Service
import NfpUdpEcho.Server.Commands
import NfpUdpEcho.Shim.Interpose

/-!
# Framing

The shim and the server agree on the length of a request by its operation and code, and on the
length of a reply by its first word: after a negative one the shim reads nothing more. Each
call is an instance of `Duplex.Answers.settles`, with `more` the number of bytes that follow
the first word of its reply.

Five calls leave bytes behind, and `InStep` excludes them: an identification without an
argument and a request the shim does not know end after the operation is sent; an area request
that is refused and every explicit request have a struct sent after a negative status; and the
count of a successful read may be negative as an `int`.

For each call there are two specs. `Asks` is about the shim alone: the request it writes, and that
it takes a reply of the length which the first word calls for. `Answers` is about the server alone:
given that request it sends such a reply, or it closes the connection. Both are put together from
the rules for `write`, `read` and the loops in the order of the code, and `settles_of_more` joins
them. Where the two sides disagree on a length there is no common `more`, which is why the five
calls are left out.

For a read the length is that of the status. So the server's loops need an invariant as well
(`ReadInv`): what is done and what is left are the count, in arithmetic that may wrap.
-/

namespace NfpUdpEcho

open Duplex LTS ByteMem LittleEndian

/-! ### Replies -/

/-- A first word, and as many bytes as it calls for. -/
def TakesReply (more : UInt64 → ℕ) (i : List UInt8) : Prop :=
  ∃ head data, head.length = 8 ∧ i = head ++ data ∧ data.length = more (u64OfBytes head)

section Replies

variable {σ α : Type}

/-- How the server goes on after a command. -/
def nextData (b : ℤ × DevData σ α) : Option (DevData σ α) := if b.1 < 0 then none else some b.2

/-- A first word, as many bytes as it calls for, and the connection stays open. -/
def SendsReply (more : UInt64 → ℕ) (out : List UInt8) (b : ℤ × DevData σ α) : Prop :=
  ∃ status data, out = u64Bytes status ++ data ∧ data.length = more status ∧ nextData b ≠ none

/-- The command fails. -/
def CmdFails (b : ℤ × DevData σ α) : Prop := nextData b = none

/-- A reply of the length the first word calls for is taken as a whole. -/
theorem settles_of_more {P : ShimProc} {Q : DevProc σ α} {req : List UInt8} {more : UInt64 → ℕ}
    (hP : Asks P req (TakesReply more)) (hQ : Answers Q req CmdFails (SendsReply more)) :
    Settles P Q CmdFails := by
  refine hQ.settles hP ?_ ?_ ?_
  · rintro out b ⟨status, data, -, -, hopen⟩
    exact hopen
  · rintro ⟨head, data, hlen, hnil, -⟩
    rw [(List.append_eq_nil_iff.mp hnil.symm).1] at hlen
    cases hlen
  · rintro out b i ⟨status, data', rfl, hdata', -⟩ ⟨head, data, hlen, rfl, hdata⟩ ⟨rest, hpre⟩
    rw [List.append_assoc] at hpre
    obtain ⟨rfl, hrest⟩ := List.append_inj hpre (hlen.trans (length_u64Bytes status).symm)
    rw [u64OfBytes_u64Bytes, ← hdata'] at hdata
    have hwhole : data = data' := List.IsPrefix.eq_of_length ⟨rest, hrest⟩ hdata
    rw [hwhole]

end Replies

/-! ### What the shim asks -/

section Asks

variable {more : UInt64 → ℕ} {k : List UInt8 → ShimProc} {head bytes : List UInt8}

/-- The end of a reply with `bytes` after its first word. -/
theorem gets_end (hhead : head.length = 8) (hmore : more (u64OfBytes head) = bytes.length)
    (a : ShimResult) : Gets (.ret a : ShimProc) fun i => TakesReply more (head ++ (bytes ++ i)) :=
  .ret ⟨head, bytes, hhead, by rw [List.append_nil], hmore.symm⟩

/-- The bytes that every program reads first. -/
theorem gets_head
    (h : ∀ head, head.length = 8 → Gets (k head) fun i => TakesReply more (head ++ ([] ++ i))) :
    Asks (.read 8 k) [] (TakesReply more) :=
  .of_gets (.read h)

end Asks

/-- What follows the status of a read: as many bytes as it says. -/
def preadMore (status : UInt64) : ℕ := if asInt status < 0 then 0 else status.toNat

/-- The shim's side of a read. -/
theorem pread_asks (buf : Mem) (count offset : UInt64) :
    Asks (Shim.pread buf count offset)
      (u64Bytes opPread ++ (u64Bytes count ++ (u64Bytes offset ++ []))) (TakesReply preadMore) := by
  refine .write (.write (.write (gets_head fun head hhead => ?_)))
  rw [if_neg (by omega)]
  -- a negative status ends the call
  by_cases hneg : asInt (u64OfBytes head) < 0
  · rw [if_pos hneg]
    exact gets_end hhead (if_pos hneg) _
  · rw [if_neg hneg]
    refine .readAll fun data hdata => gets_end hhead ?_ _
    rw [preadMore, if_neg hneg, hdata]

/-- The shim's side of a write: whatever the status, nothing follows it. -/
theorem pwrite_asks (buf : Mem) (count offset : UInt64) :
    Asks (Shim.pwrite buf count offset)
      (u64Bytes opPwrite ++ (u64Bytes count ++ (u64Bytes offset ++ (buf.load 0 count.toNat ++ []))))
      (TakesReply fun _ => 0) := by
  refine .write (.write (.write (.writeAll (gets_head fun head hhead => ?_))))
  rw [if_neg (by omega)]
  by_cases hneg : asInt (u64OfBytes head) < 0
  · rw [if_pos hneg]
    exact gets_end hhead rfl _
  · rw [if_neg hneg]
    exact gets_end hhead rfl _

/-- The argument of a request as it is sent. -/
def argBytes (argp : Option Mem) (size : ℕ) : List UInt8 :=
  match argp with
  | some mem => mem.load 0 size
  | none => []

/-- The struct that follows the status of a request. -/
def replySize (request : UInt64) : ℕ :=
  if request = nfpIoctlCppIdentification then identificationSize
  else if request = nfpIoctlFirmwareLast then nfpFirmwareMax
  else if request = nfpIoctlCppAreaRequest then areaRequestSize
  else if request = nfpIoctlCppExplRequest then explicitRequestSize
  else 0

/-- What follows the status of a request. -/
def ioctlMore (request status : UInt64) : ℕ := if asInt status < 0 then 0 else replySize request

/-- The argument is sent, if there is one. -/
theorem writeArg_asks {argp : Option Mem} {size : ℕ} {k : ShimProc} {Takes : List UInt8 → Prop}
    (h : Asks k [] Takes) : Asks (Shim.writeArg argp size k) (argBytes argp size ++ []) Takes := by
  cases argp with
  | none => exact h
  | some mem =>
    simp only [Shim.writeArg, argBytes]
    split
    · exact .write h
    next hzero =>
      obtain rfl : size = 0 := by omega
      exact h

/-- `memcpy` ends the call. -/
theorem copyArg_gets {argp : Option Mem} {data : List UInt8} {ret : ℤ} {Takes : List UInt8 → Prop}
    (h : Takes []) : Gets (Shim.copyArg argp data ret) Takes := by
  cases argp with
  | none => exact .ret h
  | some mem => exact .ret h

/-- A struct after the status, read whole and copied. -/
theorem struct_gets {request : UInt64} {argp : Option Mem} {head : List UInt8} {n least : ℕ}
    {copied : List UInt8 → List UInt8} {ret : ℤ} (hhead : head.length = 8) (hleast : least ≤ n)
    (hmore : ioctlMore request (u64OfBytes head) = n) :
    Gets (.read n fun data =>
        if data.length < least then Shim.handleError argp
        else Shim.copyArg argp (copied data) ret : ShimProc)
      fun i => TakesReply (ioctlMore request) (head ++ i) := by
  refine .read fun data hdata => ?_
  rw [if_neg (by omega)]
  exact copyArg_gets ⟨head, data, hhead, by rw [List.append_nil], by rw [hdata, hmore]⟩

/-- What the shim reads behind a status that is not negative. -/
theorem readReply_gets {request : UInt64} {argp : Option Mem} {head : List UInt8}
    (hhead : head.length = 8) (hok : ¬asInt (u64OfBytes head) < 0) :
    Gets (Shim.readReply request argp (u64OfBytes head))
      fun i => TakesReply (ioctlMore request) (head ++ i) := by
  have hmore : ioctlMore request (u64OfBytes head) = replySize request := if_neg hok
  simp only [Shim.readReply]
  -- the branches of `replySize` are those of the code
  unfold replySize at hmore
  split_ifs at hmore ⊢ with hident hlast harea hexpl
  · exact struct_gets hhead le_rfl hmore
  · exact struct_gets hhead (by decide) hmore
  · exact struct_gets hhead (by decide) hmore
  · exact struct_gets hhead (by decide) hmore
  · exact gets_end hhead (show _ = ([] : List UInt8).length from hmore) _

/-- The shim's side of an `ioctl`. -/
theorem ioctl_asks {request : UInt64} {argp : Option Mem} {size : ℕ}
    (hknown : Shim.argSize request = some size)
    (hident : ¬(request = nfpIoctlCppIdentification ∧ argp.isNone)) :
    Asks (Shim.ioctl request argp)
      (u64Bytes opIoctl ++ (u64Bytes request ++ (argBytes argp size ++ [])))
      (TakesReply (ioctlMore request)) := by
  rw [Shim.ioctl, if_neg hident, hknown]
  refine .write (.write (writeArg_asks (gets_head fun head hhead => ?_)))
  rw [if_neg (by omega)]
  by_cases hneg : asInt (u64OfBytes head) < 0
  · rw [if_pos hneg]
    exact gets_end hhead (if_pos hneg) _
  · rw [if_neg hneg]
    exact readReply_gets hhead hneg

/-! ### What the server answers -/

section Answers

variable {σ α : Type} {dev : CppDev σ α} {data : DevData σ α} {count offset : UInt64}
  {x : Transfer σ α} {r : TransferResult σ}

/-- Between two iterations of a read: what is done and what is left are the count. -/
structure ReadInv (count : UInt64) (x : Transfer σ α) : Prop where
  total : x.totlen + x.count = count
  err : -2 ^ 31 ≤ x.err

/-- A read ends with its count, or with an error. -/
def ReadPost (count : UInt64) (r : TransferResult σ) : Prop :=
  match r.status with
  | .ok totlen => totlen = count
  | .error err => IsInt err ∧ err < 0

/-- After an iteration. -/
def ReadOutcome (count : UInt64) : Transfer σ α ⊕ TransferResult σ → Prop
  | .inl x => ReadInv count x
  | .inr r => ReadPost count r

/-- Opening a segment moves no cursor. -/
theorem ReadInv.openSegment (hI : ReadInv count x) (ops : CppOps σ α) (cppId : UInt32) :
    ReadOutcome count (openSegment ops cppId x) := by
  rcases halloc : ops.areaAlloc cppId x.nfpOffset x.curlen x.world with ⟨_ | area, s⟩
  · rw [openSegment_none halloc]
    exact isInt_EIO
  · by_cases hacq : (ops.areaAcquire area s).1 < 0
    · rw [openSegment_refused halloc hacq]
      exact isInt_EIO
    · rw [openSegment_acquired halloc (not_lt.mp hacq)]
      exact ⟨hI.total, le_trans (by decide) (not_lt.mp hacq)⟩

/-- At the end of a segment what is done grows by what is left less. -/
theorem ReadInv.endSegment (hI : ReadInv count x) (ops : CppOps σ α) (area : α) (pos : UInt32) :
    ReadOutcome count (endSegment ops area pos x) := by
  simp only [NfpUdpEcho.endSegment]
  split
  next hneg => exact ⟨⟨hI.err, by omega⟩, hneg⟩
  next =>
    refine ⟨?_, hI.err⟩
    calc x.totlen + pos.toUInt64 + (x.count - pos.toUInt64)
        = x.totlen + (x.count - pos.toUInt64 + pos.toUInt64) := by
          rw [UInt64.add_assoc, UInt64.add_comm pos.toUInt64]
      _ = count := by rw [UInt64.sub_add_cancel, hI.total]

/-- An iteration of a read. -/
theorem ReadInv.step (hI : ReadInv count x) : ReadOutcome count (devRead dev.ops offset x) := by
  unfold devRead
  rcases transferBody_cases dev.ops (readChunk dev.ops) (offsetCppId offset) x with
    ⟨-, -, hx⟩ | ⟨-, hzero, hx⟩ | ⟨area, pos, -, -, hx⟩ | ⟨area, pos, -, -, hx⟩
  · rw [hx]
    exact hI.openSegment _ _
  -- nothing is left, so that all is done
  · have hcount : x.count = 0 := UInt64.toNat_inj.mp hzero
    have htotal := hI.total
    rw [hcount] at htotal
    rw [hx]
    simpa [ReadOutcome, ReadPost] using htotal
  · obtain ⟨hlo, hhi⟩ := dev.read_int area pos.toUInt64 x.tmpbuf (chunkLen x.curlen pos) x.world
    simp only [hx, readChunk]
    split
    · refine ReadInv.endSegment ?_ _ _ _
      exact ⟨hI.total, hlo⟩
    · exact ⟨hI.total, hlo⟩
  · rw [hx]
    exact hI.endSegment _ _ _

/-- A read that ends has read its count, or it has failed. -/
theorem read_result {buf tmpbuf : Mem} {s : σ}
    (hr : Loop.Returns (devRead dev.ops offset) (readEntry count offset buf tmpbuf s) r) :
    ReadPost count r := by
  have hentry : ReadInv count (readEntry count offset buf tmpbuf s : Transfer σ α) :=
    ⟨UInt64.zero_add count, show (-2 ^ 31 : ℤ) ≤ 0 by decide⟩
  exact hr.rule (ReadInv count) (ReadPost count)
    (fun x hI => Loop.elim_of_after hI.step (fun _ h => h) fun _ h => h) hentry

/-- The server carries the read out. -/
def ReadSucceeds (dev : CppDev σ α) (data : DevData σ α) (count offset : UInt64) : Prop :=
  ∃ r totlen, Loop.Returns (devRead dev.ops offset)
    (readEntry count offset (dev.garbage .buf data.world) (dev.garbage .tmpbuf data.world)
      data.world) r ∧
    r.status = .ok totlen

/-- The request is granted. -/
def AreaGranted (dev : CppDev σ α) (data : DevData σ α) (areaReq : AreaRequest) : Prop :=
  (offsetTaken data.list areaReq).isSome ∧ dev.malloc data.world = true ∧
    (dev.ops.areaAlloc areaReq.cppId areaReq.cppAddr areaReq.size data.world).1.isSome

/-- A command that returns -1 ends the connection. -/
theorem cmdFails_neg (data : DevData σ α) : CmdFails (-1, data) :=
  if_pos (show (-1 : ℤ) < 0 by decide)

/-- One that returns 0 does not. -/
theorem nextData_zero (data : DevData σ α) : nextData (0, data) ≠ none := by
  rw [nextData, if_neg (lt_irrefl 0)]
  exact Option.some_ne_none data

/-- A status, what follows it, and on to the next request. -/
theorem sendsReply {more : UInt64 → ℕ} {status : UInt64} {bytes : List UInt8}
    (h : more status = bytes.length) :
    SendsReply more (u64Bytes status ++ (bytes ++ [])) ((0 : ℤ), data) :=
  ⟨status, bytes, by rw [List.append_nil], h.symm, nextData_zero data⟩

/-- A status alone. -/
theorem sends_status {more : UInt64 → ℕ} {status : UInt64} (h : more status = 0) :
    Answers (.write (u64Bytes status) (.ret (0, data)) : DevProc σ α) [] CmdFails
      (SendsReply more) :=
  .of_sends (.write (u64Bytes_ne_nil status) .ret)
    ⟨status, [], rfl, h.symm, nextData_zero data⟩

/-- A status and a struct. -/
theorem sends_struct {more : UInt64 → ℕ} {status : UInt64} {bytes : List UInt8}
    (hne : bytes ≠ []) (h : more status = bytes.length) :
    Answers (.write (u64Bytes status) (.write bytes (.ret (0, data))) : DevProc σ α) [] CmdFails
      (SendsReply more) :=
  .of_sends (.write (u64Bytes_ne_nil status) (.write hne .ret)) (sendsReply h)

/-- The server's side of a read, behind its header. -/
theorem nfpCppDevRead_answers (h : 0 ≤ asInt count ∨ ¬ReadSucceeds dev data count offset) :
    Answers (nfpCppDevRead dev data count offset) [] CmdFails (SendsReply preadMore) := by
  refine .loop fun r hr => ?_
  have hpost := read_result hr
  cases hstatus : r.status with
  | ok totlen =>
    -- the reply is as long as the count, and the shim sees that it is not negative
    have hok : ¬asInt totlen < 0 := by
      rw [ReadPost, hstatus] at hpost
      subst hpost
      rcases h with hpos | hfail
      · exact Int32.not_lt.mpr hpos
      · exact absurd ⟨r, totlen, hr, hstatus⟩ hfail
    refine .of_sends (.write (u64Bytes_ne_nil totlen) (.writeAll .ret)) (sendsReply ?_)
    rw [preadMore, if_neg hok, Mem.length_load]
  | error err =>
    rw [ReadPost, hstatus] at hpost
    exact sends_status (if_pos (asInt_statusWord_neg hpost.1 hpost.2))

/-- The server's side of a write, behind its header. -/
theorem nfpCppDevWrite_answers {bytes : List UInt8} (hlen : bytes.length = count.toNat) :
    Answers (nfpCppDevWrite dev data count offset) (bytes ++ []) CmdFails
      (SendsReply fun _ => 0) := by
  refine .readAll hlen (.loop fun r hr => ?_)
  cases hstatus : r.status with
  | ok totlen => exact sends_status rfl
  | error err => exact sends_status rfl

/-- A granted request has the status zero. -/
theorem doCppAreaRequest_granted {areaReq : AreaRequest} (h : AreaGranted dev data areaReq)
    (interface : UInt16) :
    (doCppAreaRequest (dev.malloc data.world)
      (fun areaReq => dev.ops.areaAlloc areaReq.cppId areaReq.cppAddr areaReq.size) interface
      areaReq data.list data.world).1 = 0 := by
  obtain ⟨htaken, hmalloc, halloc⟩ := h
  obtain ⟨area, harea⟩ := Option.isSome_iff_exists.mp halloc
  rcases doCppAreaRequest_cases (dev.malloc data.world)
      (fun areaReq => dev.ops.areaAlloc areaReq.cppId areaReq.cppAddr areaReq.size) interface
      areaReq data.list data.world with ⟨o, -, heq⟩ | ⟨hnone, -⟩
  · rw [heq, nfpDevCppAreaAlloc, if_pos hmalloc]
    simp only
    split
    next => rfl
    next heq' =>
      rw [heq'] at harea
      cases harea
  · rw [hnone] at htaken
    cases htaken

/-- An identification is sent whole, whatever size was asked for. -/
theorem ioctlCppIdentification_answers {bytes : List UInt8} (hlen : bytes.length = 4) :
    Answers (ioctlCppIdentification dev data) (bytes ++ []) CmdFails
      (SendsReply (ioctlMore nfpIoctlCppIdentification)) := by
  refine .read hlen ?_
  rw [if_neg (by omega)]
  exact sends_struct (List.ne_nil_of_length_eq_add_one (NfpCppIdentification.length_bytes _))
    ((show _ = identificationSize by decide).trans (NfpCppIdentification.length_bytes _).symm)

/-- A granted request for an area is sent back with its offset. -/
theorem ioctlAreaRequest_answers {bytes : List UInt8} (hlen : bytes.length = areaRequestSize)
    (hgranted : AreaGranted dev data (.ofBytes bytes)) :
    Answers (ioctlAreaRequest dev data) (bytes ++ []) CmdFails
      (SendsReply (ioctlMore nfpIoctlCppAreaRequest)) := by
  refine .read hlen ?_
  rw [if_neg (by omega)]
  have hstatus := doCppAreaRequest_granted hgranted dev.interface.toUInt16
  simp only [hstatus]
  exact sends_struct (List.ne_nil_of_length_eq_add_one (length_setOffset hlen _))
    ((show _ = areaRequestSize by decide).trans (length_setOffset hlen _).symm)

/-- A release has only a status. -/
theorem ioctlAreaRelease_answers {bytes : List UInt8} (hlen : bytes.length = areaRequestSize) :
    Answers (ioctlAreaRelease dev data) (bytes ++ []) CmdFails
      (SendsReply (ioctlMore nfpIoctlCppAreaRelease)) := by
  refine .read hlen ?_
  rw [if_neg (by omega)]
  refine sends_status ?_
  -- whatever the status
  rw [ioctlMore]
  split
  · rfl
  · decide

/-- The calls that leave nothing behind. -/
def InStep (dev : CppDev σ α) (data : DevData σ α) : ShimCall → Prop
  | .pread _ count offset | .pread64 _ count offset =>
    0 ≤ asInt count ∨ ¬ReadSucceeds dev data count offset
  | .pwrite .. | .pwrite64 .. => True
  | .ioctl request none =>
    request ≠ nfpIoctlCppIdentification ∧ (Shim.argSize request).isSome
  | .ioctl request (some mem) =>
    (Shim.argSize request).isSome ∧ request ≠ nfpIoctlCppExplRequest ∧
      (request = nfpIoctlCppAreaRequest →
        AreaGranted dev data (.ofBytes (mem.load 0 areaRequestSize)))

/-- A request without its argument: the server waits for one, or closes the connection. -/
theorem nfpCppDevIoctl_answers_null (request : UInt64) {more : UInt64 → ℕ} :
    Answers (nfpCppDevIoctl dev data request) ([] ++ []) CmdFails (SendsReply more) := by
  simp only [nfpCppDevIoctl]
  split_ifs
  · exact .waits (by decide)
  · exact .waits (by decide)
  · exact .waits (by decide)
  · exact .waits (by decide)
  · exact .fails (cmdFails_neg data)

/-- The server's side of an `ioctl` with an argument. -/
theorem nfpCppDevIoctl_answers {request : UInt64} {mem : Mem} {size : ℕ}
    (hknown : Shim.argSize request = some size) (hexpl : request ≠ nfpIoctlCppExplRequest)
    (harea : request = nfpIoctlCppAreaRequest →
      AreaGranted dev data (.ofBytes (mem.load 0 areaRequestSize))) :
    Answers (nfpCppDevIoctl dev data request) (mem.load 0 size ++ []) CmdFails
      (SendsReply (ioctlMore request)) := by
  simp only [nfpCppDevIoctl]
  split_ifs with hident hrequest hrelease
  · subst hident
    obtain rfl := Option.some.inj ((show Shim.argSize _ = some 4 by decide).symm.trans hknown)
    exact ioctlCppIdentification_answers (Mem.length_load mem 0 4)
  · subst hrequest
    obtain rfl := Option.some.inj ((show Shim.argSize _ = some 32 by decide).symm.trans hknown)
    exact ioctlAreaRequest_answers (Mem.length_load mem 0 32) (harea rfl)
  · subst hrelease
    obtain rfl := Option.some.inj ((show Shim.argSize _ = some 32 by decide).symm.trans hknown)
    exact ioctlAreaRelease_answers (Mem.length_load mem 0 32)
  -- a request that the server does not know closes the connection
  · exact .fails (cmdFails_neg data)

/-- The operation comes first. -/
theorem handleCmd_answers_ioctl {request : UInt64} {arg : List UInt8} {more : UInt64 → ℕ}
    (h : Answers (nfpCppDevIoctl dev data request) (arg ++ []) CmdFails (SendsReply more)) :
    Answers (nfpCppDevHandleCmd dev data)
      (u64Bytes opIoctl ++ (u64Bytes request ++ (arg ++ []))) CmdFails (SendsReply more) := by
  refine .read (length_u64Bytes _) ?_
  rw [u64OfBytes_u64Bytes, if_neg (by decide), if_neg (by decide), if_pos rfl]
  refine .read (length_u64Bytes _) ?_
  rwa [u64OfBytes_u64Bytes]

/-- The server reads the header of a read first. -/
theorem handleCmd_answers_pread (h : 0 ≤ asInt count ∨ ¬ReadSucceeds dev data count offset) :
    Answers (nfpCppDevHandleCmd dev data)
      (u64Bytes opPread ++ (u64Bytes count ++ (u64Bytes offset ++ []))) CmdFails
      (SendsReply preadMore) := by
  refine .read (length_u64Bytes _) ?_
  rw [u64OfBytes_u64Bytes, if_pos rfl]
  refine .read (length_u64Bytes _) (.read (length_u64Bytes _) ?_)
  rw [u64OfBytes_u64Bytes, u64OfBytes_u64Bytes]
  exact nfpCppDevRead_answers h

/-- So it does with that of a write. -/
theorem handleCmd_answers_pwrite {bytes : List UInt8} (hlen : bytes.length = count.toNat) :
    Answers (nfpCppDevHandleCmd dev data)
      (u64Bytes opPwrite ++ (u64Bytes count ++ (u64Bytes offset ++ (bytes ++ [])))) CmdFails
      (SendsReply fun _ => 0) := by
  refine .read (length_u64Bytes _) ?_
  rw [u64OfBytes_u64Bytes, if_neg (by decide), if_pos rfl]
  refine .read (length_u64Bytes _) (.read (length_u64Bytes _) ?_)
  rw [u64OfBytes_u64Bytes, u64OfBytes_u64Bytes]
  exact nfpCppDevWrite_answers hlen

/-- Each of these calls settles. -/
theorem InStep.settles {call : ShimCall} (h : InStep dev data call) :
    Settles call.proc (nfpCppDevHandleCmd dev data) CmdFails := by
  cases call with
  | pread buf count offset =>
    exact settles_of_more (pread_asks buf count offset) (handleCmd_answers_pread h)
  | pread64 buf count offset =>
    exact settles_of_more (pread_asks buf count offset) (handleCmd_answers_pread h)
  | pwrite buf count offset =>
    exact settles_of_more (pwrite_asks buf count offset)
      (handleCmd_answers_pwrite (Mem.length_load buf 0 _))
  | pwrite64 buf count offset =>
    exact settles_of_more (pwrite_asks buf count offset)
      (handleCmd_answers_pwrite (Mem.length_load buf 0 _))
  | ioctl request argp =>
    cases argp with
    | none =>
      obtain ⟨hident, hknown⟩ := h
      obtain ⟨size, hsize⟩ := Option.isSome_iff_exists.mp hknown
      exact settles_of_more (ioctl_asks hsize fun hnull => hident hnull.1)
        (handleCmd_answers_ioctl (nfpCppDevIoctl_answers_null request))
    | some mem =>
      obtain ⟨hknown, hexpl, harea⟩ := h
      obtain ⟨size, hsize⟩ := Option.isSome_iff_exists.mp hknown
      exact settles_of_more (ioctl_asks hsize fun hnull => by cases hnull.2)
        (handleCmd_answers_ioctl (nfpCppDevIoctl_answers hsize hexpl harea))

end Answers

/-! ### The connection -/

section Connection

variable {σ α : Type}

/-- The calls of the shim, carried out by the device server. -/
def shimService (dev : CppDev σ α) :
    Service ShimCall ShimResult (DevData σ α) (ℤ × DevData σ α) (Transfer σ α)
      (TransferResult σ) where
  call := ShimCall.proc
  closed := ShimResult.closed
  handle := nfpCppDevHandleCmd dev
  resume := nextData
  waits _ _ h := by cases h

/-- **No leftover bytes.** In every state of a run in which every call is in step, whatever the
order of the two sides' steps and the size of the chunks. -/
theorem framing_safe (dev : CppDev σ α)
    {h : List (Transition (Connection ShimResult (ℤ × DevData σ α) (Transfer σ α)
      (TransferResult σ)) (ConnLabel ShimCall))}
    {s : Connection ShimResult (ℤ × DevData σ α) (Transfer σ α) (TransferResult σ)}
    (he : Exec (shimService dev).system h s)
    (hg : ∀ t ∈ h, (shimService dev).Takes (InStep dev) t.src t.label) :
    (shimService dev).Framed s :=
  Service.framed_of_settles (fun _ _ hstep => hstep.settles) he hg

end Connection

/-! ### A library whose operations succeed at once -/

/-- A machine over that library. -/
def quietDev : CppDev Unit Unit where
  ops :=
    { areaAlloc := fun _ _ _ s => (some (), s)
      areaAcquire := fun area s => (0, area, s)
      areaRead := fun _ _ kernelVaddr _ s => (0, kernelVaddr, s)
      areaWrite := fun _ _ _ _ s => (0, s)
      areaRelease := fun area s => (area, s)
      areaFree := fun _ s => s }
  model s := (0, s)
  interface := 0
  serial _ := 0
  malloc _ := true
  garbage _ _ _ := 0
  read_int _ _ _ _ _ := ⟨show (-2 ^ 31 : ℤ) ≤ 0 by decide, show (0 : ℤ) < 2 ^ 31 by decide⟩

/-- A connection on which nothing has happened. -/
def idleConnection :
    Connection ShimResult (ℤ × DevData Unit Unit) (Transfer Unit Unit) (TransferResult Unit) where
  client := .ret ⟨0, none, false, none⟩
  server := .ret (0, ⟨[], ()⟩)
  up := []
  down := []
  closed := false

/-- It is a connection to begin with. -/
theorem idleConnection_init : (shimService quietDev).system.init idleConnection :=
  ⟨rfl, ⟨_, rfl⟩, ⟨[], ()⟩, rfl, rfl, _, rfl, rfl⟩

/-- What the last call returned, whether anyone has closed the connection, and how many bytes
are in the streams. -/
def returned (s : Connection ShimResult (ℤ × DevData Unit Unit) (Transfer Unit Unit)
    (TransferResult Unit)) : Option (ℤ × Bool × ℕ × ℕ) :=
  match s.client with
  | .ret a => some (a.ret, a.closed || s.closed, s.up.length, s.down.length)
  | _ => none

/-- Two bytes are written, one at a time. -/
theorem framing_safe_pwrite : ∃ h s, Exec (shimService quietDev).system h s ∧
    returned s = some (2, false, 0, 0) ∧ (shimService quietDev).Framed s := by
  let labels : List (ConnLabel ShimCall) :=
    [.call (.pwrite (fun _ => 7) 2 0), .client 1, .client 1, .client 1, .client 1, .client 1,
      .poll, .server 1, .server 1, .server 1, .server 2, .server 1, .server 1, .server 1,
      .server 1, .server 1, .client 1]
  have hrun : (runLabels (shimService quietDev).next idleConnection labels).map returned =
      some (some (2, false, 0, 0)) := by decide
  obtain ⟨h, s, he, hlabels, hreturned⟩ := Exec.exists_of_run _ _ idleConnection_init hrun
  refine ⟨h, s, he, hreturned, framing_safe quietDev he fun t ht => ?_⟩
  have hlabel : t.label ∈ labels := hlabels ▸ List.mem_map_of_mem ht
  -- the one call of the run is a write
  cases hl : t.label with
  | call c =>
    intro st _
    have hc : c = .pwrite (fun _ => 7) 2 0 := by simpa [labels, hl] using hlabel
    rw [hc]
    trivial
  | client m => trivial
  | server m => trivial
  | poll => trivial
  | eof => trivial

/-- An identification without an argument returns once the operation is sent. -/
theorem framing_identification :
    ¬ ∀ h s, Exec (shimService quietDev).system h s → (shimService quietDev).Framed s := by
  intro hall
  have hrun : (runLabels (shimService quietDev).next idleConnection
      [.call (.ioctl nfpIoctlCppIdentification none), .client 1]).map returned =
      some (some (20, false, 8, 0)) := by decide
  obtain ⟨h, s, he, -, hreturned⟩ := Exec.exists_of_run _ _ idleConnection_init hrun
  unfold returned at hreturned
  split at hreturned
  next a ha =>
    simp only [Option.some.injEq, Prod.mk.injEq, Bool.or_eq_false_iff] at hreturned
    obtain ⟨-, ⟨hclosed, hopen⟩, hup, -⟩ := hreturned
    obtain ⟨-, hnil, -⟩ := hall h s he hopen a ha hclosed
    rw [hnil] at hup
    cases hup
  next => cases hreturned

end NfpUdpEcho
