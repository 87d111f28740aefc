import NfpUdpEcho.Framework.Serve
import NfpUdpEcho.Server.ReadExact
import NfpUdpEcho.Server.SysCalls

/-!
# The requests of a stream, and what the server makes of them

A request is a header of words with an argument or a payload, `Request.bytes`, and a stream has
one sequence of them (`requestFormat`). `handleCmd_follows` says when the server carries out
that sequence: every call moves all that it is asked for or all that is left, and behind the
last whole request no read or write has been started. Only then: a header word that comes short
is taken for a whole one, and so is one that does not come at all.

`Sock.Seeks` follows a program along its input: which request it carries out, which bytes it has
taken by then, and that it replies before it asks for more. The lemmas take the functions one by
one, from a single word to `nfp_cpp_dev_handle_cmd`, first on an input that starts with a whole
request (`handleCmd_seeks_request`), then on one that does not (`handleCmd_seeks_none`). What `tmp`
held before plays a part in the second case only: a word that does not come whole leaves bytes of an
older one in place, and `NoTransfer` says that these do not look like a transfer.
-/

namespace NfpUdpEcho

open Duplex Socket LTS ByteMem LittleEndian

/-! ### Requests -/

namespace Request

/-- The payload of a write is as long as its count, and an `ioctl` is known. -/
def Valid : Request → Prop
  | pread _ _ => True
  | pwrite count _ payload => payload.length = count.toNat
  | ioctl request arg => ioctlArgSize request = some arg.length

/-- A request in the stream. -/
def bytes : Request → List UInt8
  | pread count offset => u64Bytes opPread ++ (u64Bytes count ++ u64Bytes offset)
  | pwrite count offset payload =>
    u64Bytes opPwrite ++ (u64Bytes count ++ (u64Bytes offset ++ payload))
  | ioctl request arg => u64Bytes opIoctl ++ (u64Bytes request ++ arg)

/-- The request that a stream starts with, if it does. -/
def first (stream : List UInt8) : Option Request :=
  let op := u64OfBytes (stream.take 8)
  let word := u64OfBytes ((stream.drop 8).take 8)
  if op = opPread then some (pread word (u64OfBytes (((stream.drop 8).drop 8).take 8)))
  else if op = opPwrite then
    some (pwrite word (u64OfBytes (((stream.drop 8).drop 8).take 8))
      ((((stream.drop 8).drop 8).drop 8).take word.toNat))
  else if op = opIoctl then
    (ioctlArgSize word).map fun size => ioctl word (((stream.drop 8).drop 8).take size)
  else none

/-- A request is found in front of anything. -/
theorem first_bytes {op : Request} (h : op.Valid) (rest : List UInt8) :
    first (op.bytes ++ rest) = some op := by
  cases op with
  | pread count offset =>
    simp only [first, bytes, List.append_assoc, take_u64Bytes, drop_u64Bytes, u64OfBytes_u64Bytes]
    exact if_pos trivial
  | pwrite count offset payload =>
    simp only [first, bytes, List.append_assoc, take_u64Bytes, drop_u64Bytes, u64OfBytes_u64Bytes]
    have hlen : payload.length = count.toNat := h
    -- the payload is what its count says, whatever follows it
    rw [if_neg (by decide), if_pos trivial, ← hlen, List.take_left]
  | ioctl request arg =>
    simp only [first, bytes, List.append_assoc, take_u64Bytes, drop_u64Bytes, u64OfBytes_u64Bytes]
    have hsize : ioctlArgSize request = some arg.length := h
    rw [if_neg (by decide), if_neg (by decide), if_pos trivial, hsize, Option.map_some,
      List.take_left]

end Request

/-- The protocol. -/
def requestFormat : Format Request where
  Valid := Request.Valid
  bytes := Request.bytes
  unambiguous := by
    -- both are what `Request.first` finds
    rintro op op' stream h h' ⟨rest, rfl⟩ ⟨rest', heq⟩
    have hfirst := Request.first_bytes h' rest'
    rw [heq, Request.first_bytes h rest] at hfirst
    exact Option.some.inj hfirst

/-- An empty stream holds no request: every one has at least the word of its operation. -/
theorem noRequest_nil : requestFormat.NoRequest [] := by
  intro op _ hprefix
  -- the word of the operation is part of every request
  have hnil : op.bytes = [] := List.prefix_nil.mp hprefix
  cases op with
  | pread | pwrite | ioctl => cases hnil

/-- Nothing in a stream without whole requests, or in memory, looks like a read or a write. -/
def NoTransfer {σ α : Type} (dev : CppDev σ α) (tail : List UInt8) : Prop := ∀ s,
  let op := u64OfBytes (overwrite ((dev.garbage .tmp s).load 0 8) (tail.take 8))
  op ≠ opPread ∧ op ≠ opPwrite

section Seeks

variable {σ α : Type} {dev : CppDev σ α} {data : DevData σ α} {tmp seen input bytes : List UInt8}
  {word request count offset : UInt64} {k : ServerSock σ α} {ks : List UInt8 → ServerSock σ α}

/-! ### Replies

What follows an operation writes to the socket and does not read from it. -/

/-- A reply that moves all its bytes goes on with what follows. -/
theorem replies_sendReply (h : k.Replies) : (sendReply bytes data k).Replies := by
  show Sock.Replies (if isShort (some bytes.length) bytes.length then _ else k)
  rwa [if_neg (by rw [isShort_some, decide_eq_true_eq]; omega)]

/-- Returning writes nothing more. -/
theorem replies_ret (data : DevData σ α) : (.ret (0, data) : ServerSock σ α).Replies := le_rfl

/-- An error status is the whole of a reply. -/
theorem replies_sendError (err : ℤ) (data : DevData σ α) : (sendError err data).Replies := le_rfl

/-- The replies of `ioctl`, part after part. -/
theorem IsReply.replies (h : IsReply k) : k.Replies := by
  induction h with
  | done data => exact replies_ret data
  | send _ ih => exact replies_sendReply ih

/-! ### A request that is there

Every word is whole, so `tmp` holds that word and nothing else, and the program reads exactly the
bytes of the request. -/

/-- A header word that is there takes eight bytes, and replaces all that `tmp` held. -/
theorem seeks_word (htmp : tmp.length = 8) (rest : List UInt8) :
    (readWord tmp data ks).Seeks requestFormat seen (u64Bytes word ++ rest) ↔
      (ks (u64Bytes word)).Seeks requestFormat (seen ++ u64Bytes word) rest := by
  rw [readWord, Sock.Seeks, take_u64Bytes, drop_u64Bytes]
  dsimp only
  rw [overwrite_whole htmp (length_u64Bytes word)]

/-- An argument that is there is read in one call. -/
theorem seeks_arg {garbage : Mem} {size : ℕ} (hsize : bytes.length = size) (rest : List UInt8)
    (h : (ks bytes).Seeks requestFormat (seen ++ bytes) rest) :
    (readArg garbage size data ks).Seeks requestFormat seen (bytes ++ rest) := by
  subst hsize
  rw [readArg, Sock.Seeks, List.take_left, List.drop_left,
    if_neg (by rw [Option.map_some, isShort_some, decide_eq_true_eq]; omega)]
  show (ks ((garbage.store 0 bytes).load 0 bytes.length)).Seeks requestFormat (seen ++ bytes) rest
  rwa [Mem.load_store garbage 0 bytes]

/-- A read has its whole request behind it when it starts on the device. -/
theorem readCalls_seeks (rest : List UInt8) (hseen : seen = (Request.pread count offset).bytes) :
    (nfpCppDevReadCalls dev data count offset).Seeks requestFormat seen rest := by
  refine ⟨trivial, hseen, fun r => ?_⟩
  dsimp only
  cases r.status with
  | ok totlen => exact replies_sendReply (replies_writeAll (replies_ret _))
  | error err => exact replies_sendError err _

/-- A write still has to read its payload, and that is the rest of its request. -/
theorem writeCalls_seeks (rest : List UInt8) (hlen : bytes.length = count.toNat)
    (hseen : seen ++ bytes = (Request.pwrite count offset bytes).bytes) :
    (nfpCppDevWriteCalls dev data count offset).Seeks requestFormat seen (bytes ++ rest) := by
  refine seeks_readRest.mpr ⟨?_, ?_⟩
  · rw [List.length_append]
    omega
  -- the loop takes the payload and no byte behind it
  rw [← hlen, List.take_left, List.drop_left, List.nil_append]
  refine ⟨hlen, hseen, fun r => ?_⟩
  dsimp only
  cases r.status with
  | ok totlen => exact replies_sendReply (replies_ret _)
  | error err => exact replies_sendError err _

/-- An `ioctl` reads the argument that its number asks for. -/
theorem ioctlCalls_seeks (rest : List UInt8) (hsize : ioctlArgSize request = some bytes.length)
    (hseen : seen ++ bytes = (Request.ioctl request bytes).bytes) :
    (nfpCppDevIoctlCalls dev data request).Seeks requestFormat seen (bytes ++ rest) := by
  rcases nfpCppDevIoctlCalls_cases dev data request with
    ⟨hnone, -⟩ | ⟨arg, size, reply, hsome, hreply, hcalls⟩
  -- a request that is valid is known
  · cases hnone.symm.trans hsize
  · rw [hcalls]
    have hlen : bytes.length = size := Option.some.inj (hsize.symm.trans hsome)
    exact seeks_arg hlen rest ⟨hsize, hseen, (hreply bytes).replies⟩

/-- A command in front of a whole request carries out that request. -/
theorem handleCmd_seeks_request {op : Request} (hvalid : op.Valid) (rest : List UInt8) :
    (nfpCppDevHandleCmdCalls dev data).Seeks requestFormat [] (op.bytes ++ rest) := by
  -- One word after the other is whole, and nothing of what `tmp` held is left.
  have htmp : ((dev.garbage .tmp data.world).load 0 8).length = 8 := Mem.length_load _ 0 8
  cases op with
  | pread count offset =>
    rw [Request.bytes, List.append_assoc, List.append_assoc, nfpCppDevHandleCmdCalls,
      seeks_word htmp, u64OfBytes_u64Bytes, if_pos rfl, seeks_word (length_u64Bytes _),
      seeks_word (length_u64Bytes _), u64OfBytes_u64Bytes, u64OfBytes_u64Bytes]
    refine readCalls_seeks rest ?_
    rw [Request.bytes, List.nil_append, List.append_assoc]
  | pwrite count offset payload =>
    rw [Request.bytes, List.append_assoc, List.append_assoc, List.append_assoc,
      nfpCppDevHandleCmdCalls, seeks_word htmp, u64OfBytes_u64Bytes, if_neg (by decide), if_pos rfl,
      seeks_word (length_u64Bytes _), seeks_word (length_u64Bytes _), u64OfBytes_u64Bytes,
      u64OfBytes_u64Bytes]
    refine writeCalls_seeks rest hvalid ?_
    rw [Request.bytes, List.nil_append, List.append_assoc, List.append_assoc]
  | ioctl request arg =>
    rw [Request.bytes, List.append_assoc, List.append_assoc, nfpCppDevHandleCmdCalls,
      seeks_word htmp, u64OfBytes_u64Bytes, if_neg (by decide), if_neg (by decide), if_pos rfl,
      seeks_word (length_u64Bytes _), u64OfBytes_u64Bytes]
    refine ioctlCalls_seeks rest hvalid ?_
    rw [Request.bytes, List.nil_append, List.append_assoc]

/-! ### A request that is not there

What is left of the stream is a proper part of a request, or no request at all. An `ioctl` with a
known number must then lack a part of its argument. -/

/-- An argument that breaks off. -/
theorem refuses_arg {garbage : Mem} {size : ℕ} (hno : requestFormat.NoRequest (seen ++ input))
    (hshort : input.length < size) :
    (readArg garbage size data ks).Seeks requestFormat seen input := by
  have htake : (input.take size).length < size := by
    rw [List.length_take]
    omega
  rw [readArg, Sock.Seeks,
    if_pos (by rw [Option.map_some, isShort_some, decide_eq_true_eq]; exact htake)]
  refine ⟨show (-1 : ℤ) < 0 by decide, ?_⟩
  rwa [List.append_assoc, List.take_append_drop]

/-- An unknown number, or an argument that breaks off: the command fails and nothing is carried out.
-/
theorem ioctlCalls_refuses (hno : requestFormat.NoRequest (seen ++ input))
    (hshort : ∀ size, ioctlArgSize request = some size → input.length < size) :
    (nfpCppDevIoctlCalls dev data request).Seeks requestFormat seen input := by
  rcases nfpCppDevIoctlCalls_cases dev data request with
    ⟨-, hcalls⟩ | ⟨arg, size, reply, hsome, -, hcalls⟩
  -- an unknown number reads no argument
  · rw [hcalls]
    exact ⟨show (-1 : ℤ) < 0 by decide, hno⟩
  · rw [hcalls]
    exact refuses_arg hno (hshort size hsome)

/-- A header word that may come short is put over what `tmp` holds, and the command goes on. -/
theorem seeks_readWord (h : (ks (overwrite tmp (input.take 8))).Seeks requestFormat
    (seen ++ input.take 8) (input.drop 8)) :
    (readWord tmp data ks).Seeks requestFormat seen input := h

/-- Without a whole request the command refuses, unless what it finds in `tmp` starts a transfer. -/
theorem handleCmd_seeks_none (hno : requestFormat.NoRequest input) (htail : NoTransfer dev input) :
    (nfpCppDevHandleCmdCalls dev data).Seeks requestFormat [] input := by
  obtain ⟨hpread, hpwrite⟩ := htail data.world
  have hno₁ : requestFormat.NoRequest ([] ++ input.take 8 ++ input.drop 8) := by
    rwa [List.nil_append, List.take_append_drop]
  refine seeks_readWord ?_
  -- what is left is an `ioctl`, or no operation at all
  rw [if_neg hpread, if_neg hpwrite]
  split
  next hioctl =>
    refine seeks_readWord (ioctlCalls_refuses ?_ fun size hsize => ?_)
    · rwa [List.append_assoc, List.take_append_drop]
    by_contra hlong
    -- the words came whole, and the argument is there
    rw [not_lt, List.length_drop, List.length_drop] at hlong
    have hpos : 0 < size := ioctlArgSize_pos hsize
    have hlen₁ : (input.take 8).length = 8 := List.length_take_of_le (by omega)
    have hlen₂ : ((input.drop 8).take 8).length = 8 := by
      rw [List.length_take, List.length_drop]
      omega
    rw [overwrite_whole (Mem.length_load _ 0 8) hlen₁] at hioctl hsize
    rw [overwrite_whole hlen₁ hlen₂] at hsize
    -- so there is a request, against `hno`
    refine hno (.ioctl (u64OfBytes ((input.drop 8).take 8)) (((input.drop 8).drop 8).take size))
      ?_ ⟨((input.drop 8).drop 8).drop size, ?_⟩
    · show ioctlArgSize _ = some _
      rw [hsize, List.length_take, List.length_drop, List.length_drop]
      congr 1
      omega
    · show u64Bytes opIoctl ++ (u64Bytes _ ++ _) ++ _ = input
      rw [← hioctl, u64Bytes_u64OfBytes hlen₁, u64Bytes_u64OfBytes hlen₂, List.append_assoc,
        List.append_assoc, List.take_append_drop, List.take_append_drop, List.take_append_drop]
  next => exact ⟨show (-1 : ℤ) < 0 by decide, hno₁⟩

/-- A command reads one whole request, or refuses. -/
theorem handleCmd_seeks (h : requestFormat.NoRequest input → NoTransfer dev input) :
    (nfpCppDevHandleCmdCalls dev data).Seeks requestFormat [] input := by
  by_cases hno : requestFormat.NoRequest input
  · exact handleCmd_seeks_none hno (h hno)
  · unfold Format.NoRequest at hno
    push Not at hno
    obtain ⟨op, hvalid, rest, rfl⟩ := hno
    exact handleCmd_seeks_request hvalid rest

end Seeks

/-! ### The connection -/

section Serve

variable {σ α : Type}

/-- **The server follows the stream** in every run whose calls do all that they can, when nothing
behind the last whole request looks like a read or a write. -/
theorem handleCmd_follows (dev : CppDev σ α) (stream : List UInt8)
    (htail : ∀ ops tail, requestFormat.Parses stream ops tail → NoTransfer dev tail)
    (h : List (Transition (Conn (Transfer σ α) (TransferResult σ) Request (DevData σ α))
      (Event (DevData σ α))))
    (c : Conn (Transfer σ α) (TransferResult σ) Request (DevData σ α))
    (he : Exec (serve (nfpCppDevHandleCmdCalls dev) stream) h c)
    (hall : ∀ t ∈ h, DoesAll t.src t.label) :
    requestFormat.Follows stream
      ((serve (nfpCppDevHandleCmdCalls dev) stream).restrict DoesAll) c := by
  refine serve_follows (fun data log input hlog hstream => ?_) he hall
  exact handleCmd_seeks fun hno => htail log input ⟨hlog, hstream, hno⟩

/-- One step of the server: a `read` for a header word, answered with whatever has arrived. -/
theorem serve_readWord {dev : CppDev σ α} {data : DevData σ α}
    {stream tmp input bytes rest : List UInt8}
    {ks : List UInt8 → ServerSock σ α} (seen : List UInt8) (hcut : Cut 8 input bytes rest) :
    (serve (nfpCppDevHandleCmdCalls dev) stream).step ⟨readWord tmp data ks, input, [], seen, []⟩
      (.call (.got (some bytes))) ⟨ks (overwrite tmp bytes), rest, [], seen ++ bytes, []⟩ :=
  serve_read [] [] seen hcut

/-- A write of two bytes, and a read of the same range. -/
def writeThenRead : List Request := [.pwrite 2 0 [5, 6], .pread 2 0]

/-- The payload of the write comes in two pieces. -/
theorem handleCmd_follows_pieces : ∃ c, c.log = [.pwrite 2 0 [5, 6]] ∧ c.ops = [.pread 2 0] ∧
    requestFormat.Follows (writeThenRead.flatMap Request.bytes)
      ((serve (nfpCppDevHandleCmdCalls memDev)
        (writeThenRead.flatMap Request.bytes)).restrict DoesAll) c := by
  let got (bytes : List UInt8) : Event (DevData (UInt32 → Mem) (UInt32 × UInt64)) :=
    .call (.got (some bytes))
  have hrun : (runLabels (serveNext (nfpCppDevHandleCmdCalls memDev))
      ⟨nfpCppDevHandleCmdCalls memDev ⟨[], fun _ _ => 0⟩, writeThenRead.flatMap Request.bytes,
        [], [], []⟩
      ([got (u64Bytes opPwrite), got (u64Bytes 2), got (u64Bytes 0), got [5], got [6]] ++
        List.replicate 5 (.call .compute) ++ [.call (.wrote (some 8)), .again ⟨[], fun _ _ => 0⟩,
        got (u64Bytes opPread), got (u64Bytes 2), got (u64Bytes 0)] ++
        List.replicate 5 (.call .compute) ++
        [.call (.wrote (some 8)), .call (.wrote (some 2))])).map (fun c => (c.log, c.ops)) =
      some ([.pwrite 2 0 [5, 6]], [.pread 2 0]) := by decide +kernel
  obtain ⟨h, c, he, hall, hops⟩ := exec_of_run hrun
  obtain ⟨hlog, hops⟩ := Prod.mk.inj hops
  refine ⟨c, hlog, hops, handleCmd_follows memDev _ (fun ops tail hparses => ?_) h c he hall⟩
  -- nothing is left behind the two requests
  have hboth : requestFormat.Parses (writeThenRead.flatMap Request.bytes) writeThenRead [] :=
    ⟨List.forall_mem_cons.mpr ⟨rfl, List.forall_mem_singleton.mpr trivial⟩,
      (List.append_nil _).symm, noRequest_nil⟩
  obtain rfl := hparses.unique hboth
  obtain rfl : tail = [] :=
    List.append_cancel_left (hparses.stream_eq.symm.trans hboth.stream_eq)
  intro s
  show u64OfBytes (overwrite (Mem.load (fun _ => 0) 0 8) []) ≠ opPread ∧
    u64OfBytes (overwrite (Mem.load (fun _ => 0) 0 8) []) ≠ opPwrite
  decide

/-- A client that has sent the first word of a read. -/
theorem handleCmd_reads_on : ¬∀ (stream : List UInt8)
    (c : Conn (Transfer (UInt32 → Mem) (UInt32 × UInt64)) (TransferResult (UInt32 → Mem)) Request
      (DevData (UInt32 → Mem) (UInt32 × UInt64))),
    (serve (nfpCppDevHandleCmdCalls memDev) stream).Reachable c →
      requestFormat.Follows stream (serve (nfpCppDevHandleCmdCalls memDev) stream) c := by
  intro hall
  have hstart : (serve (nfpCppDevHandleCmdCalls memDev) (u64Bytes opPread)).Reachable
      ⟨nfpCppDevHandleCmdCalls memDev ⟨[], fun _ _ => 0⟩, u64Bytes opPread, [], [], []⟩ :=
    .init ⟨_, rfl⟩
  have hop := hstart.step (serve_readWord [] ⟨(List.append_nil _).symm, le_rfl, nofun⟩)
  rw [if_pos (by decide)] at hop
  -- the stream is over, and the words of the range are what `tmp` held
  have hcount := hop.step (serve_readWord _ (Cut.nil 8))
  have hoffset := hcount.step (serve_readWord _ (Cut.nil 8))
  have hread := hoffset.step (serve_perform _ _ _ _ _ _)
  obtain ⟨heard, hstream, hbytes⟩ := (hall _ _ hread).received
  have hheard : heard.length ≤ 8 := by
    have hlen := congrArg List.length hstream
    rw [List.length_append, length_u64Bytes] at hlen
    omega
  have hlong : 24 ≤ heard.length := hbytes.length_le
  omega

end Serve

end NfpUdpEcho
