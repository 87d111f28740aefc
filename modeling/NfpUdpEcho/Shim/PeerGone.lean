import NfpUdpEcho.Framework.Stream
import NfpUdpEcho.Server.SysCalls
import NfpUdpEcho.Server.TransferEnds
import NfpUdpEcho.Shim.Refinement
import NfpUdpEcho.Shim.SysCalls

/-!
# When the peer goes away

The server reads a request, and a `pread` of the shim its reply, from a stream that ends: the
peer has closed the connection. `transfersEnd_iff` says for each delivery of such a stream
whether the two return.

Along the header nothing is looped over, so that the delivery determines the words that are read:
a word that comes short keeps the end of what `tmp` held. What is left are the loops. Those over
a payload do not stop at the end of the stream, so the payload that the header announces has to
be there. Those of the transfer end unless a position cannot count the first segment and no
operation fails (`devRead_returns_iff`, `devWrite_returns_iff`).
-/

namespace NfpUdpEcho

open Socket ByteMem LittleEndian

/-- The request that the server reads, and what is left of the stream. -/
structure Header where
  op : UInt64
  count : UInt64
  offset : UInt64
  rest : List UInt8

/-- A word that is read over what its variable holds. -/
def wordRead (d : Delivery) (tmp input : List UInt8) : List UInt8 :=
  overwrite tmp (d.piece 8 input)

/-- The header of a transfer; its three words are read into one variable. -/
def headerRead (d : Delivery) (tmp input : List UInt8) : Header :=
  let op := wordRead d tmp input
  let input := d.rest 8 input
  let count := wordRead d op input
  let input := d.rest 8 input
  let offset := wordRead d count input
  ⟨u64OfBytes op, u64OfBytes count, u64OfBytes offset, d.rest 8 input⟩

section Ends

variable {σ α : Type}

/-- The loops of a read can count its first segment, and the payload of a write is in the stream
and its loops can count it; or an operation of the transfer fails. -/
def ServerEnds (dev : CppDev σ α) (data : DevData σ α) (d : Delivery) (input : List UInt8) :
    Prop :=
  let header := headerRead d ((dev.garbage .tmp data.world).load 0 8) input
  let buf := dev.garbage .buf data.world
  let tmpbuf := dev.garbage .tmpbuf data.world
  (header.op = opPread → (firstLength header.count header.offset).toNat < 2 ^ 32 ∨
    ¬NoReadFails dev.ops header.offset
      (readEntry header.count header.offset buf tmpbuf data.world)) ∧
  (header.op = opPwrite → header.count.toNat ≤ header.rest.length ∧
    (header.count.toNat < 2 ^ 32 ∨
      ¬NoWriteFails dev.ops header.offset (writeEntry header.count header.offset 0
        (buf.store 0 (header.rest.take header.count.toNat)) tmpbuf data.world)))

/-- The payload that the status announces is in the stream, if the call comes to read one. -/
def ShimEnds (count offset : UInt64) (d : Delivery) (input : List UInt8) : Prop :=
  let status := d.piece 8 input
  isShort (d.wrote 0 (u64Bytes opPread)) 8 = false →
    isShort (d.wrote 1 (u64Bytes count)) 8 = false →
    isShort (d.wrote 2 (u64Bytes offset)) 8 = false → status.length = 8 →
    ¬asInt (u64OfBytes status) < 0 → 8 + (u64OfBytes status).toNat ≤ input.length

/-- The server returns from its command, and the shim from a `pread`. -/
def TransfersEnd (dev : CppDev σ α) (data : DevData σ α) (d : Delivery) (input : List UInt8)
    (buf : Mem) (count offset : UInt64) (d' : Delivery) (input' : List UInt8) : Prop :=
  d.Ends ⟨nfpCppDevHandleCmdCalls dev data, input, 0⟩ ∧
    d'.Ends ⟨Shim.preadCalls buf count offset, input', 0⟩

end Ends

/-! ### The server -/

section Server

variable {σ α : Type} {dev : CppDev σ α} {data : DevData σ α} {d : Delivery} {i : ℕ}
  {tmp bytes input : List UInt8} {k : ServerSock σ α} {ks : List UInt8 → ServerSock σ α}
  {count offset : UInt64}

theorem ends_readWord : d.Ends ⟨readWord tmp data ks, input, i⟩ ↔
    d.Ends ⟨ks (wordRead d tmp input), d.rest 8 input, i⟩ := Delivery.ends_read

theorem ends_readArg {garbage : Mem} {size : ℕ} (h : ∀ arg input, d.Ends ⟨ks arg, input, i⟩) :
    d.Ends ⟨readArg garbage size data ks, input, i⟩ := by
  rw [readArg, Delivery.ends_read]
  split
  · exact d.ends_ret _ _ _
  · exact h _ _

/-- A call that fails ends the command. -/
theorem ends_sendReply (h : ∀ i, d.Ends ⟨k, input, i⟩) (i : ℕ) :
    d.Ends ⟨sendReply bytes data k, input, i⟩ := by
  rw [sendReply, Delivery.ends_write]
  split
  · exact d.ends_ret _ _ _
  · exact h _

theorem ends_sendError (err : ℤ) : d.Ends ⟨sendError err data, input, i⟩ := by
  rw [sendError, Delivery.ends_write]
  split
  · exact d.ends_ret _ _ _
  · exact d.ends_ret _ _ _

theorem IsReply.ends (h : IsReply k) (i : ℕ) : d.Ends ⟨k, input, i⟩ := by
  induction h generalizing i with
  | done data => exact d.ends_ret _ _ _
  | send _ ih => exact ends_sendReply ih i

/-- An `ioctl` waits for nothing once the stream is over. -/
theorem nfpCppDevIoctlCalls_ends (request : UInt64) :
    d.Ends ⟨nfpCppDevIoctlCalls dev data request, input, i⟩ := by
  rcases nfpCppDevIoctlCalls_cases dev data request with
    ⟨-, hcalls⟩ | ⟨arg, size, reply, -, hreply, hcalls⟩
  · rw [hcalls]
    exact d.ends_ret _ _ _
  · rw [hcalls]
    exact ends_readArg fun arg input => Delivery.ends_perform.mpr ((hreply arg).ends i)

theorem ends_readCalls : d.Ends ⟨nfpCppDevReadCalls dev data count offset, input, i⟩ ↔
    ∃ r, Loop.Returns (devRead dev.ops offset) (readEntry count offset
      (dev.garbage .buf data.world) (dev.garbage .tmpbuf data.world) data.world) r := by
  rw [nfpCppDevReadCalls, Delivery.ends_perform, Delivery.ends_loop]
  refine ⟨fun h => h.imp fun r hr => hr.1, fun h => h.imp fun r hr => ⟨hr, ?_⟩⟩
  -- behind the loops there are only writes
  dsimp only
  cases r.status with
  | ok totlen =>
    refine ends_sendReply (fun i => ?_) i
    exact Delivery.ends_writeAll (fun i => d.ends_ret _ _ i) (fun i => d.ends_ret _ _ i) i
  | error err => exact ends_sendError err

theorem ends_writeCalls : d.Ends ⟨nfpCppDevWriteCalls dev data count offset, input, i⟩ ↔
    count.toNat ≤ input.length ∧ ∃ r, Loop.Returns (devWrite dev.ops offset)
      (writeEntry count offset 0 ((dev.garbage .buf data.world).store 0 (input.take count.toNat))
        (dev.garbage .tmpbuf data.world) data.world) r := by
  refine Delivery.ends_readRest.trans (and_congr_right fun _ => ?_)
  rw [Delivery.ends_perform, Delivery.ends_loop]
  refine ⟨fun h => h.imp fun r hr => hr.1, fun h => h.imp fun r hr => ⟨hr, ?_⟩⟩
  dsimp only
  cases r.status with
  | ok totlen => exact ends_sendReply (fun i => d.ends_ret _ _ i) i
  | error err => exact ends_sendError err

/-- **When the server returns**: whatever the request is, only the loops of a transfer decide. -/
theorem serverEnds_iff (dev : CppDev σ α) (data : DevData σ α) (d : Delivery)
    (input : List UInt8) (i : ℕ) :
    d.Ends ⟨nfpCppDevHandleCmdCalls dev data, input, i⟩ ↔ ServerEnds dev data d input := by
  unfold ServerEnds headerRead
  rw [nfpCppDevHandleCmdCalls, ends_readWord]
  dsimp only
  split
  next hpread =>
    have hnot : u64OfBytes (wordRead d ((dev.garbage .tmp data.world).load 0 8) input) ≠
        opPwrite := by
      rw [hpread]
      decide
    rw [ends_readWord, ends_readWord, ends_readCalls, devRead_returns_iff]
    exact ⟨fun h => ⟨fun _ => h, fun hop => absurd hop hnot⟩, fun h => h.1 hpread⟩
  next hread =>
    split
    next hpwrite =>
      rw [ends_readWord, ends_readWord, ends_writeCalls, devWrite_returns_iff]
      exact ⟨fun h => ⟨fun hop => absurd hop hread, fun _ => h⟩, fun h => h.2 hpwrite⟩
    next hwrite =>
      refine iff_of_true ?_ ⟨fun hop => absurd hop hread, fun hop => absurd hop hwrite⟩
      split
      · exact ends_readWord.mpr (nfpCppDevIoctlCalls_ends _)
      · exact d.ends_ret _ _ _

end Server

/-! ### The shim -/

section Shim

variable {d : Delivery} {i : ℕ} {mem : Option Mem} {word temp : UInt64} {input : List UInt8}
  {k : ShimSock} {ks : UInt64 → ShimSock}

/-- A call that is cut short ends the function, one that fails is taken for one that sent the
word. -/
theorem ends_sendWord : d.Ends ⟨Shim.sendWord word mem k, input, i⟩ ↔
    (isShort (d.wrote i (u64Bytes word)) 8 = false → d.Ends ⟨k, input, i + 1⟩) := by
  rw [Shim.sendWord, Delivery.ends_write]
  cases hshort : isShort (d.wrote i (u64Bytes word)) 8 with
  | true => exact iff_of_true (d.ends_ret _ _ _) nofun
  | false => exact ⟨fun h _ => h, fun h => h rfl⟩

theorem ends_readStatus : d.Ends ⟨Shim.readStatus temp mem ks, input, i⟩ ↔
    ((d.piece 8 input).length = 8 →
      d.Ends ⟨ks (u64OfBytes (d.piece 8 input)), d.rest 8 input, i⟩) := by
  rw [Shim.readStatus, Delivery.ends_read]
  have hle := (d.piece_cut 8 input).length_le
  rw [Option.map_some, isShort_some]
  by_cases hlen : (d.piece 8 input).length = 8
  · rw [if_neg (by rw [hlen]; decide)]
    exact ⟨fun h _ => h, fun h => h hlen⟩
  · -- a status that comes short ends the call
    rw [if_pos (by rw [decide_eq_true_eq]; omega)]
    exact iff_of_true (d.ends_ret _ _ _) fun h => absurd h hlen

theorem shimEnds_iff (buf : Mem) (count offset : UInt64) (d : Delivery) (input : List UInt8) :
    d.Ends ⟨Shim.preadCalls buf count offset, input, 0⟩ ↔ ShimEnds count offset d input := by
  unfold ShimEnds
  rw [Shim.preadCalls, ends_sendWord, ends_sendWord, ends_sendWord, ends_readStatus]
  -- with a request that went out and a status that came whole
  refine forall_congr' fun _ => forall_congr' fun _ => forall_congr' fun _ =>
    forall_congr' fun hlen => ?_
  by_cases hneg : asInt (u64OfBytes (d.piece 8 input)) < 0
  · rw [if_pos hneg]
    exact iff_of_true (d.ends_ret _ _ _) fun hnot => absurd hneg hnot
  · -- the payload has to be behind the 8 bytes of the status
    have hrest := (d.piece_cut 8 input).length_eq
    rw [if_neg hneg, Sock.readAll, Delivery.ends_readRest, forall_prop_of_true hneg,
      and_iff_left (d.ends_ret _ _ _)]
    omega

end Shim

/-! ### Both -/

section Both

variable {σ α : Type}

/-- **A server and a client whose peer has gone return** exactly when every payload that they
come to read is in the stream, and a position can count the segments or an operation fails. -/
theorem transfersEnd_iff (dev : CppDev σ α) (data : DevData σ α) (d : Delivery)
    (input : List UInt8) (buf : Mem) (count offset : UInt64) (d' : Delivery)
    (input' : List UInt8) :
    TransfersEnd dev data d input buf count offset d' input' ↔
      ServerEnds dev data d input ∧ ShimEnds count offset d' input' :=
  and_congr (serverEnds_iff dev data d input 0) (shimEnds_iff buf count offset d' input')

/-- Words come whole, and a payload byte by byte. -/
def bytewise : Delivery := ⟨fun left => if left ≤ 2 then 1 else 8, fun _ => some 8⟩

/-- A write of two bytes, and a read of two. -/
theorem transfersEnd_two : TransfersEnd memDev ⟨[], fun _ _ => 0⟩ bytewise
    (u64Bytes opPwrite ++ (u64Bytes 2 ++ (u64Bytes 8 ++ [5, 7]))) 0 2 8 bytewise
    (u64Bytes 2 ++ [5, 7]) :=
  (transfersEnd_iff memDev ⟨[], fun _ _ => 0⟩ bytewise _ 0 2 8 bytewise _).mpr
    ⟨⟨fun _ => .inl (by decide +kernel), fun _ => ⟨by decide +kernel, .inl (by decide +kernel)⟩⟩,
      fun _ _ _ _ _ => by decide +kernel⟩

/-- The header of a write of one byte, whose client then went away. -/
theorem transfers_hang : ¬∀ input, bytewise.Ends
    ⟨nfpCppDevHandleCmdCalls memDev ⟨[], fun _ _ => 0⟩, input, 0⟩ := by
  intro hall
  have hends := (serverEnds_iff _ _ _ _ _).mp
    (hall (u64Bytes opPwrite ++ (u64Bytes 1 ++ u64Bytes 0)))
  -- the byte that it announces is not there
  obtain ⟨hle, -⟩ := hends.2 (by decide +kernel)
  exact absurd hle (by decide +kernel)

end Both

end NfpUdpEcho
