import NfpUdpEcho.Framework.Twin
import NfpUdpEcho.Server.BarLocks
import NfpUdpEcho.Server.SysCalls
import NfpUdpEcho.Server.TransferTwin

/-!
# What was in memory before

The commands of the server leave their variables and buffers uninitialised. Two runs of a command
that differ in what was there, against the same answers of the socket, are to send the same.

They do but for the leaks of `Leaks`. An identification is sent whole, also where the client has
asked for less and the rest was not filled. The first word of a command is taken for one that came
whole when only a part of it has come. And an `ioctl` whose argument could not be read goes on with
what was there, since -1 passes as a size: what it echoes of it is seen by whoever takes it, and
so is its status when that is not the same for every argument. `noLeftover_iff` says that these are
the only ones.

Each direction is a relation between the two runs of one command. `SendsAlike` is kept by every
construct as long as what goes on is the same, and a command is walked through by its constructs
(`readCalls_alike`, `writeCalls_alike`, `ioctlCalls_alike`): at each point where garbage could be
sent, the answers that would send it are a case of `Leaks`. `SendsApart` says that the two runs
cannot send the same, and for each case of `Leaks` two memories are given whose bytes are told apart
by what the client takes (`ioctl_apart`, `opcode_apart`).

The transfers need no case: what was in their buffers is overwritten before it is looked at
(`ReadTwin`, `WriteTwin`).
-/

namespace NfpUdpEcho

open Duplex Socket ByteMem LittleEndian Errno

variable {σ α : Type}

/-! ### Commands -/

/-- The same machine, with something else in its memory. -/
def CppDev.withGarbage (dev : CppDev σ α) (garbage : Local → σ → Mem) : CppDev σ α :=
  { dev with garbage := garbage }

/-- The bytes of the identification that are filled, by the size that was asked for. -/
def identFilled (size : UInt32) : ℕ :=
  if size ≥ 20 then 20 else if size ≥ 12 then 12 else if size ≥ 8 then 8 else 4

/-- The words of `enum op_type` that are known. -/
def IsOp (op : UInt64) : Prop := op = opPread ∨ op = opPwrite ∨ op = opIoctl

/-- The requests that send their argument back. -/
def Echoes (request : UInt64) : Prop :=
  request = nfpIoctlCppIdentification ∨ request = nfpIoctlCppAreaRequest ∨
    request = nfpIoctlCppExplRequest

/-- The status of the requests for which it may depend on the argument. -/
def ioctlStatus (dev : CppDev σ α) (data : DevData σ α) (request : UInt64) (arg : List UInt8) : ℤ :=
  if request = nfpIoctlCppAreaRequest then
    (doCppAreaRequest (dev.malloc data.world)
      (fun areaReq => dev.ops.areaAlloc areaReq.cppId areaReq.cppAddr areaReq.size)
      dev.interface.toUInt16 (.ofBytes arg) data.list data.world).1
  else if request = nfpIoctlCppAreaRelease then
    (doCppAreaRelease dev.ops.areaFree (.ofBytes arg) data.list data.world).1
  else 0

/-- The status is not the same for every argument. -/
def StatusVaries (dev : CppDev σ α) (data : DevData σ α) (request : UInt64) : Prop :=
  ∃ arg arg', arg.length = areaRequestSize ∧ arg'.length = areaRequestSize ∧
    ioctlStatus dev data request arg ≠ ioctlStatus dev data request arg'

/-- Answers to an `ioctl` with which something that nobody has written is sent. -/
inductive IoctlLeaks (dev : CppDev σ α) (data : DevData σ α) (request : UInt64) :
    List Move → Prop where
  /-- The client takes more of the identification than was filled. -/
  | identification {arg : List UInt8} {r : Option ℕ} {m : ℕ} {moves : List Move} :
      request = nfpIoctlCppIdentification → identFilled (u32OfBytes arg) < m →
      IoctlLeaks dev data request
        (.got (some arg) :: .compute :: .wrote r :: .wrote (some m) :: moves)
  /-- The argument could not be read, and the client takes it back. -/
  | echo {r : Option ℕ} {m : ℕ} {moves : List Move} : Echoes request → 0 < m →
      IoctlLeaks dev data request (.got none :: .compute :: .wrote r :: .wrote (some m) :: moves)
  /-- The argument could not be read, and the client takes a status that depends on it. -/
  | status {m : ℕ} {moves : List Move} : StatusVaries dev data request → 0 < m →
      IoctlLeaks dev data request (.got none :: .compute :: .wrote (some m) :: moves)

/-- Answers to a command with which something that nobody has written is looked at or sent. -/
inductive Leaks (dev : CppDev σ α) (data : DevData σ α) : List Move → Prop where
  /-- The first word comes short, and what was in memory may make an operation of it. -/
  | opcode {bytes : List UInt8} {op : UInt64} {moves : List Move} : bytes.length < 8 → IsOp op →
      bytes <+: u64Bytes op → Leaks dev data (.got (some bytes) :: moves)
  | ioctl {op request : List UInt8} {moves : List Move} : op.length = 8 → u64OfBytes op = opIoctl →
      IoctlLeaks dev data (u64OfBytes (overwrite op request)) moves →
      Leaks dev data (.got (some op) :: .got (some request) :: moves)

variable {dev : CppDev σ α} {data data' : DevData σ α} {garbage : Local → σ → Mem}
  {moves : List Move} {mv : Move} {count offset request : UInt64} {r : Option ℕ} {m : ℕ}
  {bytes bytes' tmp tmp' arg : List UInt8} {mem mem' : Mem} {size : ℕ} {k k' : ServerSock σ α}
  {ks ks' : List UInt8 → ServerSock σ α}

/-- A read sends what it has read, and nothing of what was in its buffer. -/
theorem readCalls_alike (hops : dev.ops.Overwrites) (moves : List Move) :
    SendsAlike moves (nfpCppDevReadCalls dev data count offset)
      (nfpCppDevReadCalls (dev.withGarbage garbage) data count offset) := by
  refine .perform fun rest _ => .loop (R := ReadTwin) (S := ReadResultTwin)
    (fun x y h => h.step hops) ?_ ⟨rfl, rfl, fun k hk => absurd hk (Nat.not_lt_zero k)⟩
  rintro ⟨status, buf, world⟩ ⟨status', buf', world'⟩ ⟨⟨hstatus, hworld⟩, hbuf⟩
  obtain rfl : status' = status := hstatus
  obtain rfl : world' = world := hworld
  cases status' with
  | ok totlen =>
    dsimp only
    -- what has been read is sent, up to its length
    rw [(hbuf totlen rfl).load]
  | error err => rfl

/-- A write sends a count only. -/
theorem writeCalls_alike (hops : dev.ops.Overwrites) (moves : List Move) :
    SendsAlike moves (nfpCppDevWriteCalls dev data count offset)
      (nfpCppDevWriteCalls (dev.withGarbage garbage) data count offset) := by
  -- the payload has come whole, or the command has ended
  refine SendsAlike.readRest fun rest bytes hlen => ?_
  have hlen' : bytes.length = count.toNat := hlen.trans (Nat.zero_add _)
  refine .perform fun rest _ => .loop (R := WriteTwin count) (S := WriteResultTwin)
    (fun x y h => h.step hops) ?_ ⟨rfl, Nat.zero_add _, le_rfl, Nat.zero_le _, ?_⟩
  · rintro ⟨status, buf, world⟩ ⟨status', buf', world'⟩ ⟨hstatus, hworld⟩
    obtain rfl : status' = status := hstatus
    obtain rfl : world' = world := hworld
    cases status' with
    | ok totlen => rfl
    | error err => rfl
  · rw [← hlen']
    exact agree_store _ _ bytes

/-- A word is read into a variable. -/
theorem readWord_alike
    (h : ∀ bytes rest, moves = .got (some bytes) :: rest → bytes.length ≤ 8 →
      SendsAlike rest (ks (overwrite tmp bytes)) (ks' (overwrite tmp' bytes))) :
    SendsAlike moves (readWord tmp data ks) (readWord tmp' data' ks') := by
  refine .read fun r rest hmoves hle => ?_
  cases r with
  | none => exact .ret rest _ _
  | some bytes => exact h bytes rest hmoves (hle bytes rfl)

/-- An argument is read: it is the same when it comes, and garbage when the read fails. -/
theorem readArg_alike
    (h : ∀ arg rest, moves = .got (some arg) :: rest → arg.length = size →
      SendsAlike rest (ks arg) (ks' arg))
    (h_fail : ∀ arg arg' rest, moves = .got none :: rest → arg.length = size →
      arg'.length = size → SendsAlike rest (ks arg) (ks' arg')) :
    SendsAlike moves (readArg mem size data ks) (readArg mem' size data' ks') := by
  refine .read fun r rest hmoves hle => ?_
  cases r with
  -- -1 is not short
  | none => exact h_fail _ _ rest hmoves (Mem.length_load _ 0 size) (Mem.length_load _ 0 size)
  | some arg =>
    -- the command ends, or the argument leaves nothing of what was there
    by_cases hshort : arg.length < size
    · rw [Option.map_some, isShort_some, decide_eq_true hshort]
      exact .ret rest _ _
    · obtain rfl := Nat.le_antisymm (hle arg rfl) (not_lt.mp hshort)
      rw [Option.map_some, isShort_some, decide_eq_false hshort]
      show SendsAlike rest (ks ((mem.store 0 arg).load 0 arg.length))
        (ks' ((mem'.store 0 arg).load 0 arg.length))
      rw [Mem.load_store, Mem.load_store]
      exact h arg rest hmoves rfl

/-- Two replies of the same length, of which the same is taken. -/
theorem sendReply_alike (hlen : bytes.length = bytes'.length)
    (h : ∀ r rest, moves = .wrote r :: rest → taken bytes r = taken bytes' r)
    (hk : ∀ r rest, moves = .wrote r :: rest → SendsAlike rest k k') :
    SendsAlike moves (sendReply bytes data k) (sendReply bytes' data' k') := by
  refine .write hlen fun r rest hmoves => ⟨h r rest hmoves, ?_⟩
  rw [hlen]
  split
  next => exact .ret rest _ _
  next => exact hk r rest hmoves

/-- What is taken is the same when it is nothing. -/
theorem taken_congr (h : ∀ m ∈ r, 0 < m → bytes = bytes') : taken bytes r = taken bytes' r := by
  cases r with
  | none => rfl
  | some m =>
    rcases Nat.eq_zero_or_pos m with rfl | hpos
    · rfl
    · rw [h m rfl hpos]

/-! ### The identification -/

/-- A member that is not filled is sent as it is in memory. -/
theorem u32Bytes_load (mem : Mem) (src : ℕ) :
    u32Bytes (u32OfBytes (mem.load src 4)) = mem.load src 4 :=
  u32Bytes_u32OfBytes (Mem.length_load mem src 4)

/-- `do_cpp_identification`, by the size that was asked for. -/
theorem doCppIdentification_cases (dev : CppDev σ α) (size : UInt32) (s : σ) :
    ∃ serialLo serialHi, ∀ ident : NfpCppIdentification, ident.size = size →
      doCppIdentification dev ident s =
        if size ≥ 20 then
          (⟨20, (dev.model s).1, dev.interface, serialLo, serialHi⟩, (dev.model s).2)
        else if size ≥ 12 then
          (⟨12, (dev.model s).1, dev.interface, ident.serialLo, ident.serialHi⟩, (dev.model s).2)
        else if size ≥ 8 then
          (⟨8, (dev.model s).1, ident.interface, ident.serialLo, ident.serialHi⟩, (dev.model s).2)
        else (⟨4, ident.model, ident.interface, ident.serialLo, ident.serialHi⟩, s) := by
  refine ⟨((dev.serial 2).toUInt32 <<< 24) ||| ((dev.serial 3).toUInt32 <<< 16) |||
    ((dev.serial 4).toUInt32 <<< 8) ||| (dev.serial 5).toUInt32,
    ((dev.serial 0).toUInt32 <<< 8) ||| (dev.serial 1).toUInt32, fun ident hsize => ?_⟩
  subst hsize
  -- the three tests are of one size, so that each implies the next
  have h12_of_20 : ident.size ≥ 20 → ident.size ≥ 12 := by
    rw [ge_iff_le, ge_iff_le, UInt32.le_iff_toNat_le, UInt32.le_iff_toNat_le]
    exact le_trans (by decide)
  have h8_of_12 : ident.size ≥ 12 → ident.size ≥ 8 := by
    rw [ge_iff_le, ge_iff_le, UInt32.le_iff_toNat_le, UInt32.le_iff_toNat_le]
    exact le_trans (by decide)
  unfold doCppIdentification
  by_cases h20 : ident.size ≥ 20
  · have h12 := h12_of_20 h20
    simp only [if_pos h20, if_pos h12, if_pos (h8_of_12 h12)]
  · by_cases h12 : ident.size ≥ 12
    · simp only [if_neg h20, if_pos h12, if_pos (h8_of_12 h12)]
    · by_cases h8 : ident.size ≥ 8
      · simp only [if_neg h20, if_neg h12, if_pos h8]
      · simp only [if_neg h20, if_neg h12, if_neg h8]

/-- What is sent of an identification: first what is filled, then what was in memory. -/
theorem doCppIdentification_bytes (dev : CppDev σ α) (size : UInt32) (world : σ) :
    ∃ filled world', filled.length = identFilled size ∧ ∀ mem,
      (doCppIdentification dev (identGarbage mem size) world).2 = world' ∧
      (doCppIdentification dev (identGarbage mem size) world).1.bytes =
        filled ++ mem.load (identFilled size) (identificationSize - identFilled size) := by
  obtain ⟨serialLo, serialHi, hident⟩ := doCppIdentification_cases dev size world
  have hcases := fun mem => hident (identGarbage mem size) rfl
  unfold identFilled
  split
  -- all of it
  next h20 =>
    refine ⟨NfpCppIdentification.bytes ⟨20, (dev.model world).1, dev.interface, serialLo, serialHi⟩,
      (dev.model world).2, NfpCppIdentification.length_bytes _, fun mem => ?_⟩
    rw [hcases, if_pos h20]
    exact ⟨rfl, (List.append_nil _).symm⟩
  next h20 =>
  split
  next h12 =>
    refine ⟨u32Bytes 12 ++ u32Bytes (dev.model world).1 ++ u32Bytes dev.interface,
      (dev.model world).2, by simp, fun mem => ?_⟩
    rw [hcases, if_neg h20, if_pos h12]
    refine ⟨rfl, ?_⟩
    simp only [NfpCppIdentification.bytes, identGarbage, u32Bytes_load, List.append_assoc]
    rw [Mem.load_append mem 12 4 4]
    rfl
  next h12 =>
  split
  next h8 =>
    refine ⟨u32Bytes 8 ++ u32Bytes (dev.model world).1, (dev.model world).2, by simp,
      fun mem => ?_⟩
    rw [hcases, if_neg h20, if_neg h12, if_pos h8]
    refine ⟨rfl, ?_⟩
    simp only [NfpCppIdentification.bytes, identGarbage, u32Bytes_load, List.append_assoc]
    rw [Mem.load_append mem 12 4 4, Mem.load_append mem 8 4 8]
    rfl
  next h8 =>
    refine ⟨u32Bytes 4, world, by simp, fun mem => ?_⟩
    rw [hcases, if_neg h20, if_neg h12, if_neg h8]
    refine ⟨rfl, ?_⟩
    simp only [NfpCppIdentification.bytes, identGarbage, u32Bytes_load, List.append_assoc]
    rw [Mem.load_append mem 12 4 4, Mem.load_append mem 8 4 8, Mem.load_append mem 4 4 12]
    rfl

/-- What is taken of an identification is the same while it is filled. -/
theorem taken_identification {mem mem' : Mem} {size : UInt32} {r : Option ℕ} {world : σ}
    (h : ∀ m ∈ r, m ≤ identFilled size) :
    taken (doCppIdentification dev (identGarbage mem size) world).1.bytes r =
      taken (doCppIdentification dev (identGarbage mem' size) world).1.bytes r := by
  obtain ⟨filled, world', hlength, hbytes⟩ := doCppIdentification_bytes dev size world
  -- the two differ behind what is filled
  rw [(hbytes mem).2, (hbytes mem').2]
  cases r with
  | none => rfl
  | some m =>
    have hle : m ≤ filled.length := hlength ▸ h m rfl
    rw [taken, taken, List.take_append_of_le_length hle, List.take_append_of_le_length hle]

/-! ### The ioctls

An argument that has come is the same in both runs. One that could not be read is what was in
memory, and the rest of the command may send the status for it and the argument itself. -/

/-- An identification. -/
theorem identificationCalls_alike (h : ¬IoctlLeaks dev data nfpIoctlCppIdentification moves) :
    SendsAlike moves (ioctlCppIdentificationCalls dev data)
      (ioctlCppIdentificationCalls (dev.withGarbage garbage) data) := by
  have hident : ∀ ident ident' : NfpCppIdentification, ident.bytes.length = ident'.bytes.length :=
    fun ident ident' => ident.length_bytes.trans ident'.length_bytes.symm
  unfold ioctlCppIdentificationCalls
  -- the size has come, or it is garbage
  refine readArg_alike (fun arg rest h₀ _ => ?_) fun arg arg' rest h₀ _ _ => ?_
  all_goals
    refine .perform fun rest₁ h₁ => sendReply_alike rfl (fun _ _ _ => rfl) fun r rest₂ h₂ => ?_
  · -- the size has come: what is filled is the same
    refine sendReply_alike (hident _ _) (fun r' rest₃ h₃ => ?_) fun _ rest₃ _ => .ret rest₃ _ _
    -- more than that would be a leak
    refine taken_identification fun m hm => not_lt.mp fun hlong => h ?_
    rw [h₀, h₁, h₂, h₃, Option.mem_def.mp hm]
    exact .identification rfl hlong
  · refine sendReply_alike (hident _ _) (fun r' rest₃ h₃ => ?_) fun _ rest₃ _ => .ret rest₃ _ _
    refine taken_congr fun m hm hpos => absurd ?_ h
    rw [h₀, h₁, h₂, h₃, Option.mem_def.mp hm]
    exact .echo (.inl rfl) hpos

/-- A status that does not depend on the argument. -/
theorem status_eq (h : ¬StatusVaries dev data request) {arg arg' : List UInt8}
    (harg : arg.length = areaRequestSize) (harg' : arg'.length = areaRequestSize) :
    ioctlStatus dev data request arg = ioctlStatus dev data request arg' := by
  by_contra hne
  exact h ⟨arg, arg', harg, harg', hne⟩

/-- A request for an area sends its status and, with the offset, its argument. -/
theorem areaRequestCalls_alike (h : ¬IoctlLeaks dev data nfpIoctlCppAreaRequest moves) :
    SendsAlike moves (ioctlAreaRequestCalls dev data)
      (ioctlAreaRequestCalls (dev.withGarbage garbage) data) := by
  refine readArg_alike (fun arg rest _ _ => .refl rest _) fun arg arg' rest h₀ harg harg' => ?_
  refine .perform fun rest₁ h₁ => ?_
  refine sendReply_alike (by simp) (fun r rest₂ h₂ => ?_) fun r rest₂ h₂ => ?_
  -- the status: the same for both arguments, or the client takes nothing
  · refine taken_congr fun m hm hpos => ?_
    have hsame : ¬StatusVaries dev data nfpIoctlCppAreaRequest := fun hvaries => h (by
      rw [h₀, h₁, h₂, Option.mem_def.mp hm]
      exact .status hvaries hpos)
    exact congrArg (fun err => u64Bytes (statusWord err)) (status_eq hsame harg harg')
  · refine sendReply_alike ?_ (fun r' rest₃ h₃ => ?_) fun _ rest₃ _ => .ret rest₃ _ _
    -- the argument: the client takes nothing of it
    · rw [length_setOffset harg, length_setOffset harg']
    · refine taken_congr fun m hm hpos => absurd ?_ h
      rw [h₀, h₁, h₂, h₃, Option.mem_def.mp hm]
      exact .echo (.inr (.inl rfl)) hpos

/-- A release sends its status alone. -/
theorem areaReleaseCalls_alike (h : ¬IoctlLeaks dev data nfpIoctlCppAreaRelease moves) :
    SendsAlike moves (ioctlAreaReleaseCalls dev data)
      (ioctlAreaReleaseCalls (dev.withGarbage garbage) data) := by
  refine readArg_alike (fun arg rest _ _ => .refl rest _) fun arg arg' rest h₀ harg harg' => ?_
  refine .perform fun rest₁ h₁ => ?_
  refine sendReply_alike (by simp) (fun r rest₂ h₂ => ?_) fun _ rest₂ _ => .ret rest₂ _ _
  refine taken_congr fun m hm hpos => ?_
  have hsame : ¬StatusVaries dev data nfpIoctlCppAreaRelease := fun hvaries => h (by
    rw [h₀, h₁, h₂, Option.mem_def.mp hm]
    exact .status hvaries hpos)
  exact congrArg (fun err => u64Bytes (statusWord err)) (status_eq hsame harg harg')

/-- An explicit request sends a fixed status and its argument. -/
theorem explRequestCalls_alike (h : ¬IoctlLeaks dev data nfpIoctlCppExplRequest moves) :
    SendsAlike moves (ioctlExplRequestCalls dev data)
      (ioctlExplRequestCalls (dev.withGarbage garbage) data) := by
  refine readArg_alike (fun arg rest _ _ => .refl rest _) fun arg arg' rest h₀ harg harg' => ?_
  refine .perform fun rest₁ h₁ => sendReply_alike rfl (fun _ _ _ => rfl) fun r rest₂ h₂ => ?_
  refine sendReply_alike (harg.trans harg'.symm) (fun r' rest₃ h₃ => ?_)
    fun _ rest₃ _ => .ret rest₃ _ _
  refine taken_congr fun m hm hpos => absurd ?_ h
  rw [h₀, h₁, h₂, h₃, Option.mem_def.mp hm]
  exact .echo (.inr (.inr rfl)) hpos

/-- An `ioctl` is one of the four, or it is refused. -/
theorem ioctlCalls_alike (h : ¬IoctlLeaks dev data request moves) :
    SendsAlike moves (nfpCppDevIoctlCalls dev data request)
      (nfpCppDevIoctlCalls (dev.withGarbage garbage) data request) := by
  unfold nfpCppDevIoctlCalls
  split
  next hrequest => exact identificationCalls_alike (hrequest ▸ h)
  next =>
  split
  next hrequest => exact areaRequestCalls_alike (hrequest ▸ h)
  next =>
  split
  next hrequest => exact areaReleaseCalls_alike (hrequest ▸ h)
  next =>
  split
  next hrequest => exact explRequestCalls_alike (hrequest ▸ h)
  next => exact .ret moves _ _

/-! ### The opcode

The first word is read into `tmp`, and what has not come of it is left as it was. A short word is an
operation only if the memory completes it. -/

/-- What follows the first word. -/
def afterOpcode (dev : CppDev σ α) (data : DevData σ α) (tmp : List UInt8) : ServerSock σ α :=
  if u64OfBytes tmp = opPread then
    readWord tmp data fun count =>
    readWord count data fun offset =>
    nfpCppDevReadCalls dev data (u64OfBytes count) (u64OfBytes offset)
  else if u64OfBytes tmp = opPwrite then
    readWord tmp data fun count =>
    readWord count data fun offset =>
    nfpCppDevWriteCalls dev data (u64OfBytes count) (u64OfBytes offset)
  else if u64OfBytes tmp = opIoctl then
    readWord tmp data fun request =>
    nfpCppDevIoctlCalls dev data (u64OfBytes request)
  else .ret (-1, data)

/-- A command reads its first word. -/
theorem handleCmd_afterOpcode (dev : CppDev σ α) (data : DevData σ α) :
    nfpCppDevHandleCmdCalls dev data =
      readWord ((dev.garbage .tmp data.world).load 0 8) data (afterOpcode dev data) := rfl

/-- An operation reads a second one. -/
theorem afterOpcode_isOp (dev : CppDev σ α) (data : DevData σ α) (h : IsOp (u64OfBytes tmp)) :
    ∃ kr, afterOpcode dev data tmp = .read 8 kr := by
  unfold afterOpcode
  rcases h with h | h | h
  · exact ⟨_, if_pos h⟩
  · rw [if_neg (by rw [h]; decide)]
    exact ⟨_, if_pos h⟩
  · rw [if_neg (by rw [h]; decide), if_neg (by rw [h]; decide)]
    exact ⟨_, if_pos h⟩

/-- Anything else ends the command. -/
theorem afterOpcode_not_isOp (h : ¬IsOp (u64OfBytes tmp)) :
    afterOpcode dev data tmp = .ret (-1, data) := by
  have hpread := fun hop => h (.inl hop)
  have hpwrite := fun hop => h (.inr (.inl hop))
  have hioctl := fun hop => h (.inr (.inr hop))
  rw [afterOpcode, if_neg hpread, if_neg hpwrite, if_neg hioctl]

/-- Behind an operation that is the same in both, only an `ioctl` can leak. -/
theorem afterOpcode_alike (hops : dev.ops.Overwrites)
    (h : u64OfBytes tmp = opIoctl → ∀ request rest, moves = .got (some request) :: rest →
      ¬IoctlLeaks dev data (u64OfBytes (overwrite tmp request)) rest) :
    SendsAlike moves (afterOpcode dev data tmp)
      (afterOpcode (dev.withGarbage garbage) data tmp) := by
  unfold afterOpcode
  split
  next =>
    exact readWord_alike fun _ _ _ _ => readWord_alike fun _ rest _ _ => readCalls_alike hops rest
  next =>
  split
  next =>
    exact readWord_alike fun _ _ _ _ => readWord_alike fun _ rest _ _ => writeCalls_alike hops rest
  next =>
  split
  next hioctl =>
    exact readWord_alike fun request rest hmoves _ =>
      ioctlCalls_alike (h hioctl request rest hmoves)
  next => exact .ret moves _ _

/-- The variable has 8 bytes. -/
theorem length_tmp (dev : CppDev σ α) (data : DevData σ α) :
    ((dev.garbage .tmp data.world).load 0 8).length = 8 := Mem.length_load _ 0 8

/-- A short word that begins no operation becomes none. -/
theorem not_isOp_of_short (htmp : tmp.length = 8) (hlen : bytes.length < 8)
    (h : ∀ op, IsOp op → ¬bytes <+: u64Bytes op) : ¬IsOp (u64OfBytes (overwrite tmp bytes)) := by
  intro hop
  refine h _ hop ?_
  rw [u64Bytes_u64OfBytes (length_overwrite htmp hlen.le)]
  exact List.prefix_append _ _

/-- **Without a leak the memory does not matter.** -/
theorem handleCmd_alike (hops : dev.ops.Overwrites) (h : ¬Leaks dev data moves) :
    SendsAlike moves (nfpCppDevHandleCmdCalls dev data)
      (nfpCppDevHandleCmdCalls (dev.withGarbage garbage) data) := by
  rw [handleCmd_afterOpcode, handleCmd_afterOpcode]
  refine readWord_alike fun bytes rest hmoves hle => ?_
  subst hmoves
  have htmp := length_tmp dev data
  have htmp' := length_tmp (dev.withGarbage garbage) data
  rcases hle.lt_or_eq with hlen | hlen
  · -- a word that is short and begins no operation ends the command
    have hno : ∀ op, IsOp op → ¬bytes <+: u64Bytes op :=
      fun op hop hstart => h (.opcode hlen hop hstart)
    rw [afterOpcode_not_isOp (not_isOp_of_short htmp hlen hno),
      afterOpcode_not_isOp (not_isOp_of_short htmp' hlen hno)]
    exact .ret rest _ _
  · -- a whole word leaves nothing of the memory in `tmp`
    rw [overwrite_whole htmp hlen, overwrite_whole htmp' hlen]
    refine afterOpcode_alike hops fun hioctl request rest' hrest hleaks => ?_
    subst hrest
    exact h (.ioctl hlen hioctl hleaks)

/-! ### Leaks

For every case two memories: the same byte everywhere, where a byte of a reply is not filled; a
first byte of 0 and one of 20, where an argument is sent back; two arguments with different
statuses, where the status is; and an operation against bytes of ones, for a word that is short. -/

section Leaks

/-- A word that has come is written over what was there. -/
theorem readWord_apart
    (h : SendsApart moves (ks (overwrite tmp bytes)) (ks' (overwrite tmp' bytes))) :
    SendsApart (.got (some bytes) :: moves) (readWord tmp data ks) (readWord tmp' data' ks') :=
  .read h

/-- An argument that is followed by other calls has come whole. -/
theorem readArg_apart (h : SendsApart (mv :: moves) (ks arg) (ks' arg)) :
    SendsApart (.got (some arg) :: mv :: moves) (readArg mem size data ks)
      (readArg mem' size data' ks') := by
  intro sent hsends
  have hle : arg.length ≤ size := by
    obtain ⟨r, rest, hmoves, hle, -⟩ := hsends.read
    cases hmoves
    exact hle arg rfl
  refine SendsApart.read ?_ sent hsends
  rw [Option.map_some, isShort_some]
  by_cases hshort : arg.length < size
  · rw [decide_eq_true hshort]
    exact .ret_cons _ _
  · obtain rfl := Nat.le_antisymm hle (not_lt.mp hshort)
    rw [decide_eq_false hshort]
    show SendsApart (mv :: moves) (ks ((mem.store 0 arg).load 0 arg.length))
      (ks' ((mem'.store 0 arg).load 0 arg.length))
    rw [Mem.load_store, Mem.load_store]
    exact h

/-- One that could not be read is what was in memory. -/
theorem readArg_failed_apart
    (h : SendsApart moves (ks (mem.load 0 size)) (ks' (mem'.load 0 size))) :
    SendsApart (.got none :: moves) (readArg mem size data ks) (readArg mem' size data' ks') := by
  refine .read ?_
  show SendsApart moves (ks ((mem.store 0 []).load 0 size)) (ks' ((mem'.store 0 []).load 0 size))
  rw [Mem.store_nil, Mem.store_nil]
  exact h

/-- A call that is followed by others has not been found short. -/
theorem sendReply_apart (hlen : bytes.length = bytes'.length) (h : SendsApart (mv :: moves) k k') :
    SendsApart (.wrote r :: mv :: moves) (sendReply bytes data k) (sendReply bytes' data' k') := by
  refine .write hlen ?_
  rw [hlen]
  split
  next => exact .ret_cons _ _
  next => exact h

/-- Memory with the same byte everywhere. -/
def filledWith (byte : UInt8) : Local → σ → Mem := fun _ _ _ => byte

/-- The first byte that is not filled. -/
theorem getD_unfilled {filled : List UInt8} {n total : ℕ} (hlength : filled.length = n)
    (hlt : n < total) (mem : Mem) : (filled ++ mem.load n (total - n)).getD n 0 = mem n := by
  have hzero : 0 < total - n := Nat.sub_pos_of_lt hlt
  rw [List.getD_eq_getElem?_getD, List.getElem?_append_right hlength.le, hlength, Nat.sub_self,
    ← List.getD_eq_getElem?_getD, Mem.load_apply mem hzero, Nat.add_zero]

/-- The byte behind what is filled is sent as it was in memory. -/
theorem identification_apart (hm : identFilled (u32OfBytes arg) < m) :
    SendsApart (.got (some arg) :: .compute :: .wrote r :: .wrote (some m) :: moves)
      (ioctlCppIdentificationCalls (dev.withGarbage (filledWith 0)) data)
      (ioctlCppIdentificationCalls (dev.withGarbage (filledWith 1)) data) := by
  obtain ⟨filled, world', hlength, hbytes⟩ :=
    doCppIdentification_bytes dev (u32OfBytes arg) data.world
  have hstale : ∀ byte : UInt8, identFilled (u32OfBytes arg) < identificationSize →
      ((doCppIdentification dev (identGarbage (fun _ => byte) (u32OfBytes arg))
        data.world).1.bytes).getD (identFilled (u32OfBytes arg)) 0 = byte := by
    intro byte hlt
    rw [(hbytes fun _ => byte).2, getD_unfilled hlength hlt]
  unfold ioctlCppIdentificationCalls
  refine readArg_apart ?_
  refine .perform (sendReply_apart rfl ?_)
  refine .byte hm fun hlt => ?_
  rw [NfpCppIdentification.length_bytes] at hlt
  exact ((hstale 0 hlt).trans_ne (by decide)).trans_eq (hstale 1 hlt).symm

/-- The identification starts with the number of bytes that are filled. -/
theorem getD_identification (ident : NfpCppIdentification) (world : σ) :
    ((doCppIdentification dev ident world).1.bytes).getD 0 0 =
      (identFilled ident.size).toUInt8 := by
  obtain ⟨serialLo, serialHi, hident⟩ := doCppIdentification_cases dev ident.size world
  rw [hident ident rfl, identFilled]
  split_ifs <;> rfl

/-- Memory of zeroes, but for its first byte. -/
def firstByte (byte : UInt8) : Local → σ → Mem := fun _ _ => Mem.store 0 0 [byte]

/-- A size of 0 makes an identification of 4 bytes, and one of 20 an identification of 20. -/
theorem identification_echo_apart (hm : 0 < m) :
    SendsApart (.got none :: .compute :: .wrote r :: .wrote (some m) :: moves)
      (ioctlCppIdentificationCalls (dev.withGarbage (firstByte 0)) data)
      (ioctlCppIdentificationCalls (dev.withGarbage (firstByte 20)) data) := by
  have hsize : u32OfBytes ((Mem.store 0 0 [0]).load 0 4) = 0 := rfl
  have hsize' : u32OfBytes ((Mem.store 0 0 [20]).load 0 4) = 20 := rfl
  unfold ioctlCppIdentificationCalls
  refine readArg_failed_apart ?_
  refine .perform ?_
  dsimp only
  generalize h0 : doCppIdentification _ _ _ = outcome
  generalize h1 : doCppIdentification _ _ _ = outcome'
  have hfirst : outcome.1.bytes.getD 0 0 = 4 := by
    rw [← h0, getD_identification]
    exact congrArg (fun size => (identFilled size).toUInt8) hsize
  have hfirst' : outcome'.1.bytes.getD 0 0 = 20 := by
    rw [← h1, getD_identification]
    exact congrArg (fun size => (identFilled size).toUInt8) hsize'
  refine sendReply_apart rfl ?_
  refine .byte hm fun _ => ?_
  rw [hfirst, hfirst']
  decide

/-- An explicit request is sent back as it was in memory. -/
theorem areaRequest_echo_apart (hm : 0 < m) :
    SendsApart (.got none :: .compute :: .wrote r :: .wrote (some m) :: moves)
      (ioctlAreaRequestCalls (dev.withGarbage (firstByte 0)) data)
      (ioctlAreaRequestCalls (dev.withGarbage (firstByte 20)) data) := by
  have hexplicit : (AreaRequest.ofBytes ((Mem.store 0 0 [0]).load 0 32)).offset = 0 := rfl
  have hexplicit' : (AreaRequest.ofBytes ((Mem.store 0 0 [20]).load 0 32)).offset = 20 := rfl
  unfold ioctlAreaRequestCalls
  refine readArg_failed_apart ?_
  refine .perform ?_
  dsimp only
  generalize h0 : doCppAreaRequest _ _ _ _ _ _ = outcome
  generalize h1 : doCppAreaRequest _ _ _ _ _ _ = outcome'
  have hoffset : outcome.2.1.offset = 0 := by
    rw [← h0, doCppAreaRequest_explicit]
    · exact hexplicit
    · exact hexplicit.trans_ne (by decide)
  have hoffset' : outcome'.2.1.offset = 20 := by
    rw [← h1, doCppAreaRequest_explicit]
    · exact hexplicit'
    · exact hexplicit'.trans_ne (by decide)
  obtain ⟨err, areaReq, list, world⟩ := outcome
  obtain ⟨err', areaReq', list', world'⟩ := outcome'
  refine sendReply_apart ((length_u64Bytes _).trans (length_u64Bytes _).symm) ?_
  refine .byte hm fun _ => ?_
  rw [show areaReq.offset = 0 from hoffset, show areaReq'.offset = 20 from hoffset']
  exact show (0 : UInt8) ≠ 20 by decide

/-- So is an explicit request. -/
theorem explRequest_echo_apart (hm : 0 < m) :
    SendsApart (.got none :: .compute :: .wrote r :: .wrote (some m) :: moves)
      (ioctlExplRequestCalls (dev.withGarbage (firstByte 0)) data)
      (ioctlExplRequestCalls (dev.withGarbage (firstByte 20)) data) := by
  unfold ioctlExplRequestCalls
  refine readArg_failed_apart ?_
  refine .perform (sendReply_apart rfl ?_)
  exact .byte hm fun _ => (show (0 : UInt8) ≠ 20 by decide)

/-- What an `ioctl` sends back of an argument that it could not read. -/
theorem echo_apart (h : Echoes request) (hm : 0 < m) :
    SendsApart (.got none :: .compute :: .wrote r :: .wrote (some m) :: moves)
      (nfpCppDevIoctlCalls (dev.withGarbage (firstByte 0)) data request)
      (nfpCppDevIoctlCalls (dev.withGarbage (firstByte 20)) data request) := by
  rcases h with rfl | rfl | rfl
  · exact identification_echo_apart hm
  · exact areaRequest_echo_apart hm
  · exact explRequest_echo_apart hm

/-- The first byte of a status is enough to tell it from the others. -/
theorem statusByte_inj : ∀ err ∈ areaStatuses, ∀ err' ∈ areaStatuses,
    (u64Bytes (statusWord err)).getD 0 0 = (u64Bytes (statusWord err')).getD 0 0 → err = err' := by
  decide

/-- Memory that holds an argument. -/
def holdsArg (arg : List UInt8) : Local → σ → Mem := fun _ _ => Mem.store 0 0 arg

/-- The argument is what is read from there. -/
theorem load_holdsArg (dev : CppDev σ α) (v : Local) (world : σ) (h : arg.length = size) :
    ((dev.withGarbage (holdsArg arg)).garbage v world).load 0 size = arg := by
  rw [← h]
  exact Mem.load_store _ 0 arg

/-- Two statuses of which the client takes something. -/
theorem sendStatus_apart {err err' : ℤ} (h : err ∈ areaStatuses) (h' : err' ∈ areaStatuses)
    (hne : err ≠ err') (hm : 0 < m) :
    SendsApart (.wrote (some m) :: moves) (sendReply (u64Bytes (statusWord err)) data k)
      (sendReply (u64Bytes (statusWord err')) data' k') :=
  .byte hm fun _ hbyte => hne (statusByte_inj err h err' h' hbyte)

/-- An `ioctl` that could not read its argument answers the one that was in memory. -/
theorem status_apart (h : StatusVaries dev data request) (hm : 0 < m) :
    ∃ garbage garbage', SendsApart (.got none :: .compute :: .wrote (some m) :: moves)
      (nfpCppDevIoctlCalls (dev.withGarbage garbage) data request)
      (nfpCppDevIoctlCalls (dev.withGarbage garbage') data request) := by
  obtain ⟨arg, arg', harg, harg', hne⟩ := h
  refine ⟨holdsArg arg, holdsArg arg', ?_⟩
  unfold ioctlStatus at hne
  split at hne
  -- a request for an area
  next hrequest =>
    subst hrequest
    show SendsApart _ (ioctlAreaRequestCalls _ data) (ioctlAreaRequestCalls _ data)
    unfold ioctlAreaRequestCalls
    refine readArg_failed_apart ?_
    rw [load_holdsArg _ _ _ harg, load_holdsArg _ _ _ harg']
    refine .perform ?_
    dsimp only
    generalize h0 : doCppAreaRequest _ _ _ _ _ _ = outcome
    generalize h1 : doCppAreaRequest _ _ _ _ _ _ = outcome'
    have hne' : outcome.1 ≠ outcome'.1 := by
      rw [← h0, ← h1]
      exact hne
    exact sendStatus_apart (h0 ▸ areaRequest_status ..) (h1 ▸ areaRequest_status ..) hne' hm
  next =>
  split at hne
  next hrequest =>
    subst hrequest
    show SendsApart _ (ioctlAreaReleaseCalls _ data) (ioctlAreaReleaseCalls _ data)
    unfold ioctlAreaReleaseCalls
    refine readArg_failed_apart ?_
    rw [load_holdsArg _ _ _ harg, load_holdsArg _ _ _ harg']
    refine .perform ?_
    dsimp only
    generalize h0 : doCppAreaRelease _ _ _ _ = outcome
    generalize h1 : doCppAreaRelease _ _ _ _ = outcome'
    have hne' : outcome.1 ≠ outcome'.1 := by
      rw [← h0, ← h1]
      exact hne
    exact sendStatus_apart (h0 ▸ areaRelease_status ..) (h1 ▸ areaRelease_status ..) hne' hm
  next => exact absurd rfl hne

/-- **Every leak tells two memories from each other.** -/
theorem ioctl_apart (h : IoctlLeaks dev data request moves) :
    ∃ garbage garbage', SendsApart moves
      (nfpCppDevIoctlCalls (dev.withGarbage garbage) data request)
      (nfpCppDevIoctlCalls (dev.withGarbage garbage') data request) := by
  cases h with
  | identification hrequest hm =>
    subst hrequest
    exact ⟨filledWith 0, filledWith 1, identification_apart hm⟩
  | echo hechoes hm => exact ⟨firstByte 0, firstByte 20, echo_apart hechoes hm⟩
  | status hvaries hm => exact status_apart hvaries hm

/-- Behind what has come, the bytes are those that were there. -/
theorem getD_overwrite {i : ℕ} (h : bytes.length ≤ i) :
    (overwrite tmp bytes).getD i 0 = tmp.getD i 0 := by
  rw [overwrite, List.getD_append_right _ _ _ _ h, List.getD_eq_getElem?_getD,
    List.getElem?_drop, Nat.add_sub_cancel' h, List.getD_eq_getElem?_getD]

/-- The operations are small. -/
theorem IsOp.getD_seven (h : IsOp (u64OfBytes tmp)) (htmp : tmp.length = 8) : tmp.getD 7 0 = 0 := by
  rw [← u64Bytes_u64OfBytes htmp]
  rcases h with h | h | h
  all_goals
    rw [h]
    rfl

/-- What has come is the start of the memory already. -/
theorem overwrite_start (h : bytes <+: tmp) : overwrite tmp bytes = tmp :=
  List.prefix_iff_eq_append.mp h

/-- A word that comes short is an operation or none, by what was in memory. -/
theorem opcode_apart {word : UInt64} (hlen : bytes.length < 8) (hop : IsOp word)
    (hstart : bytes <+: u64Bytes word) :
    SendsApart (.got (some bytes) :: moves)
      (nfpCppDevHandleCmdCalls (dev.withGarbage (filledWith 0xff)) data)
      (nfpCppDevHandleCmdCalls (dev.withGarbage (holdsArg (u64Bytes word))) data) := by
  have hnot : ¬IsOp (u64OfBytes (overwrite (Mem.load (fun _ => 0xff) 0 8) bytes)) := by
    intro hop'
    -- the last byte is that of the memory, and operations are small
    have hseven := hop'.getD_seven (length_overwrite (Mem.length_load _ 0 8) hlen.le)
    rw [getD_overwrite (Nat.le_of_lt_succ hlen), Mem.load_apply _ (by decide)] at hseven
    exact absurd hseven (show ¬(0xff : UInt8) = 0 by decide)
  -- the memory completes the word
  have hop' : IsOp (u64OfBytes (overwrite (u64Bytes word) bytes)) := by
    rw [overwrite_start hstart, u64OfBytes_u64Bytes]
    exact hop
  rw [handleCmd_afterOpcode, handleCmd_afterOpcode]
  refine readWord_apart ?_
  obtain ⟨kr, hkr⟩ := afterOpcode_isOp (dev.withGarbage (holdsArg (u64Bytes word))) data hop'
  rw [load_holdsArg _ _ _ (length_u64Bytes word), hkr,
    show ((dev.withGarbage (filledWith 0xff)).garbage .tmp data.world).load 0 8 =
      Mem.load (fun _ => 0xff) 0 8 from rfl,
    afterOpcode_not_isOp hnot]
  exact .ret_read _

/-- Every leak of a command. -/
theorem leaks_apart (h : Leaks dev data moves) :
    ∃ garbage garbage', SendsApart moves
      (nfpCppDevHandleCmdCalls (dev.withGarbage garbage) data)
      (nfpCppDevHandleCmdCalls (dev.withGarbage garbage') data) := by
  cases h with
  | opcode hlen hop hstart => exact ⟨_, _, opcode_apart hlen hop hstart⟩
  | ioctl hlen hioctl hleaks =>
    obtain ⟨garbage, garbage', hapart⟩ := ioctl_apart hleaks
    refine ⟨garbage, garbage', ?_⟩
    rw [handleCmd_afterOpcode, handleCmd_afterOpcode]
    refine readWord_apart ?_
    rw [overwrite_whole (length_tmp _ data) hlen, overwrite_whole (length_tmp _ data) hlen]
    unfold afterOpcode
    rw [hioctl, if_neg (by decide), if_neg (by decide), if_pos rfl, if_neg (by decide),
      if_neg (by decide), if_pos rfl]
    exact readWord_apart hapart

end Leaks

/-- The commands of the server, over its library: a run that has returned and sent `sent` is one
over any other memory, and sends the same. -/
def NoLeftover (dev : CppDev σ α) (data : DevData σ α) (moves : List Move) (sent : List UInt8) :
    Prop :=
  ∀ garbage, Sends moves (nfpCppDevHandleCmdCalls (dev.withGarbage garbage) data) sent

/-- **The exact condition**: a run that has returned tells nothing of what was in memory when its
answers are no leak. -/
theorem noLeftover_iff {δ : Type} {cpp : NfpCpp δ} {dev : CppDev (NfpWorld δ) NfpCppArea}
    (hlib : dev.ops = nfpCppOps cpp) {data : DevData (NfpWorld δ) NfpCppArea} {moves : List Move}
    {sent : List UInt8} (hrun : Sends moves (nfpCppDevHandleCmdCalls dev data) sent) :
    NoLeftover dev data moves sent ↔ ¬Leaks dev data moves := by
  constructor
  -- two memories that are told apart cannot both send the same
  · intro hsame hleaks
    obtain ⟨garbage, garbage', hapart⟩ := leaks_apart hleaks
    exact hapart sent (hsame garbage) (hsame garbage')
  · intro hno garbage
    have hops : dev.ops.Overwrites := hlib ▸ nfpCppOps_overwrites cpp
    exact handleCmd_alike hops hno sent hrun

/-! ### A device whose memory holds zeroes -/

/-- Its reads return an `int`. -/
theorem nfpCppOps_read_int {δ : Type} (cpp : NfpCpp δ) (area : NfpCppArea) (offset : UInt64)
    (mem : Mem) (length : UInt32) (w : NfpWorld δ) :
    IsInt ((nfpCppOps cpp).areaRead area offset mem length w).1 := by
  have hfault : IsInt (-Errno.EFAULT) := ⟨by decide, by decide⟩
  have hinval : IsInt (-Errno.EINVAL) := ⟨by decide, by decide⟩
  show IsInt (nfpCppAreaRead cpp area offset mem length w).1
  unfold nfpCppAreaRead
  split
  · exact ⟨show (-2 ^ 31 : ℤ) ≤ -1 by decide, show (-1 : ℤ) < 2 ^ 31 by decide⟩
  · cases hchecks : accessChecks area.priv area.priv.width.read offset length with
    | error err =>
      rcases accessChecks_error hchecks with rfl | rfl
      · exact hfault
      · exact hinval
    | ok is64 => exact ⟨Int32.le_toInt _, Int32.toInt_lt _⟩

def zeroDev : CppDev (NfpWorld Unit) NfpCppArea where
  ops := nfpCppOps idleCpp
  model s := (0x62000010, s)
  interface := 0x1000
  serial _ := 0
  malloc _ := true
  garbage _ _ _ := 0
  read_int := nfpCppOps_read_int idleCpp

def zeroData : DevData (NfpWorld Unit) NfpCppArea := ⟨[], idleState.world⟩

/-- A request for `size` bytes of the identification, whose answer is taken. -/
def identAnswers (size : UInt32) : List Move :=
  [.got (some (u64Bytes opIoctl)), .got (some (u64Bytes nfpIoctlCppIdentification)),
    .got (some (u32Bytes size)), .compute, .wrote (some 8), .wrote (some 20)]

/-- The whole identification. -/
theorem noLeftover_iff_whole : ∃ sent,
    Sends (identAnswers 20) (nfpCppDevHandleCmdCalls zeroDev zeroData) sent ∧
      (NoLeftover zeroDev zeroData (identAnswers 20) sent ↔
        ¬Leaks zeroDev zeroData (identAnswers 20)) :=
  have hrun : Sends (identAnswers 20) (nfpCppDevHandleCmdCalls zeroDev zeroData) _ :=
    ⟨_, _, rfl, rfl⟩
  ⟨_, hrun, noLeftover_iff rfl hrun⟩

/-- Four bytes of it: the other sixteen are sent as they were in memory. -/
theorem noLeftover_false : ∃ sent,
    Sends (identAnswers 4) (nfpCppDevHandleCmdCalls zeroDev zeroData) sent ∧
      ¬NoLeftover zeroDev zeroData (identAnswers 4) sent := by
  refine ⟨_, ⟨_, _, rfl, rfl⟩, fun hsame => ?_⟩
  have hident : u64OfBytes (overwrite (u64Bytes opIoctl) (u64Bytes nfpIoctlCppIdentification)) =
      nfpIoctlCppIdentification := by
    rw [overwrite_whole (length_u64Bytes _) (length_u64Bytes _), u64OfBytes_u64Bytes]
  have hleaks : Leaks zeroDev zeroData (identAnswers 4) :=
    .ioctl (length_u64Bytes _) (u64OfBytes_u64Bytes _)
      (.identification hident (show identFilled (u32OfBytes (u32Bytes 4)) < 20 by decide))
  obtain ⟨garbage, garbage', hapart⟩ := leaks_apart hleaks
  exact hapart _ (hsame garbage) (hsame garbage')

end NfpUdpEcho
