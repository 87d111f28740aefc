import NfpUdpEcho.NfpCore.NspDevice

/-!
# What the service processor may do

The NSP may take a command at once and end it with any answer (`runs_nspCommand`, `runs_nspAwait`),
so that a command with buffers may give any bytes (`runs_nspCommandBuf`). And it may not take a
command as long as the host waits for it (`runs_nspAwait_timeout`).

The device is a relation, and each of these theorems gives one of its answers. They are what the
runs of the theorems about commands that overtake each other, or that are given up, are made of.
What the host finds in a register is a word it takes apart with the masks of the library, so the
first part shows that the words of `nspStatusWord` and `nspValueWord` have the fields they are put
together from. A command is then one access after the other, and each lemma about a function of the
library ends where the next one starts.
-/

namespace NfpUdpEcho

open Access BitField ByteMem Errno

variable {res : NfpResource} {r : NspRequest} {m : NspMemory} {l : List NspServed}
  {s s' : NspUnit}

/-! ### The registers

Each mask is a range of bits (`MaskOf`). What a field of a word is follows from the ranges being
disjoint, and for the fixed part of a word by computation. -/

/-- What the library finds in the status: version 0.20, and the last result. -/
def nspStatusWord (result : UInt8) : UInt64 :=
  0xab10001400000000 ||| fieldPrep nspStatusResult result.toUInt64

abbrev resultBits : BitRange 64 := ⟨8, 8, by decide⟩
abbrev minorBits : BitRange 64 := ⟨32, 12, by decide⟩
abbrev majorBits : BitRange 64 := ⟨44, 4, by decide⟩
abbrev magicBits : BitRange 64 := ⟨48, 16, by decide⟩

/-- The mask of the minor version. -/
theorem maskOf_minor : MaskOf minorBits nspStatusMinor :=
  maskOf_genmaskUll (f := minorBits) (by decide)

/-- The mask of the major version. -/
theorem maskOf_major : MaskOf majorBits nspStatusMajor :=
  maskOf_genmaskUll (f := majorBits) (by decide)

/-- The mask of the magic number. -/
theorem maskOf_magic : MaskOf magicBits nspStatusMagic :=
  maskOf_genmaskUll (f := magicBits) (by decide)

/-- The mask of the last result. -/
theorem maskOf_result : MaskOf resultBits nspStatusResult :=
  maskOf_genmaskUll (f := resultBits) (by decide)

/-- The busy bit is the lowest, so that a test of it is a field. -/
theorem and_nspStatusBusy (reg : UInt64) : reg &&& nspStatusBusy = fieldGet nspStatusBusy reg := by
  have h0 : bfShf nspStatusBusy = 0 := by decide
  rw [fieldGet, h0, UInt64.shiftRight_zero]

section StatusWord

variable {result : UInt8}

/-- The fields beside the result. -/
theorem fieldGet_nspStatusWord {g : BitRange 64} {mask : UInt64} (hg : MaskOf g mask)
    (hdisj : resultBits.Disjoint g) :
    fieldGet mask (nspStatusWord result) = fieldGet mask 0xab10001400000000 := by
  rw [nspStatusWord, hg.fieldGet_or, maskOf_result.fieldGet_fieldPrep_of_disjoint hg hdisj,
    UInt64.or_zero]

/-- The NSP is not busy. -/
theorem nspStatusWord_busy : nspStatusWord result &&& nspStatusBusy = 0 := by
  have hbusy : MaskOf startBits nspStatusBusy := maskOf_start
  rw [and_nspStatusBusy, fieldGet_nspStatusWord hbusy (by decide)]
  decide

/-- The last result is that of the word. -/
theorem nspStatusWord_result :
    fieldGet nspStatusResult (nspStatusWord result) = result.toUInt64 := by
  have hlt : result.toUInt64.toNat < 2 ^ resultBits.width := result.toNat_lt
  have h0 : fieldGet nspStatusResult 0xab10001400000000 = 0 := by decide
  rw [nspStatusWord, maskOf_result.fieldGet_or, h0, maskOf_result.fieldGet_fieldPrep hlt,
    UInt64.zero_or]

end StatusWord

/-- The status and the command are different registers. -/
theorem nspStatus_ne_command (a : UInt64) : a + nspStatus ≠ a + nspCommand := by
  intro he
  exact absurd ((UInt64.add_right_inj a).mp he) (by decide)

/-- So are the buffer and the command. -/
theorem nspBuffer_ne_command (a : UInt64) : a + nspBuffer ≠ a + nspCommand := by
  intro he
  exact absurd ((UInt64.add_right_inj a).mp he) (by decide)

/-- The id of the buffer always fits, since its low byte is left out. -/
theorem fieldFit_buffCpp (buffCpp : UInt32) :
    fieldFit nspBufferCpp (buffCpp >>> 8).toUInt64 = true :=
  maskOf_buffCpp.fieldFit_iff.mpr (Nat.mod_lt _ (by decide))

/-- The status of an NSP that carries nothing out. -/
theorem nspDevice_status {s : NspUnit} (hr : s.running = none) :
    nspDevice res (.readq res.cppId (res.addr + nspStatus)) s (.ok (nspStatusWord s.result)) s := by
  refine ⟨s, .refl, rfl, fun reg hreg _ => ⟨fun _ => ?_, fun he => ?_⟩⟩
  · obtain rfl := Except.ok.inj hreg
    exact ⟨⟨fun _ => hr, fun _ => nspStatusWord_busy⟩, fun _ => nspStatusWord_result⟩
  · exact absurd he (nspStatus_ne_command res.addr)

/-- A handle after a check. -/
def NfpNsp.checked (nsp : NfpNsp) : NfpNsp := { nsp with major := nspMajor, minor := 20 }

/-- The check succeeds while nothing is carried out. -/
theorem runs_nspCheck (nsp : NfpNsp) (hr : s.running = none) :
    Runs (nspDevice nsp.res) (nfpNspCheck nsp) s (0, nsp.checked) s := by
  have hmagic : fieldGet nspStatusMagic (nspStatusWord s.result) = nspMagic := by
    rw [fieldGet_nspStatusWord maskOf_magic (by decide)]
    decide
  have hmajor : (fieldGet nspStatusMajor (nspStatusWord s.result)).toUInt16 = nspMajor := by
    rw [fieldGet_nspStatusWord maskOf_major (by decide)]
    decide
  have hminor : (fieldGet nspStatusMinor (nspStatusWord s.result)).toUInt16 = 20 := by
    rw [fieldGet_nspStatusWord maskOf_minor (by decide)]
    decide
  -- one read of the status, and the three fields of it
  refine runs_access.mpr ⟨_, s, nspDevice_status hr, ?_⟩
  dsimp only
  rw [if_neg (not_not.mpr hmagic), hmajor, hminor, if_neg (by decide),
    if_neg (not_not.mpr nspStatusWord_busy)]
  exact .refl

/-- A command may be given as soon as nothing is carried out, whether or not one waits. -/
theorem runs_nspCommand (nsp : NfpNsp) {code : UInt16} {option buffCpp : UInt32}
    {buffAddr : UInt64} {s₁ : NspUnit} {n : ℤ} (hr : s.running = none)
    (hfit : fieldFit nspBufferAddress buffAddr = true)
    (hsteps : Relation.ReflTransGen NspStep
      { s with buffer := nspBufferWord buffCpp buffAddr } s₁)
    (hawait : Runs (nspDevice nsp.res) (nspAwait nsp.checked)
      { s₁ with pending := some (nspCommandWord code option) } n s') :
    Runs (nspDevice nsp.res) (nfpNspCommand nsp code option buffCpp buffAddr) s
      (n, nsp.checked) s' := by
  have hreach : ¬(fieldFit nspBufferCpp (buffCpp >>> 8).toUInt64 = false ∨
      fieldFit nspBufferAddress buffAddr = false) := by
    rw [fieldFit_buffCpp, hfit]
    decide
  -- the check, then the buffer register, then the command, and the host waits
  refine runs_bind.mpr ⟨_, s, runs_nspCheck nsp hr, ?_⟩
  dsimp only
  rw [if_neg (not_not.mpr rfl), if_neg hreach]
  refine runs_access.mpr ⟨.ok (), { s with buffer := nspBufferWord buffCpp buffAddr },
    ⟨s, .refl, .inr ⟨rfl, fun _ => ⟨fun _ => rfl, fun he => ?_⟩⟩⟩, ?_⟩
  · exact absurd he (nspBuffer_ne_command nsp.res.addr)
  refine runs_access.mpr ⟨.ok (), { s₁ with pending := some (nspCommandWord code option) },
    ⟨s₁, hsteps, .inr ⟨rfl, fun _ => ⟨fun he => ?_, fun _ _ => rfl⟩⟩⟩, ?_⟩
  · exact absurd he.symm (nspBuffer_ne_command nsp.res.addr)
  exact runs_bind.mpr ⟨n, s', hawait, .refl⟩

/-- Reading the command register at any time. -/
theorem nspDevice_command {s₁ : NspUnit} {reg : UInt64}
    (hsteps : Relation.ReflTransGen NspStep s s₁) (hreg : s₁.CommandReg reg) :
    nspDevice res (.readq res.cppId (res.addr + nspCommand)) s (.ok reg) s₁ := by
  refine ⟨s₁, hsteps, rfl, fun w hw _ => ⟨fun he => ?_, fun _ => ?_⟩⟩
  · exact absurd he.symm (nspStatus_ne_command res.addr)
  · exact Except.ok.inj hw ▸ hreg

/-- A register that stays as it is. -/
theorem runs_nspWaitReg_timeout {cppId : UInt32} {a mask val reg : UInt64}
    (hdev : nspDevice res (.readq cppId a) s (.ok reg) s) (hne : reg &&& mask ≠ val) (n : ℕ) :
    Runs (nspDevice res) (nfpNspWaitReg cppId a mask val n) s (.error (-ETIMEDOUT)) s := by
  have hround {next : CppProg (Except ℤ UInt64)}
      (hnext : Runs (nspDevice res) next s (.error (-ETIMEDOUT)) s) :
      Runs (nspDevice res) (nspWaitRound cppId a mask val next) s (.error (-ETIMEDOUT)) s := by
    refine runs_access.mpr ⟨.ok reg, s, hdev, ?_⟩
    dsimp only
    rwa [if_neg hne]
  -- on the rounds that are left: none of them finds what it waits for
  induction n with
  | zero => exact hround .refl
  | succ n ih => exact hround ih

/-- A register that is at once what the host waits for. -/
theorem runs_nspWaitReg {cppId : UInt32} {a mask val reg : UInt64}
    (hdev : nspDevice res (.readq cppId a) s (.ok reg) s') (he : reg &&& mask = val) (n : ℕ) :
    Runs (nspDevice res) (nfpNspWaitReg cppId a mask val n) s (.ok reg) s' := by
  have hround (next : CppProg (Except ℤ UInt64)) :
      Runs (nspDevice res) (nspWaitRound cppId a mask val next) s (.ok reg) s' := by
    refine runs_access.mpr ⟨.ok reg, s', hdev, ?_⟩
    dsimp only
    rw [if_pos he]
    exact .refl
  -- the first round is enough
  cases n with
  | zero => exact hround _
  | succ n => exact hround _

/-- The NSP does not take a command, and the host gives up. -/
theorem runs_nspAwait_timeout (nsp : NfpNsp) {command : UInt64} (hp : s.pending = some command)
    (hstart : command &&& nspCommandStart ≠ 0) :
    Runs (nspDevice nsp.res) (nspAwait nsp) s (-ETIMEDOUT) s := by
  have hreg : s.CommandReg command := by
    refine ⟨⟨fun he => absurd he hstart, fun he => ?_⟩, fun he => ?_⟩
    · exact absurd (hp.symm.trans he) (Option.some_ne_none _)
    · exact absurd (hp.symm.trans he) (Option.some_ne_none _)
  exact runs_bind.mpr ⟨_, s, runs_nspWaitReg_timeout (nspDevice_command .refl hreg) hstart _, .refl⟩

/-- The command register of an NSP that is idle. -/
def nspValueWord (value : UInt32) : UInt64 := fieldPrep nspCommandOption value.toUInt64

/-- An idle NSP shows its last value there, and no command. -/
theorem commandReg_nspValueWord (hidle : s.Idle) : s.CommandReg (nspValueWord s.value) := by
  have hlt : s.value.toUInt64.toNat < 2 ^ optionBits.width := s.value.toNat_lt
  have hstart : nspValueWord s.value &&& nspCommandStart = 0 := by
    have hget : fieldGet nspCommandStart (nspValueWord s.value) = 0 :=
      maskOf_option.fieldGet_fieldPrep_of_disjoint maskOf_start (by decide)
    exact (and_nspStatusBusy _).trans hget
  refine ⟨⟨fun _ => hidle.pending, fun _ => hstart⟩, fun _ _ => ?_⟩
  exact maskOf_option.fieldGet_fieldPrep hlt

/-- The NSP carries a command out while the host waits. -/
theorem runs_nspAwait (nsp : NfpNsp) {e : NspServed}
    (hsteps : Relation.ReflTransGen NspStep s s') (he : LastServed r m l e s') :
    Runs (nspDevice nsp.res) (nspAwait nsp) s e.ret s' := by
  have hcommand := commandReg_nspValueWord he.idle
  have hstart := hcommand.1.mpr he.idle.pending
  -- the command is taken and ended before the first read, then the status is that of an idle NSP
  refine runs_bind.mpr ⟨_, s', runs_nspWaitReg (nspDevice_command hsteps hcommand) hstart _, ?_⟩
  refine runs_bind.mpr ⟨_, s', runs_nspWaitReg (nspDevice_status he.idle.running)
    nspStatusWord_busy _, ?_⟩
  refine runs_access.mpr ⟨_, s', nspDevice_command .refl hcommand, ?_⟩
  dsimp only
  rw [nspStatusWord_result, hcommand.2 he.idle.pending he.idle.running, ← he.result, ← he.value,
    e.result_ret]
  exact .refl

/-- The NSP takes the command that waits and ends it without an error. -/
theorem steps_served {command : UInt64} (output : NspMemory) (hp : s.pending = some command)
    (hr : s.running = none) :
    ∃ s' e, Relation.ReflTransGen NspStep s s' ∧ s'.buffer = s.buffer ∧ s'.mem = output ∧
      e.ret = 0 ∧ LastServed (.ofWords command s.buffer) s.mem s.served e s' :=
  ⟨_, _, .tail (.single (.take hp hr)) (.finish 0 0 output rfl), rfl, rfl, rfl,
    ⟨⟨rfl, rfl⟩, rfl, rfl, rfl, rfl, rfl, rfl⟩⟩

/-! ### Commands with buffers

The buffer is at address 0 of the NSP's own memory, and is read back after the command. What was
written to it before does not matter, as the NSP may end a command with any memory. -/

/-- A register that is neither the status nor the command. -/
theorem nspDevice_register {res : NfpResource} {s : NspUnit} {offset : UInt64} (w : UInt64)
    (hstatus : offset ≠ nspStatus) (hcommand : offset ≠ nspCommand) :
    nspDevice res (.readq res.cppId (res.addr + offset)) s (.ok w) s := by
  refine ⟨s, .refl, rfl, fun _ _ _ => ⟨fun he => ?_, fun he => ?_⟩⟩
  · exact absurd ((UInt64.add_right_inj res.addr).mp he) hstatus
  · exact absurd ((UInt64.add_right_inj res.addr).mp he) hcommand

section Answers

variable (nsp : NfpNsp) (code : UInt16) (option : UInt32) (outSize : ℕ) {s : NspUnit}
  (output : NspMemory) (hidle : s.Idle)

include hidle

/-- The command and the buffer that comes back. -/
theorem runs_nspCommandOut : ∃ s', s'.Idle ∧
    Runs (nspDevice nsp.res) (nspCommandOut nsp code option 0 0 outSize) s
      (0, nsp.checked, (output 0).load 0 outSize) s' := by
  obtain ⟨s₁, e, hsteps, -, hmem, hret, he⟩ := steps_served (s := { s with
      buffer := nspBufferWord 0 0
      pending := some (nspCommandWord code option) }) output rfl hidle.running
  have hrun : Runs (nspDevice nsp.res) (nfpNspCommand nsp code option 0 0) s (0, nsp.checked) s₁ :=
    runs_nspCommand nsp hidle.running (by decide) .refl
      (hret ▸ runs_nspAwait nsp.checked hsteps he)
  refine ⟨s₁, he.idle, runs_bind.mpr ⟨_, s₁, hrun, ?_⟩⟩
  dsimp only
  rw [if_neg (lt_irrefl 0)]
  -- there may be no buffer to read back
  split
  · refine runs_access.mpr ⟨.ok fun j => s₁.mem ((0 : UInt32) >>> 8) (0 + j), s₁,
      ⟨s₁, .refl, rfl, .inr rfl⟩, ?_⟩
    dsimp only
    rw [Mem.ofFn_eq_load, hmem]
    exact .refl
  next h0 =>
    rw [not_not.mp h0]
    exact .refl

/-- The part of the buffer behind the input is cleared first. -/
theorem runs_nspClearBuf (inSize : ℕ) : ∃ s', s'.Idle ∧
    Runs (nspDevice nsp.res) (nspClearBuf nsp code option 0 0 inSize outSize) s
      (0, nsp.checked, (output 0).load 0 outSize) s' := by
  unfold nspClearBuf
  split
  · let s₁ : NspUnit := { s with
      mem := Function.update s.mem ((0 : UInt32) >>> 8)
        ((s.mem ((0 : UInt32) >>> 8)).store (0 + inSize.toUInt64).toNat
          (List.replicate (outSize - inSize) 0)) }
    have hidle₁ : s₁.Idle := ⟨hidle.pending, hidle.running⟩
    obtain ⟨s', hidle', hrun⟩ := runs_nspCommandOut nsp code option outSize output hidle₁
    exact ⟨s', hidle', runs_access.mpr ⟨.ok (), s₁, ⟨s, .refl, .inr ⟨rfl, rfl⟩⟩, hrun⟩⟩
  · exact runs_nspCommandOut nsp code option outSize output hidle

/-- The NSP may answer any bytes. -/
theorem runs_nspCommandBuf (hminor : ¬nsp.minor < 13) (inBuf : List UInt8)
    (hsize : max inBuf.length outSize ≤ 2 ^ 20) : ∃ s', s'.Idle ∧
    Runs (nspDevice nsp.res) (nfpNspCommandBuf nsp code option inBuf outSize) s
      (0, nsp.checked, (output 0).load 0 outSize) s' := by
  have hmega : (fieldGet nspDfltBufferSizeMb 1 * sz1M).toNat = 2 ^ 20 := by decide
  have hcpp : (fieldGet nspBufferCpp 0 <<< 8).toUInt32 = 0 := by decide
  have haddr : fieldGet nspBufferAddress 0 = 0 := by decide
  -- what the host does until it writes to the buffer
  have hstart {s' : NspUnit} : (if inBuf ≠ [] then
        ∃ s₁, nspDevice nsp.res (.write 0 0 inBuf) s (.ok ()) s₁ ∧ Runs (nspDevice nsp.res)
          (nspClearBuf nsp code option 0 0 inBuf.length outSize) s₁
          (0, nsp.checked, (output 0).load 0 outSize) s'
      else Runs (nspDevice nsp.res) (nspClearBuf nsp code option 0 0 inBuf.length outSize) s
        (0, nsp.checked, (output 0).load 0 outSize) s') →
      Runs (nspDevice nsp.res) (nfpNspCommandBuf nsp code option inBuf outSize) s
        (0, nsp.checked, (output 0).load 0 outSize) s' := by
    intro h
    unfold nfpNspCommandBuf
    rw [if_neg hminor]
    refine runs_access.mpr ⟨.ok 1, s, nspDevice_register 1 (by decide) (by decide), ?_⟩
    dsimp only
    rw [hmega, if_neg (not_lt.mpr hsize)]
    refine runs_access.mpr ⟨.ok 0, s, nspDevice_register 0 (by decide) (by decide), ?_⟩
    dsimp only
    rw [hcpp, haddr]
    split at h
    next hin =>
      obtain ⟨s₁, hx, hrun⟩ := h
      rw [if_pos hin]
      exact runs_access.mpr ⟨.ok (), s₁, hx, hrun⟩
    next hin => rwa [if_neg hin]
  -- if there is a buffer in, it is written before the rest is cleared
  by_cases hin : inBuf ≠ []
  · let s₁ : NspUnit := { s with
      mem := Function.update s.mem ((0 : UInt32) >>> 8)
        ((s.mem ((0 : UInt32) >>> 8)).store (0 : UInt64).toNat inBuf) }
    have hidle₁ : s₁.Idle := ⟨hidle.pending, hidle.running⟩
    obtain ⟨s', hidle', hrun⟩ :=
      runs_nspClearBuf nsp code option outSize output hidle₁ inBuf.length
    refine ⟨s', hidle', hstart ?_⟩
    rw [if_pos hin]
    exact ⟨s₁, ⟨s, .refl, .inr ⟨rfl, rfl⟩⟩, hrun⟩
  · obtain ⟨s', hidle', hrun⟩ :=
      runs_nspClearBuf nsp code option outSize output hidle inBuf.length
    refine ⟨s', hidle', hstart ?_⟩
    rwa [if_neg hin]

end Answers

/-! ### An NSP to begin with -/

/-- An NSP that has just started. -/
def idleNsp : NspUnit := ⟨0, none, none, 0, 0, fun _ _ => 0, []⟩

/-- A handle of the NSP at address 0. -/
def firstNsp : NfpNsp := ⟨⟨nfpResourceNsp, 0, 0, 0, none⟩, 0, 8⟩

end NfpUdpEcho
