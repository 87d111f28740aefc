import NfpUdpEcho.Framework.ByteMem
import NfpUdpEcho.NfpCore.Nsp

/-!
# The service processor as a device

An `NspUnit` is the NSP as the host finds it in the registers: the command that waits for it, the
one that it carries out, and what came of the last one. It takes and ends commands at any time
(`NspStep`), before any access of the host (`nspDevice`). The words of a command say it in fields
(`NspRequest.ofWords_words`), and a `Stage` is where one command is.
-/

namespace NfpUdpEcho

open Access BitField ByteMem

/-! ### The words of a command -/

abbrev startBits : BitRange 64 := ⟨0, 1, by decide⟩
abbrev codeBits : BitRange 64 := ⟨16, 16, by decide⟩
abbrev optionBits : BitRange 64 := ⟨32, 32, by decide⟩
abbrev buffAddrBits : BitRange 64 := ⟨0, 38, by decide⟩
abbrev buffCppBits : BitRange 64 := ⟨40, 24, by decide⟩
abbrev sizeMbBits : BitRange 64 := ⟨0, 8, by decide⟩

theorem maskOf_start : MaskOf startBits nspCommandStart := ⟨by decide, by decide⟩

theorem maskOf_code : MaskOf codeBits nspCommandCode :=
  maskOf_genmaskUll (f := codeBits) (by decide)

theorem maskOf_option : MaskOf optionBits nspCommandOption :=
  maskOf_genmaskUll (f := optionBits) (by decide)

theorem maskOf_buffAddr : MaskOf buffAddrBits nspBufferAddress :=
  maskOf_genmaskUll (f := buffAddrBits) (by decide)

theorem maskOf_buffCpp : MaskOf buffCppBits nspBufferCpp :=
  maskOf_genmaskUll (f := buffCppBits) (by decide)

theorem maskOf_sizeMb : MaskOf sizeMbBits nspDfltBufferSizeMb :=
  maskOf_genmaskUll (f := sizeMbBits) (by decide)

/-- A command, as its registers say it. -/
structure NspRequest where
  code : UInt16
  option : UInt32
  /-- The place of its buffer: the CPP id without the island, and the address. -/
  buffCpp : UInt32
  buffAddr : UInt64
deriving DecidableEq

/-- The NSP reads its registers. -/
def NspRequest.ofWords (command buffer : UInt64) : NspRequest where
  code := (fieldGet nspCommandCode command).toUInt16
  option := (fieldGet nspCommandOption command).toUInt32
  buffCpp := (fieldGet nspBufferCpp buffer).toUInt32
  buffAddr := fieldGet nspBufferAddress buffer

section Words

variable {code : UInt16} {option buffCpp : UInt32} {buffAddr : UInt64}

theorem fieldGet_option :
    fieldGet nspCommandOption (nspCommandWord code option) = option.toUInt64 := by
  have hlt : option.toUInt64.toNat < 2 ^ optionBits.width := option.toNat_lt
  rw [nspCommandWord, maskOf_option.fieldGet_or, maskOf_option.fieldGet_or,
    maskOf_option.fieldGet_fieldPrep hlt,
    maskOf_code.fieldGet_fieldPrep_of_disjoint maskOf_option (by decide),
    maskOf_start.fieldGet_fieldPrep_of_disjoint maskOf_option (by decide), UInt64.or_zero,
    UInt64.or_zero]

theorem fieldGet_code : fieldGet nspCommandCode (nspCommandWord code option) = code.toUInt64 := by
  have hlt : code.toUInt64.toNat < 2 ^ codeBits.width := code.toNat_lt
  rw [nspCommandWord, maskOf_code.fieldGet_or, maskOf_code.fieldGet_or,
    maskOf_code.fieldGet_fieldPrep hlt,
    maskOf_option.fieldGet_fieldPrep_of_disjoint maskOf_code (by decide),
    maskOf_start.fieldGet_fieldPrep_of_disjoint maskOf_code (by decide), UInt64.zero_or,
    UInt64.or_zero]

theorem nspCommandWord_start : nspCommandWord code option &&& nspCommandStart ≠ 0 := by
  intro hzero
  have hone : fieldGet nspCommandStart (nspCommandWord code option) = 1 := by
    have hlt : (1 : UInt64).toNat < 2 ^ startBits.width := by decide
    rw [nspCommandWord, maskOf_start.fieldGet_or, maskOf_start.fieldGet_or,
      maskOf_start.fieldGet_fieldPrep hlt,
      maskOf_option.fieldGet_fieldPrep_of_disjoint maskOf_start (by decide),
      maskOf_code.fieldGet_fieldPrep_of_disjoint maskOf_start (by decide), UInt64.zero_or,
      UInt64.zero_or]
  rw [fieldGet, hzero] at hone
  exact absurd hone (by decide)

theorem fieldGet_buffCpp :
    fieldGet nspBufferCpp (nspBufferWord buffCpp buffAddr) = (buffCpp >>> 8).toUInt64 := by
  have hlt : (buffCpp >>> 8).toUInt64.toNat < 2 ^ buffCppBits.width := by
    have h8 : (8 : UInt32).toNat % 32 = 8 := rfl
    have hbuff := buffCpp.toNat_lt
    change (buffCpp >>> 8).toNat < 2 ^ 24
    rw [UInt32.toNat_shiftRight, h8, Nat.shiftRight_eq_div_pow]
    omega
  rw [nspBufferWord, maskOf_buffCpp.fieldGet_or, maskOf_buffCpp.fieldGet_fieldPrep hlt,
    maskOf_buffAddr.fieldGet_fieldPrep_of_disjoint maskOf_buffCpp (by decide), UInt64.or_zero]

theorem fieldGet_buffAddr (hfit : fieldFit nspBufferAddress buffAddr = true) :
    fieldGet nspBufferAddress (nspBufferWord buffCpp buffAddr) = buffAddr := by
  have hlt : buffAddr.toNat < 2 ^ buffAddrBits.width := by
    have hmod : buffAddr.toNat % 2 ^ 64 < 2 ^ 38 := maskOf_buffAddr.fieldFit_iff.mp hfit
    rwa [Nat.mod_eq_of_lt buffAddr.toNat_lt] at hmod
  rw [nspBufferWord, maskOf_buffAddr.fieldGet_or, maskOf_buffAddr.fieldGet_fieldPrep hlt,
    maskOf_buffCpp.fieldGet_fieldPrep_of_disjoint maskOf_buffAddr (by decide), UInt64.zero_or]

/-- **The NSP reads the command that the host has written.** -/
theorem NspRequest.ofWords_words (hfit : fieldFit nspBufferAddress buffAddr = true) :
    NspRequest.ofWords (nspCommandWord code option) (nspBufferWord buffCpp buffAddr) =
      ⟨code, option, buffCpp >>> 8, buffAddr⟩ := by
  rw [ofWords, fieldGet_option, fieldGet_code, fieldGet_buffCpp, fieldGet_buffAddr hfit,
    UInt32.toUInt32_toUInt64, UInt32.toUInt32_toUInt64, UInt16.toUInt16_toUInt64]

end Words

/-! ### The NSP -/

/-- The buffers: the bytes at the addresses of every CPP id, without the island. -/
abbrev NspMemory := UInt32 → Mem

/-- A command that the NSP has carried out: the buffers when it took it and when it ended it, and
what it answered. -/
structure NspServed where
  request : NspRequest
  input : NspMemory
  result : UInt8
  value : UInt32
  output : NspMemory

/-- What `nfp_nsp_command` returns for it. -/
def NspServed.ret (e : NspServed) : ℤ :=
  if e.result ≠ 0 then -e.result.toNat else e.value.toInt32.toInt

/-- The end of `nfp_nsp_command`, with the answer of the NSP in its fields. -/
theorem NspServed.result_ret (e : NspServed) :
    (if e.result.toUInt64 ≠ 0 then .ret (-e.result.toUInt64.toNat)
      else .ret e.value.toUInt64.toUInt32.toInt32.toInt : CppProg ℤ) = .ret e.ret := by
  have hzero : e.result.toUInt64 = 0 ↔ e.result = 0 := UInt8.toUInt64_inj (b := 0)
  rw [NspServed.ret, UInt8.toNat_toUInt64, UInt32.toUInt32_toUInt64]
  by_cases h0 : e.result = 0
  · rw [if_neg (not_not.mpr (hzero.mpr h0)), if_neg (not_not.mpr h0)]
  · rw [if_pos (mt hzero.mp h0), if_pos h0]

/-- The NSP. -/
structure NspUnit where
  buffer : UInt64
  /-- The command that waits, as it has been written. -/
  pending : Option UInt64
  /-- The command that it carries out, with the buffers when it took it. -/
  running : Option (NspRequest × NspMemory)
  /-- What it answered to the last command. -/
  result : UInt8
  value : UInt32
  mem : NspMemory
  served : List NspServed

/-- A step of the NSP. While it carries a command out, no other is taken. -/
inductive NspStep : NspUnit → NspUnit → Prop where
  | take {s : NspUnit} {command : UInt64} : s.pending = some command → s.running = none →
      NspStep s { s with
        pending := none
        running := some (.ofWords command s.buffer, s.mem) }
  | finish {s : NspUnit} {request : NspRequest} {input : NspMemory} (result : UInt8)
      (value : UInt32) (output : NspMemory) : s.running = some (request, input) →
      NspStep s { s with
        running := none
        result := result
        value := value
        mem := output
        served := s.served ++ [⟨request, input, result, value, output⟩] }

/-- The status: the BUSY bit, and the result of the last command. -/
def NspUnit.StatusReg (s : NspUnit) (reg : UInt64) : Prop :=
  (reg &&& nspStatusBusy = 0 ↔ s.running = none) ∧
    (s.running = none → fieldGet nspStatusResult reg = s.result.toUInt64)

/-- The command: the START bit, and the value of the last command. -/
def NspUnit.CommandReg (s : NspUnit) (reg : UInt64) : Prop :=
  (reg &&& nspCommandStart = 0 ↔ s.pending = none) ∧
    (s.pending = none → s.running = none → fieldGet nspCommandOption reg = s.value.toUInt64)

/-- An access to the registers and the buffers of the NSP that has the resource `res`. Nothing is
said of other registers. A write to a buffer that fails may have been done in part. -/
def nspAccess (res : NfpResource) : Device CppOp CppOp.Answer NspUnit
  | .readq cppId a, s, x, s' => s' = s ∧ ∀ reg, x = .ok reg → cppId = res.cppId →
      (a = res.addr + nspStatus → s.StatusReg reg) ∧ (a = res.addr + nspCommand → s.CommandReg reg)
  | .writeq cppId a w, s, x, s' =>
    (∃ err, x = .error err ∧ s' = s) ∨ x = .ok () ∧ (cppId = res.cppId →
      (a = res.addr + nspBuffer → s' = { s with buffer := w }) ∧
      (a = res.addr + nspCommand → w &&& nspCommandStart ≠ 0 → s' = { s with pending := some w }))
  | .read cppId a _, s, x, s' => s' = s ∧ ((∃ err, err < 0 ∧ x = .error err) ∨
      x = .ok fun j => s.mem (cppId >>> 8) (a.toNat + j))
  | .write cppId a bytes, s, x, s' =>
    (∃ err m, err < 0 ∧ x = .error err ∧ s' = { s with mem := m }) ∨
      x = .ok () ∧ s' = { s with
        mem := Function.update s.mem (cppId >>> 8) ((s.mem (cppId >>> 8)).store a.toNat bytes) }
  | .readl _ _, s, _, s' => s' = s
  | .writel _ _ _, _, _, _ => True

/-- The NSP may go on before every access. -/
def nspDevice (res : NfpResource) : Device CppOp CppOp.Answer NspUnit := fun op s x s' =>
  ∃ s₁, Relation.ReflTransGen NspStep s s₁ ∧ nspAccess res op s₁ x s'

/-- The NSP has nothing to do. -/
structure NspUnit.Idle (s : NspUnit) : Prop where
  pending : s.pending = none
  running : s.running = none

/-- The last command that the NSP has carried out, after the commands `l`, is `r`, whose buffers
were `m` when it was given. -/
structure LastServed (r : NspRequest) (m : NspMemory) (l : List NspServed) (e : NspServed)
    (s : NspUnit) : Prop where
  idle : s.Idle
  request : e.request = r
  input : e.input = m
  result : e.result = s.result
  value : e.value = s.value
  output : e.output = s.mem
  served : s.served = l ++ [e]

/-- Where the command `r` is. -/
inductive Stage (r : NspRequest) (m : NspMemory) (l : List NspServed) (s : NspUnit) : Prop where
  | pending (command : UInt64) : s.pending = some command → s.running = none →
      .ofWords command s.buffer = r → s.mem = m → s.served = l → Stage r m l s
  | running : s.pending = none → s.running = some (r, m) → s.served = l → Stage r m l s
  | served (e : NspServed) : LastServed r m l e s → Stage r m l s

variable {res : NfpResource} {r : NspRequest} {m : NspMemory} {l : List NspServed}
  {s s' : NspUnit} {op : CppOp} {x : op.Answer}

theorem NspUnit.Idle.not_step (h : s.Idle) : ¬NspStep s s' := by
  intro hstep
  cases hstep with
  | take hp _ => exact Option.some_ne_none _ (hp.symm.trans h.pending)
  | finish _ _ _ hr => exact Option.some_ne_none _ (hr.symm.trans h.running)

theorem NspUnit.Idle.steps (h : s.Idle) (hs : Relation.ReflTransGen NspStep s s') : s' = s := by
  induction hs with
  | refl => rfl
  | tail _ hstep ih => exact absurd (ih ▸ hstep) h.not_step

/-- An idle NSP does nothing by itself. -/
theorem NspUnit.Idle.access (h : s.Idle) (hx : nspDevice res op s x s') :
    nspAccess res op s x s' := by
  obtain ⟨s₁, hs, hx⟩ := hx
  rwa [h.steps hs] at hx

namespace Stage

/-- The NSP takes the command and ends it. -/
theorem step (h : Stage r m l s) (hstep : NspStep s s') : Stage r m l s' := by
  cases h with
  | pending command hp hr hreq hm hl =>
    cases hstep with
    | take hp' _ =>
      obtain rfl := Option.some.inj (hp.symm.trans hp')
      refine .running rfl ?_ hl
      dsimp only
      rw [hreq, hm]
    | finish _ _ _ hr' => exact absurd (hr'.symm.trans hr) (Option.some_ne_none _)
  | running hp hr hl =>
    cases hstep with
    | take hp' _ => exact absurd (hp'.symm.trans hp) (Option.some_ne_none _)
    | finish result value output hr' =>
      obtain ⟨rfl, rfl⟩ := Prod.mk.inj (Option.some.inj (hr.symm.trans hr'))
      refine .served ⟨r, m, result, value, output⟩ ⟨⟨hp, rfl⟩, rfl, rfl, rfl, rfl, rfl, ?_⟩
      dsimp only
      rw [hl]
  | served e he => exact absurd hstep he.idle.not_step

theorem steps (h : Stage r m l s) (hs : Relation.ReflTransGen NspStep s s') : Stage r m l s' := by
  induction hs with
  | refl => exact h
  | tail _ hstep ih => exact ih.step hstep

/-- A command that neither waits nor is carried out has been carried out. -/
theorem exists_last (h : Stage r m l s) (hp : s.pending = none) (hr : s.running = none) :
    ∃ e, LastServed r m l e s := by
  cases h with
  | pending command hp' _ _ _ _ => exact absurd (hp'.symm.trans hp) (Option.some_ne_none _)
  | running _ hr' _ => exact absurd (hr'.symm.trans hr) (Option.some_ne_none _)
  | served e he => exact ⟨e, he⟩

end Stage

theorem NspStep.pending (hp : s.pending = none) (h : NspStep s s') : s'.pending = none := by
  cases h with
  | take hp' _ => exact absurd (hp'.symm.trans hp) (Option.some_ne_none _)
  | finish _ _ _ _ => exact hp

theorem pending_of_steps (hp : s.pending = none) (hs : Relation.ReflTransGen NspStep s s') :
    s'.pending = none := by
  induction hs with
  | refl => exact hp
  | tail _ hstep ih => exact hstep.pending ih

end NfpUdpEcho
