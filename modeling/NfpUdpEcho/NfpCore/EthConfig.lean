import NfpUdpEcho.NfpCore.EthTable
import NfpUdpEcho.NfpCore.ResourceSafety

/-!
# Changing the table of ports

The other functions of `user/nfpcore/nfp_nsp_eth.c`. `nfp_eth_config_start` reads the entries, the
setters change fields of one of them, and `nfp_eth_config_commit_end` gives the entries to the NSP
if any setter has changed something.

A setter announces the field that it changes with a bit of the control word
(`ChangedFrom.setBitConfig`), and the field is read as it has been set (`ethSetBitConfig_get`). So
what the NSP is given is what it has written but for announced fields of one entry, and it is given
nothing if nothing has been set that differs (`ethConfig_served`).

The four fields that the setters change are one family (`EthField`): each has a word, a mask and a
bit of the control word, and the masks are ranges of bits that do not meet. So there is one lemma on
what `nfp_eth_set_bit_config` does to any of them, and the setters are its instances. `ChangedFrom`
is the invariant of a session: it is kept by each setter (`ChangedFrom.step`) and so by any sequence
of them (`ChangedFrom.sets`). What is announced is never taken back, because a setter only adds bits
to the control word.
-/

namespace NfpUdpEcho

open Access BitField ByteMem Errno LittleEndian

/-! ### The entries in memory -/

/-- Where the word `raw` of `entries[i]` is. -/
def ethRawAt (i : Fin nspEthMaxCount) (raw : NfpEthRaw) : ℕ := i * ethTableEntrySize + raw.word * 8

/-- `entries[i].raw[raw]`. -/
def ethRaw (entries : Mem) (i : Fin nspEthMaxCount) (raw : NfpEthRaw) : UInt64 :=
  u64OfBytes (entries.load (ethRawAt i raw) 8)

/-- The entries with another word. -/
def setEthRaw (entries : Mem) (i : Fin nspEthMaxCount) (raw : NfpEthRaw) (w : UInt64) : Mem :=
  entries.store (ethRawAt i raw) (u64Bytes w)

/-- `struct nfp_nsp` from `nfp_eth_config_start` to the end. The index is one of the table, which
the functions do not check. -/
structure EthConfig where
  nsp : NfpNsp
  modified : Bool
  idx : Fin nspEthMaxCount
  entries : Mem

/-! ### Setters -/

/-- The bits of the words `state` and `control`. -/
def nspEthStateConfigured : UInt64 := (1 : UInt64) <<< 0

def nspEthCtrlConfigured : UInt64 := (1 : UInt64) <<< 0
def nspEthCtrlEnabled : UInt64 := (1 : UInt64) <<< 1
def nspEthCtrlSetRate : UInt64 := (1 : UInt64) <<< 4
def nspEthCtrlSetLanes : UInt64 := (1 : UInt64) <<< 5
def nspEthCtrlSetAneg : UInt64 := (1 : UInt64) <<< 6
def nspEthCtrlSetFec : UInt64 := (1 : UInt64) <<< 7

/-- `nfp_eth_set_bit_config`. -/
def nfpEthSetBitConfig (c : EthConfig) (rawIdx : NfpEthRaw) (mask : UInt64) (shift val : UInt32)
    (ctrlBit : UInt64) : ℤ × EthConfig :=
  if c.nsp.minor < 17 then (-EOPNOTSUPP, c)
  else
    let reg := ethRaw c.entries c.idx rawIdx
    -- the entry is as requested already
    if val.toUInt64 = (reg &&& mask) >>> shift.toUInt64 then (0, c)
    else
      -- `val << shift` has 32 bits
      let reg := (reg &&& ~~~mask) ||| ((val <<< shift).toUInt64 &&& mask)
      let entries := setEthRaw c.entries c.idx rawIdx reg
      let control := ethRaw entries c.idx .control ||| ctrlBit
      (0, { c with entries := setEthRaw entries c.idx .control control, modified := true })

/-- `NFP_ETH_SET_BIT_CONFIG`. -/
def ethSetBitConfig (c : EthConfig) (rawIdx : NfpEthRaw) (mask : UInt64) (val : UInt32)
    (ctrlBit : UInt64) : ℤ × EthConfig :=
  nfpEthSetBitConfig c rawIdx mask (bfShf mask).toUInt32 val ctrlBit

/-- `nfp_eth_speed2rate`. -/
def nfpEthSpeed2rate (speed : UInt32) : NfpEthRate :=
  ((nspEthRateTbl.find? fun r => r.2 = speed).map Prod.fst).getD .invalid

/-- `__nfp_eth_set_aneg`. -/
def ethSetAneg (c : EthConfig) (mode : UInt32) : ℤ × EthConfig :=
  ethSetBitConfig c .state nspEthStateAneg mode nspEthCtrlSetAneg

/-- `__nfp_eth_set_fec`. -/
def ethSetFec (c : EthConfig) (mode : UInt32) : ℤ × EthConfig :=
  ethSetBitConfig c .state nspEthStateFec mode nspEthCtrlSetFec

/-- `__nfp_eth_set_speed`. -/
def ethSetSpeed (c : EthConfig) (speed : UInt32) : ℤ × EthConfig :=
  let rate := nfpEthSpeed2rate speed
  if rate = .invalid then (-EINVAL, c)
  else ethSetBitConfig c .state nspEthStateRate rate.code nspEthCtrlSetRate

/-- `__nfp_eth_set_split`. -/
def ethSetSplit (c : EthConfig) (lanes : UInt32) : ℤ × EthConfig :=
  ethSetBitConfig c .port nspEthPortLanes lanes nspEthCtrlSetLanes

/-- What `nfp_eth_set_mod_enable` and `nfp_eth_set_configured` do to the entry. -/
def ethSetControl (c : EthConfig) (stateMask ctrlMask : UInt64) (val : Int32) : EthConfig :=
  if val ≠ (fieldGet stateMask (ethRaw c.entries c.idx .state)).toUInt32.toInt32 then
    let reg := ethRaw c.entries c.idx .control
    let reg := (reg &&& ~~~ctrlMask) ||| fieldPrep ctrlMask val.toInt64.toUInt64
    { c with entries := setEthRaw c.entries c.idx .control reg, modified := true }
  else c

/-! ### From start to end -/

/-- `nfp_eth_config_start`, once the NSP is open. -/
def ethConfigStart (nsp : NfpNsp) (idx : Fin nspEthMaxCount) :
    CppProg (Option EthConfig × NfpNsp) :=
  (nfpNspReadEthTable nsp nspEthTableSize).bind fun (ret, nsp, bytes) =>
    if ret < 0 then .ret (none, nsp)
    else
      let entries := Mem.store (fun _ => 0) 0 bytes
      if ethRaw entries idx .port &&& nspEthPortLanes = 0 then .ret (none, nsp)
      else .ret (some ⟨nsp, false, idx, entries⟩, nsp)

/-- `nfp_eth_config_start`. `malloc` is whether there is memory for the entries and for the NSP. -/
def nfpEthConfigStart (calloc : ℕ → Bool) (malloc : Bool × Bool × Bool) (waits : ℕ)
    (idx : Fin nspEthMaxCount) (host : NfpCppHost) : CppProg (Outcome (Option EthConfig)) :=
  if malloc.1 then
    (nfpNspOpen calloc malloc.2 waits host).andThen fun
      | none, host => .ret (.done none host)
      | some nsp, host =>
        (ethConfigStart nsp idx).bind fun
          | (some c, _) => .ret (.done (some c) host)
          | (none, nsp) => (nfpNspClose nsp host).andThen fun _ host => .ret (.done none host)
  else .ret (.done none host)

/-- `nfp_eth_config_cleanup_end`. -/
def nfpEthConfigCleanupEnd (nsp : NfpNsp) (host : NfpCppHost) : CppProg (Outcome Unit) :=
  nfpNspClose nsp host

/-- `nfp_eth_config_commit_end`, up to the end of the NSP. -/
def ethConfigCommit (c : EthConfig) : CppProg (ℤ × NfpNsp) :=
  if c.modified then
    (nfpNspWriteEthTable c.nsp (c.entries.load 0 nspEthTableSize)).bind fun (ret, nsp, _) =>
      .ret (if ret < 0 then ret else 0, nsp)
  else .ret (1, c.nsp)

/-- `nfp_eth_config_commit_end`. -/
def nfpEthConfigCommitEnd (c : EthConfig) (host : NfpCppHost) : CppProg (Outcome ℤ) :=
  (ethConfigCommit c).bind fun (ret, nsp) =>
    (nfpEthConfigCleanupEnd nsp host).andThen fun _ host => .ret (.done ret host)

section Calls

variable (calloc : ℕ → Bool) (malloc : Bool × Bool × Bool) (waits : ℕ)
  (idx : Fin nspEthMaxCount) (host : NfpCppHost)

/-- `nfp_eth_set_mod_enable`. -/
def nfpEthSetModEnable (enable : Int32) : CppProg (Outcome ℤ) :=
  (nfpEthConfigStart calloc malloc waits idx host).andThen fun
    | none, host => .ret (.done (-1) host)
    | some c, host =>
      nfpEthConfigCommitEnd (ethSetControl c nspEthCtrlEnabled nspEthCtrlEnabled enable) host

/-- `nfp_eth_set_configured`. -/
def nfpEthSetConfigured (configed : Int32) : CppProg (Outcome ℤ) :=
  (nfpEthConfigStart calloc malloc waits idx host).andThen fun
    | none, host => .ret (.done (-Errno.EIO) host)
    | some c, host =>
      if c.nsp.minor < 20 then
        (nfpEthConfigCleanupEnd c.nsp host).andThen fun _ host =>
          .ret (.done (-EOPNOTSUPP) host)
      else
        nfpEthConfigCommitEnd
          (ethSetControl c nspEthStateConfigured nspEthCtrlConfigured configed) host

/-- `nfp_eth_set_fec`. -/
def nfpEthSetFec (mode : UInt32) : CppProg (Outcome ℤ) :=
  (nfpEthConfigStart calloc malloc waits idx host).andThen fun
    | none, host => .ret (.done (-Errno.EIO) host)
    | some c, host =>
      let (err, c) := ethSetFec c mode
      if err ≠ 0 then
        (nfpEthConfigCleanupEnd c.nsp host).andThen fun _ host => .ret (.done err host)
      else nfpEthConfigCommitEnd c host

end Calls

/-! ### Words of the entries -/

section Raw

variable {entries : Mem} {i : Fin nspEthMaxCount} {raw raw' : NfpEthRaw} {w : UInt64}

/-- A word that is written is read back. -/
theorem ethRaw_setEthRaw : ethRaw (setEthRaw entries i raw w) i raw = w := by
  have hload := Mem.load_store entries (ethRawAt i raw) (u64Bytes w)
  rw [length_u64Bytes] at hload
  rw [ethRaw, setEthRaw, hload, u64OfBytes_u64Bytes]

/-- The other words of the entry stay as they are. -/
theorem ethRaw_setEthRaw_of_ne (h : raw' ≠ raw) :
    ethRaw (setEthRaw entries i raw w) i raw' = ethRaw entries i raw' := by
  rw [ethRaw, setEthRaw, Mem.load_store_of_not, ethRaw]
  rw [length_u64Bytes]
  unfold ethRawAt
  -- two words of an entry do not overlap
  cases raw <;> cases raw' <;> first
    | exact absurd rfl h
    | exact .inl (by simp only [NfpEthRaw.word]; omega)
    | exact .inr (by simp only [NfpEthRaw.word]; omega)

/-- The byte `k` is one of `entries[i]`. -/
def InEntry (i : Fin nspEthMaxCount) (k : ℕ) : Prop :=
  i * ethTableEntrySize ≤ k ∧ k < (i + 1) * ethTableEntrySize

/-- So does everything outside the entry. -/
theorem setEthRaw_of_not {k : ℕ} (h : ¬InEntry i k) : setEthRaw entries i raw w k = entries k := by
  rw [setEthRaw, Mem.store, Mem.copy_of_not]
  rw [length_u64Bytes]
  have hword : raw.word ≤ 3 := by cases raw <;> decide
  unfold InEntry ethTableEntrySize at h
  unfold ethRawAt ethTableEntrySize
  omega

end Raw

/-! ### Announced changes -/

/-- The fields that the setters change. -/
inductive EthField where
  | rate | lanes | aneg | fec
deriving DecidableEq

namespace EthField

/-- The word it is in. -/
def raw : EthField → NfpEthRaw
  | lanes => .port
  | rate | aneg | fec => .state

/-- Its mask. -/
def mask : EthField → UInt64
  | rate => nspEthStateRate
  | lanes => nspEthPortLanes
  | aneg => nspEthStateAneg
  | fec => nspEthStateFec

/-- The bit of the control word that announces it. -/
def ctrlBit : EthField → UInt64
  | rate => nspEthCtrlSetRate
  | lanes => nspEthCtrlSetLanes
  | aneg => nspEthCtrlSetAneg
  | fec => nspEthCtrlSetFec

/-- Its bits. -/
def bits : EthField → BitRange 64
  | rate => ⟨8, 4, by decide⟩
  | lanes => lanesBits
  | aneg => ⟨23, 3, by decide⟩
  | fec => ⟨26, 2, by decide⟩

/-- That bit as a range. -/
def ctrlBits : EthField → BitRange 64
  | rate => ⟨4, 1, by decide⟩
  | lanes => ⟨5, 1, by decide⟩
  | aneg => ⟨6, 1, by decide⟩
  | fec => ⟨7, 1, by decide⟩

/-- What an entry has in the field. -/
def get (f : EthField) (entries : Mem) (i : Fin nspEthMaxCount) : UInt64 :=
  fieldGet f.mask (ethRaw entries i f.raw)

/-- The change of the field is announced. -/
def Announced (f : EthField) (entries : Mem) (i : Fin nspEthMaxCount) : Prop :=
  fieldGet f.ctrlBit (ethRaw entries i .control) ≠ 0

variable {f g : EthField}

/-- The mask has the bits of the field. -/
theorem maskOf (f : EthField) : MaskOf f.bits f.mask := by
  cases f
  · exact maskOf_genmaskUll (f := rate.bits) (by decide)
  · exact maskOf_lanes
  · exact maskOf_genmaskUll (f := aneg.bits) (by decide)
  · exact maskOf_genmaskUll (f := fec.bits) (by decide)

/-- The bit is a mask as well. -/
theorem maskOf_ctrlBit (f : EthField) : MaskOf f.ctrlBits f.ctrlBit := by
  cases f <;> exact ⟨by decide, by decide⟩

/-- No field is in the control word. -/
theorem raw_ne_control (f : EthField) : f.raw ≠ .control := by
  cases f <;> decide

/-- Two fields of a word do not meet. -/
theorem disjoint (hne : g ≠ f) (hraw : g.raw = f.raw) : f.bits.Disjoint g.bits := by
  cases f <;> cases g <;> first
    | exact absurd rfl hne
    | exact absurd hraw (by decide)
    | decide

/-- The bit is set in itself. -/
theorem fieldGet_ctrlBit (f : EthField) : fieldGet f.ctrlBit f.ctrlBit ≠ 0 := by
  cases f <;> decide

end EthField

/-- The calls between the start and the end. -/
inductive EthSet : EthConfig → EthConfig → Prop where
  | aneg (c : EthConfig) (mode : UInt32) : EthSet c (ethSetAneg c mode).2
  | fec (c : EthConfig) (mode : UInt32) : EthSet c (ethSetFec c mode).2
  | speed (c : EthConfig) (speed : UInt32) : EthSet c (ethSetSpeed c speed).2
  | split (c : EthConfig) (lanes : UInt32) : EthSet c (ethSetSplit c lanes).2
  | enabled (c : EthConfig) (val : Int32) :
      EthSet c (ethSetControl c nspEthCtrlEnabled nspEthCtrlEnabled val)
  | configured (c : EthConfig) (val : Int32) :
      EthSet c (ethSetControl c nspEthStateConfigured nspEthCtrlConfigured val)

/-- The entries are `entries₀` but for announced changes of the entry `idx`. -/
structure ChangedFrom (nsp : NfpNsp) (idx : Fin nspEthMaxCount) (entries₀ : Mem) (c : EthConfig) :
    Prop where
  nsp_eq : c.nsp = nsp
  idx_eq : c.idx = idx
  unmodified : c.modified = false → c.entries = entries₀
  others {k : ℕ} : ¬InEntry idx k → c.entries k = entries₀ k
  announced (f : EthField) : f.get c.entries idx ≠ f.get entries₀ idx → f.Announced c.entries idx
  /-- The other bits of the words that are not the control word are as they were. -/
  kept {raw : NfpEthRaw} {g : BitRange 64} : raw ≠ .control →
    (∀ f : EthField, f.raw = raw → f.bits.Disjoint g) →
    g.get (ethRaw c.entries idx raw).toBitVec = g.get (ethRaw entries₀ idx raw).toBitVec

namespace ChangedFrom

variable {nsp : NfpNsp} {idx : Fin nspEthMaxCount} {entries₀ : Mem} {c c' : EthConfig}

/-- A setter that writes a field and announces it. -/
theorem setBitConfig (h : ChangedFrom nsp idx entries₀ c) (f : EthField) (val : UInt32) :
    ChangedFrom nsp idx entries₀ (ethSetBitConfig c f.raw f.mask val f.ctrlBit).2 := by
  obtain rfl := h.idx_eq
  unfold ethSetBitConfig nfpEthSetBitConfig
  split
  · exact h
  dsimp only
  split
  · exact h
  -- the word of the field is written first, and the control word then
  let reg := (ethRaw c.entries c.idx f.raw &&& ~~~f.mask) |||
    ((val <<< (bfShf f.mask).toUInt32).toUInt64 &&& f.mask)
  let entries := setEthRaw c.entries c.idx f.raw reg
  let entries' := setEthRaw entries c.idx .control (ethRaw entries c.idx .control ||| f.ctrlBit)
  have hcontrol : ethRaw entries' c.idx .control =
      ethRaw c.entries c.idx .control ||| f.ctrlBit := by
    rw [ethRaw_setEthRaw, ethRaw_setEthRaw_of_ne f.raw_ne_control.symm]
  have hkept {raw : NfpEthRaw} {g : BitRange 64} (hne : raw ≠ .control)
      (hdisj : f.raw = raw → f.bits.Disjoint g) :
      g.get (ethRaw entries' c.idx raw).toBitVec = g.get (ethRaw c.entries c.idx raw).toBitVec := by
    rw [ethRaw_setEthRaw_of_ne hne]
    by_cases hraw : raw = f.raw
    · subst hraw
      rw [ethRaw_setEthRaw]
      exact f.maskOf.get_write_of_disjoint (hdisj rfl)
    · rw [ethRaw_setEthRaw_of_ne hraw]
  have hothers {k : ℕ} (hk : ¬InEntry c.idx k) : entries' k = c.entries k := by
    change setEthRaw entries c.idx .control _ k = _
    rw [setEthRaw_of_not hk]
    exact setEthRaw_of_not hk
  change ChangedFrom nsp c.idx entries₀ { c with entries := entries', modified := true }
  refine ⟨h.nsp_eq, rfl, nofun, fun hk => ?_, fun g hne => ?_, fun hne hdisj => ?_⟩
  · exact (hothers hk).trans (h.others hk)
  · -- a bit of the control word is never cleared
    have hor : fieldGet g.ctrlBit (ethRaw entries' c.idx .control) =
        fieldGet g.ctrlBit (ethRaw c.entries c.idx .control) ||| fieldGet g.ctrlBit f.ctrlBit := by
      rw [hcontrol, g.maskOf_ctrlBit.fieldGet_or]
    intro hzero
    obtain ⟨hold, hnew⟩ := UInt64.or_eq_zero_iff.mp (hor.symm.trans hzero)
    by_cases hg : g = f
    · -- the field itself is announced now
      subst hg
      exact g.fieldGet_ctrlBit hnew
    · -- another field has not changed, so it was announced before if it differs
      have hget : g.get entries' c.idx = g.get c.entries c.idx :=
        g.maskOf.fieldGet_congr (hkept g.raw_ne_control fun hraw =>
          EthField.disjoint hg hraw.symm)
      exact h.announced g (fun he => hne (hget.trans he)) hold
  · exact (hkept hne (hdisj f)).trans (h.kept hne hdisj)

/-- A setter that changes the control word itself, in bits that announce nothing. -/
theorem setControl {b : BitRange 64} {stateMask ctrlMask : UInt64}
    (h : ChangedFrom nsp idx entries₀ c) (hmask : MaskOf b ctrlMask)
    (hdisj : ∀ f : EthField, b.Disjoint f.ctrlBits) (val : Int32) :
    ChangedFrom nsp idx entries₀ (ethSetControl c stateMask ctrlMask val) := by
  obtain rfl := h.idx_eq
  unfold ethSetControl
  split
  · dsimp only
    refine ⟨h.nsp_eq, rfl, nofun, fun hk => ?_, fun f hne => ?_, fun hne hdisj => ?_⟩
    · dsimp only
      rw [setEthRaw_of_not hk, h.others hk]
    · unfold EthField.Announced
      rw [ethRaw_setEthRaw, fieldPrep,
        f.maskOf_ctrlBit.fieldGet_congr (hmask.get_write_of_disjoint (hdisj f))]
      refine h.announced f fun he => hne ?_
      unfold EthField.get at he ⊢
      rw [ethRaw_setEthRaw_of_ne f.raw_ne_control, he]
    · rw [ethRaw_setEthRaw_of_ne hne]
      exact h.kept hne hdisj
  · exact h

/-- A setter keeps it. -/
theorem step (h : ChangedFrom nsp idx entries₀ c) (hset : EthSet c c') :
    ChangedFrom nsp idx entries₀ c' := by
  cases hset with
  | aneg mode => exact h.setBitConfig .aneg mode
  | fec mode => exact h.setBitConfig .fec mode
  | split lanes => exact h.setBitConfig .lanes lanes
  | speed speed =>
    unfold ethSetSpeed
    dsimp only
    split
    · exact h
    · exact h.setBitConfig .rate _
  | enabled val =>
    have hmask : MaskOf ⟨1, 1, by decide⟩ nspEthCtrlEnabled := ⟨by decide, by decide⟩
    exact h.setControl hmask (fun f => by cases f <;> decide) val
  | configured val =>
    have hmask : MaskOf ⟨0, 1, by decide⟩ nspEthCtrlConfigured := ⟨by decide, by decide⟩
    exact h.setControl hmask (fun f => by cases f <;> decide) val

/-- **Whatever has been set**, every change is announced. -/
theorem sets (h : ChangedFrom nsp idx entries₀ c) (hsets : Relation.ReflTransGen EthSet c c') :
    ChangedFrom nsp idx entries₀ c' := by
  induction hsets with
  | refl => exact h
  | tail _ hset ih => exact ih.step hset

/-- Nothing has been set yet. -/
theorem refl (nsp : NfpNsp) (idx : Fin nspEthMaxCount) (entries : Mem) :
    ChangedFrom nsp idx entries ⟨nsp, false, idx, entries⟩ :=
  ⟨rfl, rfl, fun _ => rfl, fun _ => rfl, fun _ hne => absurd rfl hne, fun _ _ => rfl⟩

end ChangedFrom

/-! ### Setting and reading -/

/-- A shift in 32 bits that loses nothing is one in 64 bits. -/
theorem toUInt64_shiftLeft {val : UInt32} {k : ℕ} (hk : k < 32)
    (hval : val.toNat * 2 ^ k < 2 ^ 32) :
    (val <<< k.toUInt32).toUInt64 = val.toUInt64 <<< k.toUInt64 := by
  have h32 : k.toUInt32.toNat = k := UInt32.toNat_ofNat_of_lt' (hk.trans (by decide))
  have h64 : k.toUInt64.toNat = k := UInt64.toNat_ofNat_of_lt' (hk.trans (by decide))
  apply UInt64.toNat_inj.mp
  rw [UInt32.toNat_toUInt64, UInt32.toNat_shiftLeft, UInt64.toNat_shiftLeft, h32, h64,
    UInt32.toNat_toUInt64, Nat.mod_eq_of_lt hk, Nat.mod_eq_of_lt (hk.trans (by decide)),
    Nat.shiftLeft_eq, Nat.mod_eq_of_lt hval, Nat.mod_eq_of_lt (hval.trans (by decide))]

/-- The setters shift in 32 bits, which all their fields are in. -/
theorem EthField.prep_eq (f : EthField) {val : UInt32} (hval : val.toNat < 2 ^ f.bits.width) :
    (val <<< (bfShf f.mask).toUInt32).toUInt64 &&& f.mask = fieldPrep f.mask val.toUInt64 := by
  have hlsb : f.bits.lsb + f.bits.width ≤ 32 := by cases f <;> decide
  have hk : f.bits.lsb < 32 := by cases f <;> decide
  have hshift : (bfShf f.mask).toUInt32 = f.bits.lsb.toUInt32 := by
    rw [f.maskOf.bfShf_eq]
    cases f <;> decide
  have hlt : val.toNat * 2 ^ f.bits.lsb < 2 ^ 32 := by
    calc val.toNat * 2 ^ f.bits.lsb
        < 2 ^ f.bits.width * 2 ^ f.bits.lsb := Nat.mul_lt_mul_of_pos_right hval (by positivity)
      _ = 2 ^ (f.bits.lsb + f.bits.width) := by rw [← Nat.pow_add, Nat.add_comm]
      _ ≤ 2 ^ 32 := Nat.pow_le_pow_right (by decide) hlsb
  rw [hshift, toUInt64_shiftLeft hk hlt, fieldPrep, f.maskOf.bfShf_eq]

/-- **What has been set is read**, whether or not it has been so before. -/
theorem ethSetBitConfig_get (c : EthConfig) (f : EthField) {val : UInt32}
    (hminor : ¬c.nsp.minor < 17) (hval : val.toNat < 2 ^ f.bits.width) :
    (ethSetBitConfig c f.raw f.mask val f.ctrlBit).1 = 0 ∧
      f.get (ethSetBitConfig c f.raw f.mask val f.ctrlBit).2.entries c.idx = val.toUInt64 := by
  unfold ethSetBitConfig nfpEthSetBitConfig
  rw [if_neg hminor]
  dsimp only
  split
  next he =>
    have hshift : (bfShf f.mask).toUInt32.toUInt64 = bfShf f.mask := by cases f <;> decide
    refine ⟨rfl, ?_⟩
    rw [he, hshift]
    rfl
  next =>
    refine ⟨rfl, ?_⟩
    have hlt : val.toUInt64.toNat < 2 ^ f.bits.width := hval
    dsimp only [EthField.get]
    rw [ethRaw_setEthRaw_of_ne f.raw_ne_control, ethRaw_setEthRaw,
      f.maskOf.fieldGet_congr f.maskOf.get_write]
    -- what is written is `FIELD_PREP` of the value, although it is shifted in 32 bits
    have hprep := congrArg (fieldGet f.mask) (f.prep_eq hval)
    rw [f.maskOf.fieldGet_fieldPrep hlt] at hprep
    rw [← hprep, ← UInt64.toBitVec_inj, f.maskOf.toBitVec_fieldGet, f.maskOf.toBitVec_fieldGet,
      UInt64.toBitVec_and, f.maskOf.bits, BitRange.get_and_mask]

/-- The rate of 25G. -/
theorem ethSetBitConfig_get_rate :
    ¬(bufferNsp.checked.minor < 17) ∧ (5 : UInt32).toNat < 2 ^ EthField.rate.bits.width ∧
    EthField.rate.get (ethSetBitConfig ⟨bufferNsp.checked, false, ⟨0, by decide⟩, fun _ => 0⟩
      EthField.rate.raw EthField.rate.mask 5 EthField.rate.ctrlBit).2.entries ⟨0, by decide⟩ =
        (5 : UInt32).toUInt64 :=
  ⟨by decide, by decide,
    (ethSetBitConfig_get ⟨bufferNsp.checked, false, ⟨0, by decide⟩, fun _ => 0⟩ .rate (by decide)
      (by decide)).2⟩

/-! ### What the NSP is given -/

section Handle

open Prog

variable (nsp : NfpNsp) (code : UInt16) (option cppId : UInt32) (cppBuf : UInt64)

/-- A command leaves the handle its resource. -/
theorem nfpNspCommand_res :
    (nfpNspCommand nsp code option cppId cppBuf).All fun q => q.2.res = nsp.res := by
  refine within_bind.mpr ((nfpNspCheck_within (a := 0) nsp).all.mono (fun _ => id) ?_)
  rintro ⟨err, state⟩ (hres : state.res = nsp.res)
  dsimp only
  split_ifs
  · exact hres
  · exact hres
  refine ⟨trivial, fun x => ?_⟩
  change Except ℤ Unit at x
  cases x with
  | error err => exact hres
  | ok _ =>
    refine ⟨trivial, fun x => ?_⟩
    change Except ℤ Unit at x
    cases x with
    | error err => exact hres
    | ok _ => exact within_bind.mpr (all_of_forall _ fun _ => hres)

/-- The handle keeps its resource. -/
theorem nspCommandOut_res (outSize : ℕ) :
    (nspCommandOut nsp code option cppId cppBuf outSize).All fun q => q.2.1.res = nsp.res := by
  refine within_bind.mpr ((nfpNspCommand_res nsp code option cppId cppBuf).mono (fun _ => id) ?_)
  rintro ⟨ret, state⟩ (hres : state.res = nsp.res)
  dsimp only
  split_ifs
  · exact hres
  · refine ⟨trivial, fun x => ?_⟩
    change Except ℤ (Fin _ → UInt8) at x
    cases x <;> exact hres
  · exact hres

/-- Also when the buffer is cleared first. -/
theorem nspClearBuf_res (inSize outSize : ℕ) :
    (nspClearBuf nsp code option cppId cppBuf inSize outSize).All fun q =>
      q.2.1.res = nsp.res := by
  unfold nspClearBuf
  split_ifs
  · refine ⟨trivial, fun x => ?_⟩
    change Except ℤ Unit at x
    cases x with
    | error err => rfl
    | ok _ => exact nspCommandOut_res nsp code option cppId cppBuf outSize
  · exact nspCommandOut_res nsp code option cppId cppBuf outSize

/-- A command with buffers keeps the resource of its handle. -/
theorem nfpNspCommandBuf_res (inBuf : List UInt8) (outSize : ℕ) :
    (nfpNspCommandBuf nsp code option inBuf outSize).All fun q => q.2.1.res = nsp.res := by
  unfold nfpNspCommandBuf
  split
  · rfl
  refine ⟨trivial, fun x => ?_⟩
  change Except ℤ UInt64 at x
  cases x with
  | error err => rfl
  | ok config =>
    dsimp only
    split
    · rfl
    refine ⟨trivial, fun x => ?_⟩
    change Except ℤ UInt64 at x
    cases x with
    | error err => rfl
    | ok reg =>
      dsimp only
      split
      · refine ⟨trivial, fun x => ?_⟩
        change Except ℤ Unit at x
        cases x with
        | error err => rfl
        | ok _ => exact nspClearBuf_res nsp code option _ _ _ outSize
      · exact nspClearBuf_res nsp code option _ _ _ outSize

end Handle

/-- The bytes that the NSP has written for a command. -/
def NspServed.table (e : NspServed) : List UInt8 :=
  (e.output e.request.buffCpp).load e.request.buffAddr.toNat nspEthTableSize

/-- The bytes that it has been given with a command. -/
def NspServed.given (e : NspServed) : List UInt8 :=
  (e.input e.request.buffCpp).load e.request.buffAddr.toNat nspEthTableSize

variable {nsp nsp₁ nsp₂ : NfpNsp} {idx : Fin nspEthMaxCount} {s s₁ s₂ : NspUnit}
  {c₀ c : EthConfig} {ret : ℤ}

/-- The start: the entries are those that the NSP has written. -/
theorem ethConfigStart_served (hidle : s.Idle)
    (hrun : Runs (nspDevice nsp.res) (ethConfigStart nsp idx) s (some c₀, nsp₁) s₁) :
    s₁.Idle ∧ c₀.nsp.res = nsp.res ∧ ∃ e, s₁.served = s.served ++ [e] ∧
      e.request.code = NfpNspCmd.ethRescan.code ∧
      c₀ = ⟨c₀.nsp, false, idx, Mem.store (fun _ => 0) 0 e.table⟩ := by
  obtain ⟨⟨ret, nsp', bytes⟩, s', hread, hrest⟩ := runs_bind.mp hrun
  have hres : nsp'.res = nsp.res := (nfpNspCommandBuf_res nsp _ _ _ _).of_runs hread
  have hafter := ensures_nspCommandBuf nsp NfpNspCmd.ethRescan.code nspEthTableSize.toUInt32 []
    nspEthTableSize hidle _ _ hread
  dsimp only at hrest hafter
  by_cases hneg : ret < 0
  · rw [if_pos hneg] at hrest
    exact absurd (congrArg Prod.fst (runs_ret.mp hrest).1) nofun
  rw [if_neg hneg] at hrest
  split at hrest
  · exact absurd (congrArg Prod.fst (runs_ret.mp hrest).1) nofun
  · obtain ⟨he, rfl⟩ := runs_ret.mp hrest
    obtain rfl := Option.some.inj (congrArg Prod.fst he)
    cases hafter with
    | refused _ _ hret => exact absurd hret hneg
    | lost _ _ hret => exact absurd (lost_neg hret) hneg
    | served e hidle' hserved hasks hret =>
      have hbytes : bytes = e.table := (hret (not_lt.mp hneg)).2
      exact ⟨hidle', hres, e, hserved, hasks.1, hbytes ▸ rfl⟩

/-- The end: the NSP is given the entries as they are, if any has been changed. -/
theorem ethConfigCommit_served (hidle : s₁.Idle)
    (hrun : Runs (nspDevice c.nsp.res) (ethConfigCommit c) s₁ (ret, nsp₂) s₂) (hret : 0 ≤ ret) :
    (ret = 1 ∧ c.modified = false ∧ s₂ = s₁) ∨
      ret = 0 ∧ ∃ e, s₂.served = s₁.served ++ [e] ∧
        e.request.code = NfpNspCmd.ethControl.code ∧
        e.given = c.entries.load 0 nspEthTableSize := by
  unfold ethConfigCommit at hrun
  cases hmodified : c.modified with
  | false =>
    rw [hmodified, if_neg (by decide)] at hrun
    obtain ⟨he, rfl⟩ := runs_ret.mp hrun
    exact .inl ⟨congrArg Prod.fst he, rfl, rfl⟩
  | true =>
    rw [hmodified, if_pos rfl] at hrun
    obtain ⟨⟨n, nsp', bytes⟩, s', hwrite, hrest⟩ := runs_bind.mp hrun
    obtain ⟨he, rfl⟩ := runs_ret.mp hrest
    have hn : ret = if n < 0 then n else 0 := congrArg Prod.fst he
    -- the commit hides a positive value of the NSP, but not an error
    have hneg : ¬n < 0 := by
      intro hneg
      rw [if_pos hneg] at hn
      omega
    have hafter := ensures_nspCommandBuf c.nsp NfpNspCmd.ethControl.code _
      (c.entries.load 0 nspEthTableSize) 0 hidle _ _ hwrite
    cases hafter with
    | refused _ _ hret => exact absurd hret hneg
    | lost _ _ hret => exact absurd (lost_neg hret) hneg
    | served e _ hserved hasks _ =>
      obtain ⟨hcode, -, hload⟩ := hasks
      rw [Nat.max_zero, Mem.length_load, Nat.zero_sub, List.replicate_zero, List.append_nil]
        at hload
      exact .inr ⟨hn.trans (if_neg hneg), e, hserved, hcode, hload⟩

/-- **The NSP is given what it has written, but for announced changes of one entry**, and it is
given nothing if nothing has been changed. -/
theorem ethConfig_served (hidle : s.Idle)
    (hstart : Runs (nspDevice nsp.res) (ethConfigStart nsp idx) s (some c₀, nsp₁) s₁)
    (hsets : Relation.ReflTransGen EthSet c₀ c)
    (hcommit : Runs (nspDevice nsp.res) (ethConfigCommit c) s₁ (ret, nsp₂) s₂) (hret : 0 ≤ ret) :
    ∃ e, s₁.served = s.served ++ [e] ∧ e.request.code = NfpNspCmd.ethRescan.code ∧
      ChangedFrom c₀.nsp idx (Mem.store (fun _ => 0) 0 e.table) c ∧
      ((ret = 1 ∧ s₂ = s₁ ∧ c.entries = Mem.store (fun _ => 0) 0 e.table) ∨
        ret = 0 ∧ ∃ e', s₂.served = s₁.served ++ [e'] ∧
          e'.request.code = NfpNspCmd.ethControl.code ∧
          e'.given = c.entries.load 0 nspEthTableSize) := by
  obtain ⟨hidle₁, hres, e, hserved, hcode, hc₀⟩ := ethConfigStart_served hidle hstart
  have hchanged : ChangedFrom c₀.nsp idx (Mem.store (fun _ => 0) 0 e.table) c := by
    refine ChangedFrom.sets ?_ hsets
    rw [hc₀]
    exact .refl _ _ _
  -- the NSP that is written to is the one that has been read
  have hc : c.nsp.res = nsp.res := hchanged.nsp_eq ▸ hres
  refine ⟨e, hserved, hcode, hchanged, ?_⟩
  obtain ⟨hone, hmodified, hs⟩ | hgiven := ethConfigCommit_served hidle₁ (hc ▸ hcommit) hret
  · exact .inl ⟨hone, hs, hchanged.unmodified hmodified⟩
  · exact .inr hgiven

/-- Entries whose bytes are all 1. -/
def onesEntries : Mem := Mem.store (fun _ => 0) 0 (Mem.load (fun _ => 1) 0 nspEthTableSize)

/-- The first entry. -/
def firstEntry : Fin nspEthMaxCount := ⟨0, by decide⟩

/-- Every word of it is made of ones. -/
theorem ethRaw_onesEntries (raw : NfpEthRaw) :
    ethRaw onesEntries firstEntry raw = 0x0101010101010101 := by
  have hload : onesEntries.load (ethRawAt firstEntry raw) 8 = (List.range 8).map fun _ => 1 := by
    refine List.map_congr_left fun i hi => ?_
    have hi := List.mem_range.mp hi
    have hlt : ethRawAt firstEntry raw + i < nspEthTableSize := by
      have hat : ethRawAt firstEntry raw ≤ 24 := by cases raw <;> decide
      exact (show ethRawAt firstEntry raw + i < 32 by omega).trans (by decide)
    rw [onesEntries, Mem.store, Mem.length_load, ← Nat.zero_add (ethRawAt firstEntry raw + i),
      Mem.copy_of_lt _ _ hlt, Nat.zero_add, Mem.load_apply _ hlt]
  rw [ethRaw, hload]
  decide

/-- Another autonegotiation mode for the first entry. -/
theorem ethConfig_served_aneg : ∃ c₀ nsp₁ nsp₂ s₁ s₂ e,
    Runs (nspDevice bufferNsp.res) (ethConfigStart bufferNsp firstEntry) idleNsp
      (some c₀, nsp₁) s₁ ∧
    Runs (nspDevice bufferNsp.res) (ethConfigCommit (ethSetAneg c₀ 1).2) s₁ (0, nsp₂) s₂ ∧
    s₁.served = [] ++ [e] ∧ e.request.code = NfpNspCmd.ethRescan.code ∧
    ChangedFrom c₀.nsp firstEntry (Mem.store (fun _ => 0) 0 e.table) (ethSetAneg c₀ 1).2 ∧
    ∃ e', s₂.served = s₁.served ++ [e'] ∧ e'.request.code = NfpNspCmd.ethControl.code ∧
      e'.given = (ethSetAneg c₀ 1).2.entries.load 0 nspEthTableSize := by
  -- the NSP writes entries of ones
  obtain ⟨s₁, hidle₁, hread⟩ := runs_nspCommandBuf bufferNsp NfpNspCmd.ethRescan.code
    nspEthTableSize.toUInt32 nspEthTableSize (s := idleNsp) (fun _ _ => 1) ⟨rfl, rfl⟩ (by decide)
    [] (by decide)
  let c₀ : EthConfig := ⟨bufferNsp.checked, false, firstEntry, onesEntries⟩
  have hport : ¬ethRaw onesEntries firstEntry .port &&& nspEthPortLanes = 0 := by
    rw [ethRaw_onesEntries]
    decide
  have hstart : Runs (nspDevice bufferNsp.res) (ethConfigStart bufferNsp firstEntry) idleNsp
      (some c₀, bufferNsp.checked) s₁ := by
    refine runs_bind.mpr ⟨_, s₁, hread, ?_⟩
    dsimp only
    rw [if_neg (lt_irrefl 0)]
    change Runs _ (if ethRaw onesEntries firstEntry .port &&& nspEthPortLanes = 0 then _ else _)
      _ _ _
    rw [if_neg hport]
    exact .refl
  -- they have the mode 2, so that 1 is a change
  have hset : (ethSetAneg c₀ 1).2.modified = true ∧
      (ethSetAneg c₀ 1).2.nsp = bufferNsp.checked := by
    rw [ethSetAneg, ethSetBitConfig, nfpEthSetBitConfig, if_neg (by decide)]
    dsimp only
    rw [ethRaw_onesEntries, if_neg (by decide)]
    exact ⟨rfl, rfl⟩
  obtain ⟨s₂, -, hwrite⟩ := runs_nspCommandBuf bufferNsp.checked NfpNspCmd.ethControl.code
    ((ethSetAneg c₀ 1).2.entries.load 0 nspEthTableSize).length.toUInt32 0 (fun _ _ => 0) hidle₁
    (by decide) ((ethSetAneg c₀ 1).2.entries.load 0 nspEthTableSize)
    (by rw [Mem.length_load]; decide)
  have hcommit : Runs (nspDevice bufferNsp.res) (ethConfigCommit (ethSetAneg c₀ 1).2) s₁
      (0, bufferNsp.checked.checked) s₂ := by
    rw [ethConfigCommit, if_pos hset.1, hset.2]
    exact runs_bind.mpr ⟨_, s₂, hwrite, .refl⟩
  obtain ⟨e, hserved, hcode, hchanged, ⟨hone, -⟩ | ⟨-, hgiven⟩⟩ :=
    ethConfig_served ⟨rfl, rfl⟩ hstart (.single (.aneg c₀ 1)) hcommit le_rfl
  · exact absurd hone (by decide)
  · exact ⟨c₀, _, _, s₁, s₂, e, hstart, hcommit, hserved, hcode, hchanged, hgiven⟩

end NfpUdpEcho
