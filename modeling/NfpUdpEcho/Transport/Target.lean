import Mathlib.Data.UInt
import NfpUdpEcho.Transport.Bar

/-!
# CPP ids and targets

A CPP id packs a target, an action, a token and an island (`nfp-common/nfp_resid.h`). Each
target knows which of its actions pull data from the bus and which push data onto it, and
with which width (`nfp_target.h`). An error is `none` here, `-1` with `EINVAL` in the source.

The translation of an island's addresses (`_nfp6000_cppat_addr_encode`) is a parameter: what
it answers is its own table of address formats.
-/

namespace NfpUdpEcho

/-- `NFP_CPP_ID`. -/
def nfpCppId (target action token : UInt32) : UInt32 :=
  ((target &&& 0x7f) <<< 24) ||| ((token &&& 0xff) <<< 16) ||| ((action &&& 0xff) <<< 8)

def cppIdTargetOf (id : UInt32) : UInt32 := (id >>> 24) &&& 0x1f
def cppIdTokenOf (id : UInt32) : UInt32 := (id >>> 16) &&& 0xff
def cppIdActionOf (id : UInt32) : UInt32 := (id >>> 8) &&& 0xff
def cppIdIslandOf (id : UInt32) : UInt32 := id &&& 0xff

/-! ### The widths of an access -/

def p32 : UInt32 := 1
def p64 : UInt32 := 2

/-- `PUSHPULL`. -/
def pushpull (pull push : UInt32) : UInt32 := (pull <<< 4) ||| push

/-- `pushpull_width`. -/
def pushpullWidth (pp : UInt32) : Int32 :=
  let pp := pp &&& 0xf
  if pp = 0 then -1 else (2 <<< pp).toInt32

/-- `PUSH_WIDTH`. -/
def pushWidth (pp : UInt32) : Int32 := pushpullWidth (pp >>> 0)

/-- `PULL_WIDTH`. -/
def pullWidth (pp : UInt32) : Int32 := pushpullWidth (pp >>> 4)

/-! ### The targets -/

/-- A row of a `switch` over an action and a token. -/
structure ActionRow where
  action : UInt32
  token : UInt32
  pp : UInt32

/-- `switch (cpp_id & NFP_CPP_ID(0, ~0, ~0))`. -/
def switchAction (rows : List ActionRow) (cppId : UInt32) : Option UInt32 :=
  (rows.find? fun row => cppId &&& nfpCppId 0 0xff 0xff == nfpCppId 0 row.action row.token).map
    ActionRow.pp

/-- A target that is only for the islands `lo` to `hi`, or none. -/
def onIslands (lo hi : UInt32) (cppId : UInt32) (pp : Option UInt32) : Option UInt32 :=
  let island := cppIdIslandOf cppId
  if island ≠ 0 ∧ (island < lo ∨ island > hi) then none else pp

/-- `target_rw`. -/
def targetRw (cppId pp start len : UInt32) : Option UInt32 :=
  onIslands start (start + len) cppId <|
    switchAction
      [⟨0, 0, pushpull 0 pp⟩, ⟨1, 0, pushpull pp 0⟩, ⟨nfpCppActionRW, 0, pushpull pp pp⟩] cppId

/-- `nfp6000_nbi_dma`, `nfp6000_nbi_stats`, `nfp6000_nbi_tm` and `nfp6000_nbi_ppc`, which are
alike. -/
def nfp6000NbiUnit (cppId : UInt32) : Option UInt32 :=
  switchAction
    [⟨0, 0, pushpull 0 p64⟩, ⟨1, 0, pushpull p64 0⟩, ⟨nfpCppActionRW, 0, pushpull p64 p64⟩] cppId

def nfp6000NbiDma : UInt32 → Option UInt32 := nfp6000NbiUnit
def nfp6000NbiStats : UInt32 → Option UInt32 := nfp6000NbiUnit
def nfp6000NbiTm : UInt32 → Option UInt32 := nfp6000NbiUnit
def nfp6000NbiPpc : UInt32 → Option UInt32 := nfp6000NbiUnit

/-- `nfp6000_nbi`. -/
def nfp6000Nbi (cppId : UInt32) (address : UInt64) : Option UInt32 :=
  let relAddr := address &&& 0x3fFFFF
  onIslands 8 9 cppId <|
    if relAddr < (1 : UInt64) <<< 20 then nfp6000NbiDma cppId
    else if relAddr < (2 : UInt64) <<< 20 then nfp6000NbiStats cppId
    else if relAddr < (3 : UInt64) <<< 20 then nfp6000NbiTm cppId
    else nfp6000NbiPpc cppId

/-- `nfp6000_mu_common`. -/
def nfp6000MuCommon : UInt32 → Option UInt32 :=
  switchAction
    [⟨nfpCppActionRW, 0, pushpull p64 p64⟩, ⟨nfpCppActionRW, 1, pushpull p64 p64⟩,
     ⟨nfpCppActionRW, 2, pushpull p64 p64⟩, ⟨nfpCppActionRW, 3, pushpull p64 p64⟩,
     -- read, write
     ⟨0, 0, pushpull 0 p64⟩, ⟨0, 1, pushpull 0 p64⟩, ⟨0, 2, pushpull 0 p64⟩,
     ⟨0, 3, pushpull 0 p64⟩,
     ⟨1, 0, pushpull p64 0⟩, ⟨1, 1, pushpull p64 0⟩, ⟨1, 2, pushpull p64 0⟩,
     ⟨1, 3, pushpull p64 0⟩,
     -- atomics
     ⟨3, 0, pushpull 0 p32⟩, ⟨3, 2, pushpull p32 0⟩,
     ⟨4, 0, pushpull p32 0⟩, ⟨4, 2, pushpull 0 0⟩, ⟨4, 3, pushpull 0 p32⟩,
     ⟨5, 0, pushpull p32 0⟩, ⟨5, 3, pushpull 0 p32⟩,
     ⟨6, 0, pushpull p32 0⟩, ⟨6, 3, pushpull 0 p32⟩,
     ⟨7, 0, pushpull p32 0⟩, ⟨7, 3, pushpull 0 p32⟩,
     ⟨8, 0, pushpull p32 0⟩, ⟨8, 3, pushpull 0 p32⟩,
     ⟨9, 0, pushpull p32 0⟩, ⟨9, 3, pushpull 0 p32⟩,
     ⟨10, 0, pushpull p32 0⟩, ⟨10, 3, pushpull 0 p32⟩,
     ⟨13, 0, pushpull 0 p32⟩, ⟨13, 1, pushpull 0 p32⟩, ⟨13, 2, pushpull p32 0⟩,
     ⟨15, 0, pushpull p32 0⟩, ⟨15, 3, pushpull 0 p32⟩,
     -- 32-bit read, write
     ⟨28, 0, pushpull 0 p32⟩, ⟨28, 1, pushpull 0 p32⟩, ⟨28, 2, pushpull 0 p32⟩,
     ⟨28, 3, pushpull 0 p32⟩,
     ⟨31, 0, pushpull p32 0⟩, ⟨31, 1, pushpull p32 0⟩, ⟨31, 2, pushpull p32 0⟩,
     ⟨31, 3, pushpull p32 0⟩]

/-- `nfp6000_mu_ctm`. -/
def nfp6000MuCtm (cppId : UInt32) : Option UInt32 :=
  (switchAction [⟨16, 1, pushpull 0 p32⟩] cppId).or (nfp6000MuCommon cppId)

/-- `nfp6000_mu_emu`. -/
def nfp6000MuEmu (cppId : UInt32) : Option UInt32 :=
  (switchAction
    [⟨18, 0, pushpull 0 p32⟩, ⟨18, 1, pushpull 0 p32⟩, ⟨18, 2, pushpull p32 0⟩,
     ⟨18, 3, pushpull p32 0⟩, ⟨20, 2, pushpull p32 0⟩, ⟨21, 0, pushpull 0 p32⟩,
     ⟨21, 1, pushpull 0 p32⟩, ⟨21, 2, pushpull 0 p32⟩, ⟨22, 0, pushpull 0 p32⟩,
     ⟨22, 1, pushpull 0 p32⟩, ⟨22, 2, pushpull 0 p32⟩] cppId).or (nfp6000MuCommon cppId)

/-- `nfp6000_mu_imu`. -/
def nfp6000MuImu : UInt32 → Option UInt32 := nfp6000MuCommon

/-- `nfp6000_mu`. -/
def nfp6000Mu (cppId : UInt32) (address : UInt64) : Option UInt32 :=
  let island := cppIdIslandOf cppId
  if island = 0 then
    if address < 0x2000000000 then nfp6000MuCtm cppId
    else if address < 0x8000000000 then nfp6000MuEmu cppId
    else if address < 0x9800000000 then nfp6000MuCtm cppId
    else if address < 0x9C00000000 then nfp6000MuEmu cppId
    else if address < 0xA000000000 then nfp6000MuImu cppId
    else nfp6000MuCtm cppId
  else if 24 ≤ island ∧ island ≤ 27 then nfp6000MuEmu cppId
  else if 28 ≤ island ∧ island ≤ 31 then nfp6000MuImu cppId
  else if island = 1 ∨ (4 ≤ island ∧ island ≤ 7) ∨ (12 ≤ island ∧ island ≤ 13) ∨
      (32 ≤ island ∧ island ≤ 47) ∨ (48 ≤ island ∧ island ≤ 51) then nfp6000MuCtm cppId
  else none

/-- `nfp6000_ila`. -/
def nfp6000Ila (cppId : UInt32) : Option UInt32 :=
  onIslands 48 51 cppId <|
    (switchAction [⟨0, 1, pushpull 0 p32⟩, ⟨2, 0, pushpull 0 p32⟩, ⟨3, 0, pushpull p32 0⟩]
      cppId).or (targetRw cppId p32 48 4)

/-- `nfp6000_pci`. -/
def nfp6000Pci (cppId : UInt32) : Option UInt32 :=
  onIslands 4 7 cppId <|
    (switchAction [⟨2, 0, pushpull 0 p32⟩, ⟨3, 0, pushpull p32 0⟩] cppId).or
      (targetRw cppId p32 4 4)

/-- `nfp6000_crypto`. -/
def nfp6000Crypto (cppId : UInt32) : Option UInt32 :=
  onIslands 12 15 cppId <|
    (switchAction [⟨2, 0, pushpull p64 0⟩] cppId).or (targetRw cppId p64 12 4)

/-- `nfp6000_cap_xpb`. -/
def nfp6000CapXpb (cppId : UInt32) : Option UInt32 :=
  onIslands 1 63 cppId <|
    (switchAction
      [⟨0, 1, pushpull 0 p32⟩, ⟨0, 2, pushpull p32 0⟩, ⟨1, 1, pushpull p32 0⟩,
       ⟨1, 2, pushpull p32 0⟩, ⟨2, 0, pushpull 0 p32⟩, ⟨2, 1, pushpull 0 p32⟩,
       ⟨2, 2, pushpull 0 p32⟩, ⟨2, 3, pushpull 0 p32⟩, ⟨3, 0, pushpull p32 0⟩,
       ⟨3, 1, pushpull p32 0⟩, ⟨3, 2, pushpull p32 0⟩, ⟨3, 3, pushpull p32 0⟩,
       ⟨nfpCppActionRW, 1, pushpull p32 p32⟩] cppId).or (targetRw cppId p32 1 63)

/-- `nfp6000_cls`. -/
def nfp6000Cls (cppId : UInt32) : Option UInt32 :=
  onIslands 1 63 cppId <|
    (switchAction
      [⟨0, 3, pushpull p32 0⟩, ⟨2, 0, pushpull p32 0⟩, ⟨2, 1, pushpull p32 0⟩,
       ⟨4, 0, pushpull p32 0⟩, ⟨4, 1, pushpull p32 0⟩, ⟨6, 0, pushpull p32 0⟩,
       ⟨6, 1, pushpull p32 0⟩, ⟨6, 2, pushpull p32 0⟩, ⟨8, 2, pushpull p32 0⟩,
       ⟨8, 3, pushpull p32 0⟩, ⟨9, 0, pushpull 0 p32⟩, ⟨9, 1, pushpull 0 p32⟩,
       ⟨9, 2, pushpull 0 p32⟩, ⟨9, 3, pushpull 0 p32⟩, ⟨10, 0, pushpull p32 0⟩,
       ⟨10, 2, pushpull p32 0⟩, ⟨14, 0, pushpull p32 0⟩, ⟨15, 1, pushpull 0 p32⟩,
       ⟨17, 2, pushpull p32 0⟩, ⟨24, 0, pushpull 0 p32⟩, ⟨24, 1, pushpull p32 0⟩,
       ⟨25, 0, pushpull 0 p32⟩, ⟨25, 1, pushpull p32 0⟩] cppId).or (targetRw cppId p32 0 64)

def cppTgtNbi : UInt32 := 1
def cppTgtVqdr : UInt32 := 2
def cppTgtIla : UInt32 := 6
def cppTgtMu : UInt32 := 7
def cppTgtPcie : UInt32 := 9
def cppTgtArm : UInt32 := 10
def cppTgtCrypto : UInt32 := 12
def cppTgtCtxpb : UInt32 := 14
def cppTgtCls : UInt32 := 15

/-- `nfp6000_target_pushpull`. -/
def nfp6000TargetPushpull (cppId : UInt32) (address : UInt64) : Option UInt32 :=
  let target := cppIdTargetOf cppId
  if target = cppTgtNbi then nfp6000Nbi cppId address
  else if target = cppTgtVqdr then targetRw cppId p32 24 4
  else if target = cppTgtIla then nfp6000Ila cppId
  else if target = cppTgtMu then nfp6000Mu cppId address
  else if target = cppTgtPcie then nfp6000Pci cppId
  else if target = cppTgtArm then
    if address < 0x10000 then targetRw cppId p64 1 1 else targetRw cppId p32 1 1
  else if target = cppTgtCrypto then nfp6000Crypto cppId
  else if target = cppTgtCtxpb then nfp6000CapXpb cppId
  else if target = cppTgtCls then nfp6000Cls cppId
  else if target = 0 then targetRw cppId p32 4 4
  else none

/-! ### Islands -/

/-- `_nfp6000_cppat_addr_encode`: address, island, target, mode, addr40, isld1, isld0. -/
abbrev AddrEncode :=
  UInt64 → UInt32 → UInt32 → UInt32 → UInt32 → UInt32 → UInt32 → ℤ × UInt64

/-- `nfp_target_cpp`: the status, and the id and the address with the island folded into the
address. -/
def nfpTargetCpp (encode : AddrEncode) (imbTable : UInt32 → UInt32) (cppIslandId : UInt32)
    (cppIslandAddress : UInt64) : ℤ × UInt32 × UInt64 :=
  let island := cppIdIslandOf cppIslandId
  let target := cppIdTargetOf cppIslandId
  if target ≥ 16 then (-1, cppIslandId, cppIslandAddress)
  else if island = 0 then
    -- already translated
    (0, cppIslandId, cppIslandAddress)
  else
    let imb := imbTable target
    let (err, address) := encode cppIslandAddress island target ((imb >>> 13) &&& 7)
      ((imb >>> 12) &&& 1) ((imb >>> 6) &&& 0x3f) ((imb >>> 0) &&& 0x3f)
    if err = 0 then
      (0, nfpCppId target (cppIdActionOf cppIslandId) (cppIdTokenOf cppIslandId), address)
    else (err, cppIslandId, address)

end NfpUdpEcho
