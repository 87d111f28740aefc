import NfpUdpEcho.NfpCore.Resource
import NfpUdpEcho.Transport.AddrFormat

/-!
# The firmware that is loaded

`user/nfpcore/nfp_nffw.c` and `nfp_mip.c`. A resource of the device says which firmware is
loaded and where its MIP is, the table that the firmware describes itself with. The resource is
held from `nfp_nffw_info_open` to `nfp_nffw_info_close`.
-/

namespace NfpUdpEcho

open Access Errno LittleEndian

/-- The word of some bytes at an offset. -/
def wordOf (bytes : List UInt8) (i : ℕ) : UInt32 := u32OfBytes ((bytes.drop i).take 4)

/-! ### The XPB bus -/

/-- `NFP_CPP_INTERFACE_TYPE_of`. -/
def nfpCppInterfaceTypeOf (interface : UInt16) : UInt16 := (interface >>> 12) &&& 0xf

/-- `NFP_CPP_INTERFACE_TYPE_ARM`. -/
def nfpCppInterfaceTypeArm : UInt16 := 0x2

/-- `nfp_xpb_to_cpp`: the CPP id, and the address as it is then. -/
def nfpXpbToCpp (model : UInt32) (interface : UInt16) (xpbAddr : UInt32) : UInt32 × UInt32 :=
  if nfpCppModelIs6000 model then
    let xpb := nfpCppId 14 nfpCppActionRW 0
    let island := (xpbAddr >>> 24) &&& 0x3f
    if island = 0 then (xpb, xpbAddr)
    else if island = 1 then
      let xpbAddr := xpbAddr &&& ~~~0x7f000000
      if xpbAddr < 0x60000 then (xpb, xpbAddr ||| ((1 : UInt32) <<< 30))
      else if nfpCppInterfaceTypeOf interface ≠ nfpCppInterfaceTypeArm then
        (xpb, xpbAddr ||| ((1 : UInt32) <<< 24))
      else (xpb, xpbAddr)
    else (xpb, xpbAddr ||| ((1 : UInt32) <<< 30))
  else (0, xpbAddr)

/-- `nfp_xpb_readl`, which returns -1 for every error. -/
def nfpXpbReadl (host : NfpCppHost) (xpbAddr : UInt32) : CppProg (Except ℤ UInt32) :=
  let (cppDest, xpbAddr) := nfpXpbToCpp host.model host.interface xpbAddr
  .access (.readl cppDest xpbAddr.toUInt64) fun
    | .error _ => .ret (.error (-1))
    | .ok value => .ret (.ok value)

/-! ### The table of the firmware -/

/-- `NFP_RESOURCE_NFP_NFFW`. -/
def nfpResourceNfpNffw : List UInt8 := "nfp.nffw".toUTF8.toList

/-- `NFFW_INFO_VERSION_CURRENT`. -/
def nffwInfoVersionCurrent : UInt32 := 2

/-- `NFFW_FWINFO_CNT_V1`, as many as `NFFW_MEINFO_CNT_V1`. -/
def nffwFwinfoCntV1 : ℕ := 120

/-- `NFFW_FWINFO_CNT_V2`, as many as `NFFW_MEINFO_CNT_V2`. -/
def nffwFwinfoCntV2 : ℕ := 200

/-- The size of `struct nfp_nffw_info_data`: two words of flags, and the larger of two versions
with a word and three words for each entry. -/
def nfpNffwInfoDataSize : ℕ := 8 + nffwFwinfoCntV2 * 4 + nffwFwinfoCntV2 * 12

/-- `struct nffw_fwinfo`. -/
structure NffwFwinfo where
  loadedMuDaMipOffHi : UInt32
  mipCppid : UInt32
  mipOffsetLo : UInt32

/-- `flags[0]` of `struct nfp_nffw_info_data`. -/
def nffwFlags (fwinf : List UInt8) : UInt32 := wordOf fwinf 0

/-- `nffw_res_info_version_get`. -/
def nffwResInfoVersionGet (fwinf : List UInt8) : UInt32 := (nffwFlags fwinf >>> 16) &&& 0xfff

/-- `nffw_res_flg_init_get`. -/
def nffwResFlgInitGet (fwinf : List UInt8) : UInt32 := (nffwFlags fwinf >>> 0) &&& 1

/-- `nffw_fwinfo_loaded_get`. -/
def nffwFwinfoLoadedGet (fi : NffwFwinfo) : UInt32 := (fi.loadedMuDaMipOffHi >>> 31) &&& 1

/-- `nffw_fwinfo_mip_mu_da_get`. -/
def nffwFwinfoMipMuDaGet (fi : NffwFwinfo) : UInt32 := (fi.loadedMuDaMipOffHi >>> 8) &&& 1

/-- `nffw_fwinfo_mip_offset_get`. -/
def nffwFwinfoMipOffsetGet (fi : NffwFwinfo) : UInt64 :=
  ((fi.loadedMuDaMipOffHi.toUInt64 &&& 0xff) <<< 32) ||| fi.mipOffsetLo.toUInt64

/-- The entry at an offset. -/
def nffwFwinfoAt (fwinf : List UInt8) (i : ℕ) : NffwFwinfo :=
  ⟨wordOf fwinf i, wordOf fwinf (i + 4), wordOf fwinf (i + 8)⟩

/-- `nffw_res_fwinfos`. The entries are behind as many words of `meinfo`. -/
def nffwResFwinfos (fwinf : List UInt8) : List NffwFwinfo :=
  let fwinfos (cnt : ℕ) := (List.range cnt).map fun i => nffwFwinfoAt fwinf (8 + cnt * 4 + i * 12)
  if nffwResInfoVersionGet fwinf = 0 ∨ nffwResInfoVersionGet fwinf = 1 then
    fwinfos nffwFwinfoCntV1
  else if nffwResInfoVersionGet fwinf = 2 then fwinfos nffwFwinfoCntV2
  else []

/-- `struct nfp_nffw_info`. -/
structure NfpNffwInfo where
  res : NfpResource
  fwinf : List UInt8

/-- `nfp_nffw_info_fwid_first`. -/
def nfpNffwInfoFwidFirst (state : NfpNffwInfo) : Option NffwFwinfo :=
  (nffwResFwinfos state.fwinf).find? fun fi => nffwFwinfoLoadedGet fi ≠ 0

/-- `nfp_cppat_mu_locality_lsb`. -/
def nfpCppatMuLocalityLsb (mode addr40 : UInt32) : Except ℤ ℕ :=
  match nfp6000CppatMuLocalityLsb mode addr40 with
  | some lsb => .ok lsb
  | none => .error (-EINVAL)

/-- `nfp_mip_mu_locality_lsb`. -/
def nfpMipMuLocalityLsb (host : NfpCppHost) : CppProg (Except ℤ ℕ) :=
  (nfpXpbReadl host (0x000a0000 + nfpCppTargetMu.toUInt32 * 4)).bind fun
    | .error err => .ret (.error err)
    | .ok imbcppat =>
      .ret (nfpCppatMuLocalityLsb ((imbcppat >>> 13) &&& 7) ((imbcppat >>> 12) &&& 1))

/-- `nfp_nffw_info_mip_first`: the CPP id and the address of the MIP. -/
def nfpNffwInfoMipFirst (state : NfpNffwInfo) (host : NfpCppHost) :
    CppProg (Except ℤ (UInt32 × UInt64)) :=
  match nfpNffwInfoFwidFirst state with
  | none => .ret (.error (-EINVAL))
  | some fwinfo =>
    let cppId := fwinfo.mipCppid
    let off := nffwFwinfoMipOffsetGet fwinfo
    if nffwFwinfoMipMuDaGet fwinfo ≠ 0 then
      if cppIdTargetOf cppId ≠ nfpCppTargetMu.toUInt32 then .ret (.ok (cppId, off))
      else
        (nfpMipMuLocalityLsb host).bind fun
          | .error err => .ret (.error err)
          | .ok localityOff =>
            .ret (.ok (cppId, (off &&& ~~~(3 <<< localityOff.toUInt64)) |||
              (nicNfp6000MuLocalityDirect <<< localityOff.toUInt64)))
    else .ret (.ok (cppId, off))

/-- `nfp_nffw_info_open`. `malloc` is whether there is memory for the state and for the
resource. -/
def nfpNffwInfoOpen (calloc : ℕ → Bool) (malloc : Bool × Bool) (waits : ℕ) (host : NfpCppHost) :
    CppProg (Outcome (Option NfpNffwInfo)) :=
  if malloc.1 then
    (nfpResourceAcquire calloc malloc.2 waits nfpResourceNfpNffw host).andThen fun
      | none, host => .ret (.done none host)
      | some res, host =>
        let errRelease : CppProg (Outcome (Option NfpNffwInfo)) :=
          (nfpResourceRelease res host).andThen fun _ host => .ret (.done none host)
        if nfpNffwInfoDataSize > res.size.toNat then errRelease
        else
          .access (.read res.cppId res.addr nfpNffwInfoDataSize) fun
            | .error _ => errRelease
            | .ok bytes =>
              let fwinf := List.ofFn bytes
              if nffwResFlgInitGet fwinf = 0 then errRelease
              else if nffwResInfoVersionGet fwinf > nffwInfoVersionCurrent then errRelease
              else .ret (.done (some ⟨res, fwinf⟩) host)
  else .ret (.done none host)

/-- `nfp_nffw_info_close`. -/
def nfpNffwInfoClose (state : NfpNffwInfo) (host : NfpCppHost) : CppProg (Outcome Unit) :=
  nfpResourceRelease state.res host

/-! ### The MIP -/

/-- `NFP_MIP_SIGNATURE`. -/
def nfpMipSignature : UInt32 := 0x0050494d

/-- `NFP_MIP_VERSION`. -/
def nfpMipVersion : UInt32 := 1

/-- The size of `struct nfp_mip`: twelve words, a name of 16 bytes and one of 32. -/
def nfpMipSize : ℕ := 12 * 4 + 16 + 32

/-- `nfp_mip_try_read`, whose result is the bytes of the structure. -/
def nfpMipTryRead (cppId : UInt32) (addr : UInt64) : CppProg (Except ℤ (List UInt8)) :=
  .access (.read cppId addr nfpMipSize) fun
    | .error _ => .ret (.error (-Errno.EIO))
    | .ok bytes =>
      let mip := List.ofFn bytes
      if wordOf mip 0 ≠ nfpMipSignature then .ret (.error (-EINVAL))
      else if wordOf mip 4 ≠ nfpMipVersion then .ret (.error (-EINVAL))
      else .ret (.ok mip)

/-- `nfp_mip_read_resource`. -/
def nfpMipReadResource (calloc : ℕ → Bool) (malloc : Bool × Bool) (waits : ℕ)
    (host : NfpCppHost) : CppProg (Outcome (Except ℤ (List UInt8))) :=
  (nfpNffwInfoOpen calloc malloc waits host).andThen fun
    | none, host => .ret (.done (.error (-ENODEV)) host)
    | some nffwInfo, host =>
      ((nfpNffwInfoMipFirst nffwInfo host).bind fun
          | .error err => .ret (.error err)
          | .ok (cppId, addr) => nfpMipTryRead cppId addr).bind fun mip =>
        (nfpNffwInfoClose nffwInfo host).andThen fun _ host => .ret (.done mip host)

/-- `nfp_mip_open`. The name ends in a zero then. -/
def nfpMipOpen (calloc : ℕ → Bool) (malloc : Bool × Bool × Bool) (waits : ℕ)
    (host : NfpCppHost) : CppProg (Outcome (Option (List UInt8))) :=
  if malloc.1 then
    (nfpMipReadResource calloc malloc.2 waits host).andThen fun
      | .error _, host => .ret (.done none host)
      | .ok mip, host => .ret (.done (some (mip.set 63 0)) host)
  else .ret (.done none host)

/-- `nfp_mip_symtab`. -/
def nfpMipSymtab (mip : List UInt8) : UInt32 × UInt32 := (wordOf mip 32, wordOf mip 36)

/-- `nfp_mip_strtab`. -/
def nfpMipStrtab (mip : List UInt8) : UInt32 × UInt32 := (wordOf mip 40, wordOf mip 44)

end NfpUdpEcho
