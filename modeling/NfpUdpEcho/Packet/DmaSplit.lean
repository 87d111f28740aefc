import Mathlib.Data.Nat.Notation
import NfpUdpEcho.Framework.Tiling
import NfpUdpEcho.Framework.WordMem

/-!
# The two DMA transfers of a packet

A packet buffer is in two memories: its first 256 bytes are in the CTM of an island, the rest
is in an MU buffer named by the 29-bit `muptr`. `dma_packet_send` and `dma_packet_recv`
(`firmware/dma.c`) move the frame between the buffer and the host with one transfer for each
part, the frame starting at byte 72 on the way out and at byte 68 on the way in.

The address of the second part is computed in 32 bits, from a pointer that takes 40. The
transfers are exact when the frame has no second part or the address survives, which is the
case for the pointers of `Widening.Fits` alone (`dmaExact_iff`).

`pkt_ctm_ptr40`, the widths of the fields of a DMA command and how the compiler turns a 32-bit
value into a 40-bit pointer are those of the chip's libraries, and parameters here. A length and
a host address that their fields cannot hold are cut off; `LengthsFit` and `HostFits` say that
they are not.

The proof compares the memory after the transfers byte by byte: both parts are `blit`s, and a
frame in two parts is copied when each part begins where its bytes are (`copied_of_two`). For the
other direction a memory in which one byte is set shows where the second part begins.
-/

namespace NfpUdpEcho

open WordMem Tiling

def pktNbiOffset : UInt32 := 64
def macPrependBytes : UInt32 := 4

/-- How a 32-bit value becomes a 40-bit pointer: as unsigned, or as signed. -/
inductive Widening where
  | zero
  | sign
  deriving DecidableEq

def Widening.apply : Widening → BitVec 32 → BitVec 40
  | .zero, x => x.setWidth 40
  | .sign, x => x.signExtend 40

/-- What the firmware uses of the chip's libraries. -/
structure NfpTarget where
  /-- `pkt_ctm_ptr40(island, pnum, off)`. -/
  pkt_ctm_ptr40 : ℕ → ℕ → UInt32 → BitVec 40
  /-- The bytes of a packet in CTM are consecutive. -/
  pkt_ctm_ptr40_add : ∀ island pnum (off k : UInt32), off.toNat + k.toNat < 256 →
    pkt_ctm_ptr40 island pnum (off + k) =
      pkt_ctm_ptr40 island pnum off + BitVec.ofNat 40 k.toNat
  widening : Widening
  /-- The widths of `length`, `cpp_addr_hi` and `pcie_addr_hi` in `struct nfp_pcie_dma_cmd`. -/
  lengthBits : ℕ
  cppHiBits : ℕ
  pcieHiBits : ℕ
  /-- An address of the device has 40 bits, and fits. -/
  cpp_fits : 8 ≤ cppHiBits

/-- `nbi_meta.pkt_info`. -/
structure PktInfo where
  isl : ℕ
  pnum : ℕ
  len : UInt32
  muptr : BitVec 29

/-- A call of `dma_op`. -/
structure DmaOp where
  addr : BitVec 40
  len : UInt32
  pcie_addr : BitVec 64

/-- What `dma_op` puts into `struct nfp_pcie_dma_cmd`. -/
structure DmaCmd (t : NfpTarget) where
  cpp_addr_hi : BitVec t.cppHiBits
  cpp_addr_lo : BitVec 32
  length : BitVec t.lengthBits
  pcie_addr_hi : BitVec t.pcieHiBits
  pcie_addr_lo : BitVec 32

/-- `MIN`. -/
def minC (a b : UInt32) : UInt32 := if a < b then a else b

variable (t : NfpTarget)

/-- `pcie_dma_desc_setup`. -/
def pcieDmaDescSetup (len : UInt32) (dev_addr_hi dev_addr_lo : BitVec 32) : DmaCmd t where
  cpp_addr_hi := dev_addr_hi.setWidth t.cppHiBits
  cpp_addr_lo := dev_addr_lo
  length := BitVec.ofNat t.lengthBits (len - 1).toNat
  pcie_addr_hi := 0
  pcie_addr_lo := 0

/-- `dma_op`. -/
def dmaOp (op : DmaOp) : DmaCmd t :=
  { pcieDmaDescSetup t op.len ((op.addr.setWidth 64 >>> 32).setWidth 32)
      ((op.addr.setWidth 64 &&& 0xFFFFFFFF).setWidth 32) with
    pcie_addr_hi := (op.pcie_addr >>> 32).setWidth t.pcieHiBits
    pcie_addr_lo := (op.pcie_addr &&& 0xFFFFFFFF).setWidth 32 }

/-- The address of the part of a packet that is in the MU buffer. -/
def pktMuBuffer (muptr : BitVec 29) : BitVec 40 :=
  t.widening.apply ((muptr.setWidth 32 <<< 11) + 256)

/-- The transfers of `dma_packet_send` and `dma_packet_recv`. They differ in how many prepends
stand before the frame. -/
def dmaPacket (pkt : PktInfo) (prepend len : UInt32) (pcie_addr : BitVec 64) : List DmaOp :=
  let offset := pktNbiOffset + prepend
  let ctm_transfer_len := minC (256 - pktNbiOffset - prepend) len
  let buf_transfer_len := len - ctm_transfer_len
  let ctm : DmaOp := ⟨t.pkt_ctm_ptr40 pkt.isl pkt.pnum offset, ctm_transfer_len, pcie_addr⟩
  if buf_transfer_len > 0 then
    [ctm, ⟨pktMuBuffer t pkt.muptr, buf_transfer_len,
      pcie_addr + BitVec.ofNat 64 ctm_transfer_len.toNat⟩]
  else [ctm]

/-- `dma_packet_send`. -/
def dmaPacketSend (pkt : PktInfo) (pcie_addr : BitVec 64) : List DmaOp :=
  dmaPacket t pkt (2 * macPrependBytes) (pkt.len - 2 * macPrependBytes) pcie_addr

/-- `dma_packet_recv`. -/
def dmaPacketRecv (pkt : PktInfo) (len : UInt32) (pcie_addr : BitVec 64) : List DmaOp :=
  dmaPacket t pkt macPrependBytes len pcie_addr

/-! ### The DMA engine -/

variable {t} in
def DmaCmd.cppAddr (cmd : DmaCmd t) : BitVec 40 := (cmd.cpp_addr_hi ++ cmd.cpp_addr_lo).setWidth 40

variable {t} in
def DmaCmd.pcieAddr (cmd : DmaCmd t) : BitVec 64 :=
  (cmd.pcie_addr_hi ++ cmd.pcie_addr_lo).setWidth 64

variable {t} in
/-- On the chip the length is one more than the field says. -/
def DmaCmd.bytes (cmd : DmaCmd t) : ℕ := cmd.length.toNat + 1

/-- The device's memory, and the host's. -/
abbrev DevMem := BitVec 40 → UInt8
abbrev HostMem := BitVec 64 → UInt8

/-- The commands of `NFP_PCIE_DMA_TOPCI_HI`. -/
def toPci (mem : DevMem) (ops : List DmaOp) (host : HostMem) : HostMem :=
  ops.foldl (fun host op =>
    let cmd := dmaOp t op
    blit mem cmd.cppAddr cmd.bytes host cmd.pcieAddr) host

/-- The commands of `NFP_PCIE_DMA_FROMPCI_HI`. -/
def fromPci (host : HostMem) (ops : List DmaOp) (mem : DevMem) : DevMem :=
  ops.foldl (fun mem op =>
    let cmd := dmaOp t op
    blit host cmd.pcieAddr cmd.bytes mem cmd.cppAddr) mem

/-! ### What the transfers are for -/

/-- The address of the MU buffer's byte `o`. -/
def muAddr (muptr : BitVec 29) (o : ℕ) : BitVec 40 := BitVec.ofNat 40 (muptr.toNat * 2 ^ 11 + o)

/-- The address of byte `o` of a packet buffer. -/
def bufferByte (pkt : PktInfo) (o : ℕ) : BitVec 40 :=
  if o < 256 then t.pkt_ctm_ptr40 pkt.isl pkt.pnum (UInt32.ofNat o) else muAddr pkt.muptr o

/-- The bytes of a buffer in CTM are not those in the MU, up to byte `hi`. -/
def Apart (pkt : PktInfo) (hi : ℕ) : Prop :=
  ∀ i < 256, ∀ o, 256 ≤ o → o < hi → bufferByte t pkt i ≠ bufferByte t pkt o

/-- The transfers partition the frame, and stay in CTM below byte 256. -/
structure SplitOk (pkt : PktInfo) (offset L : ℕ) (pcie_addr : BitVec 64) (ops : List DmaOp) :
    Prop where
  tiles : Tiles 0 L (ops.map fun op => ((op.pcie_addr - pcie_addr).toNat, op.len.toNat))
  ctm : ∃ op rest, ops = op :: rest ∧ op.addr = bufferByte t pkt offset ∧
    offset + op.len.toNat ≤ 256 ∧ ∀ op' ∈ rest, op'.addr = pktMuBuffer t pkt.muptr

/-- The frame of `pkt` goes to the host, and a frame of the host goes to the buffer of `pkt'`. -/
structure DmaExact (pkt pkt' : PktInfo) (len : UInt32) (pcie_addr : BitVec 64) : Prop where
  send_split : SplitOk t pkt 72 len.toNat pcie_addr (dmaPacketSend t pkt pcie_addr)
  recv_split : SplitOk t pkt' 68 len.toNat pcie_addr (dmaPacketRecv t pkt' len pcie_addr)
  send : ∀ mem host, Copied mem (fun k => bufferByte t pkt (72 + k)) host
    (fun k => pcie_addr + BitVec.ofNat 64 k) len.toNat
    (toPci t mem (dmaPacketSend t pkt pcie_addr) host)
  recv : ∀ host mem, Copied host (fun k => pcie_addr + BitVec.ofNat 64 k) mem
    (fun k => bufferByte t pkt' (68 + k)) len.toNat
    (fromPci t host (dmaPacketRecv t pkt' len pcie_addr) mem)
  roundTrip : ∀ mem mem' host, ∀ k < len.toNat,
    fromPci t (toPci t mem (dmaPacketSend t pkt pcie_addr) host)
      (dmaPacketRecv t pkt' len pcie_addr) mem' (bufferByte t pkt' (68 + k)) =
    mem (bufferByte t pkt (72 + k))

/-- The pointers whose MU address survives 32-bit arithmetic. -/
def Widening.Fits : Widening → BitVec 29 → Prop
  | .zero, muptr => muptr.toNat < 2 ^ 21
  | .sign, muptr => muptr.toNat < 2 ^ 20 ∨ 2 ^ 29 - 2 ^ 20 ≤ muptr.toNat

/-! ### One transfer -/

variable {t}

theorem toNat_minC (a b : UInt32) : (minC a b).toNat = min a.toNat b.toNat := by
  unfold minC
  split
  · next h => exact (Nat.min_eq_left (Nat.le_of_lt h)).symm
  · next h => exact (Nat.min_eq_right (Nat.le_of_not_lt h)).symm

/-- A word in two fields, the upper of which may be too narrow for it. -/
theorem toNat_hi_append_lo (x : BitVec 64) (n : ℕ) :
    ((x >>> 32).setWidth n ++ (x &&& 0xFFFFFFFF).setWidth 32).toNat =
      x.toNat % (2 ^ 32 * 2 ^ n) := by
  have hlow : (x &&& 0xFFFFFFFF).toNat = x.toNat % 2 ^ 32 :=
    (BitVec.toNat_and ..).trans (Nat.and_two_pow_sub_one_eq_mod x.toNat 32)
  rw [BitVec.toNat_append, BitVec.toNat_setWidth, BitVec.toNat_setWidth, hlow, Nat.mod_mod,
    BitVec.toNat_ushiftRight, Nat.shiftRight_eq_div_pow,
    ← Nat.shiftLeft_add_eq_or_of_lt (Nat.mod_lt _ (by decide)), Nat.shiftLeft_eq, Nat.mod_mul]
  omega

/-- The halves of an address are put together again. -/
theorem dmaOp_cppAddr (op : DmaOp) : (dmaOp t op).cppAddr = op.addr := by
  have hlt := op.addr.isLt
  -- the upper half has eight bits, and survives the `uint32_t` as well as the field
  have hhi : ((op.addr.setWidth 64 >>> 32).setWidth 32).setWidth t.cppHiBits =
      (op.addr.setWidth 64 >>> 32).setWidth t.cppHiBits := by
    apply BitVec.eq_of_toNat_eq
    simp only [BitVec.toNat_setWidth, BitVec.toNat_ushiftRight, Nat.shiftRight_eq_div_pow]
    rw [Nat.mod_eq_of_lt (a := op.addr.toNat % 2 ^ 64 / 2 ^ 32) (b := 2 ^ 32) (by omega)]
  have hpow : 2 ^ 40 ≤ 2 ^ 32 * 2 ^ t.cppHiBits := by
    rw [← Nat.pow_add]
    exact Nat.pow_le_pow_right (by decide) (Nat.add_le_add_left t.cpp_fits 32)
  have hmod := Nat.mod_eq_of_lt (lt_of_lt_of_le hlt hpow)
  apply BitVec.eq_of_toNat_eq
  change ((((op.addr.setWidth 64 >>> 32).setWidth 32).setWidth t.cppHiBits ++
    (op.addr.setWidth 64 &&& 0xFFFFFFFF).setWidth 32).setWidth 40).toNat = _
  rw [hhi, BitVec.toNat_setWidth, toNat_hi_append_lo, BitVec.toNat_setWidth,
    Nat.mod_eq_of_lt (lt_trans hlt (by decide)), hmod, Nat.mod_eq_of_lt hlt]

theorem dmaOp_pcieAddr {op : DmaOp} (hfit : op.pcie_addr.toNat < 2 ^ 32 * 2 ^ t.pcieHiBits) :
    (dmaOp t op).pcieAddr = op.pcie_addr := by
  apply BitVec.eq_of_toNat_eq
  change (((op.pcie_addr >>> 32).setWidth t.pcieHiBits ++
    (op.pcie_addr &&& 0xFFFFFFFF).setWidth 32).setWidth 64).toNat = _
  rw [BitVec.toNat_setWidth, toNat_hi_append_lo, Nat.mod_eq_of_lt hfit,
    Nat.mod_eq_of_lt op.pcie_addr.isLt]

/-- The engine moves the length asked for, when it is not zero and the field holds it. -/
theorem dmaOp_bytes {op : DmaOp} (hpos : 0 < op.len.toNat)
    (hfit : op.len.toNat ≤ 2 ^ t.lengthBits) : (dmaOp t op).bytes = op.len.toNat := by
  have hone : 1 ≤ op.len := UInt32.le_iff_toNat_le.mpr (by exact hpos)
  have hsub : (op.len - 1).toNat = op.len.toNat - 1 := UInt32.toNat_sub_of_le _ _ hone
  change (BitVec.ofNat t.lengthBits (op.len - 1).toNat).toNat + 1 = _
  rw [hsub, BitVec.toNat_ofNat, Nat.mod_eq_of_lt (by omega)]
  omega

/-- The address of the MU part is right exactly for the pointers that fit. -/
theorem pktMuBuffer_eq_iff (muptr : BitVec 29) :
    pktMuBuffer t muptr = muAddr muptr 256 ↔ t.widening.Fits muptr := by
  have hlt := muptr.isLt
  -- The upper bits of the pointer are shifted out of the 32-bit address.
  have hlow : ((muptr.setWidth 32 <<< 11) + 256 : BitVec 32).toNat =
      muptr.toNat % 2 ^ 21 * 2 ^ 11 + 256 := by
    rw [BitVec.toNat_add, BitVec.toNat_shiftLeft, BitVec.toNat_setWidth, Nat.shiftLeft_eq]
    change (muptr.toNat % 2 ^ 32 * 2 ^ 11 % 2 ^ 32 + 256) % 2 ^ 32 = _
    omega
  rw [← BitVec.toNat_inj, pktMuBuffer, muAddr, BitVec.toNat_ofNat]
  cases t.widening with
  | zero =>
    rw [Widening.apply, BitVec.toNat_setWidth, hlow]
    change _ ↔ muptr.toNat < 2 ^ 21
    omega
  | sign =>
    rw [Widening.apply, BitVec.toNat_signExtend, BitVec.toNat_setWidth, BitVec.msb_eq_decide,
      hlow]
    change _ ↔ muptr.toNat < 2 ^ 20 ∨ 2 ^ 29 - 2 ^ 20 ≤ muptr.toNat
    split
    · next h =>
      have h := of_decide_eq_true h
      omega
    · next h =>
      have h := mt decide_eq_true h
      omega

/-! ### The two transfers -/

variable {pkt : PktInfo} {prepend len : UInt32} {pcie_addr : BitVec 64}

/-- How much of a frame of `L` bytes behind `p` bytes of prepends is in CTM. -/
def ctmPart (p L : ℕ) : ℕ := min (192 - p) L

theorem ctmPart_of_le {p L : ℕ} (h : L ≤ 192 - p) : ctmPart p L = L := min_eq_right h

theorem ctmPart_of_lt {p L : ℕ} (h : 192 - p < L) : ctmPart p L = 192 - p := min_eq_left h.le

theorem toNat_ctmLen (len : UInt32) (hpre : prepend.toNat ≤ 192) :
    (minC (256 - pktNbiOffset - prepend) len).toNat = ctmPart prepend.toNat len.toNat := by
  have hroom : (256 - pktNbiOffset - prepend).toNat = 192 - prepend.toNat :=
    UInt32.toNat_sub_of_le _ _ (UInt32.le_iff_toNat_le.mpr hpre)
  rw [toNat_minC, hroom]
  rfl

theorem toNat_bufLen (len : UInt32) (hpre : prepend.toNat ≤ 192) :
    (len - minC (256 - pktNbiOffset - prepend) len).toNat =
      len.toNat - ctmPart prepend.toNat len.toNat := by
  have hctm := toNat_ctmLen len hpre
  have hle : minC (256 - pktNbiOffset - prepend) len ≤ len := by
    rw [UInt32.le_iff_toNat_le, hctm]
    exact Nat.min_le_right _ _
  rw [UInt32.toNat_sub_of_le _ _ hle, hctm]

theorem toNat_offset (hpre : prepend.toNat ≤ 192) :
    (pktNbiOffset + prepend).toNat = 64 + prepend.toNat := by
  rw [UInt32.toNat_add]
  change (64 + prepend.toNat) % 2 ^ 32 = _
  omega

/-- The address of the first transfer is the buffer's. -/
theorem ctm_addr (t : NfpTarget) (pkt : PktInfo) (hpre : prepend.toNat < 192) :
    t.pkt_ctm_ptr40 pkt.isl pkt.pnum (pktNbiOffset + prepend) =
      bufferByte t pkt (64 + prepend.toNat) := by
  have hoff : UInt32.ofNat (64 + prepend.toNat) = pktNbiOffset + prepend := by
    rw [← toNat_offset (Nat.le_of_lt hpre), UInt32.ofNat_toNat]
  rw [bufferByte, if_pos (by omega), hoff]

/-- Bytes of a buffer in CTM are consecutive. -/
theorem bufferByte_add {o k : ℕ} (h : o + k < 256) :
    bufferByte t pkt (o + k) = bufferByte t pkt o + BitVec.ofNat 40 k := by
  have hadd : UInt32.ofNat (o + k) = UInt32.ofNat o + UInt32.ofNat k := UInt32.ofNat_add o k
  have ho : (UInt32.ofNat o).toNat = o := UInt32.toNat_ofNat_of_lt' (show o < 2 ^ 32 by omega)
  have hk : (UInt32.ofNat k).toNat = k := UInt32.toNat_ofNat_of_lt' (show k < 2 ^ 32 by omega)
  rw [bufferByte, if_pos h, bufferByte, if_pos (by omega), hadd,
    t.pkt_ctm_ptr40_add _ _ _ _ (by omega), hk]

/-- So are those in the MU. -/
theorem bufferByte_mu {o : ℕ} (k : ℕ) (ho : 256 ≤ o) :
    bufferByte t pkt (o + k) = muAddr pkt.muptr o + BitVec.ofNat 40 k := by
  rw [bufferByte, if_neg (by omega), muAddr, muAddr, ← BitVec.ofNat_add, Nat.add_assoc]

variable (t pkt prepend len pcie_addr)

/-- The first transfer. -/
def ctmOp : DmaOp :=
  ⟨t.pkt_ctm_ptr40 pkt.isl pkt.pnum (pktNbiOffset + prepend),
    minC (256 - pktNbiOffset - prepend) len, pcie_addr⟩

/-- The second. -/
def muOp : DmaOp :=
  ⟨pktMuBuffer t pkt.muptr, len - minC (256 - pktNbiOffset - prepend) len,
    pcie_addr + BitVec.ofNat 64 (minC (256 - pktNbiOffset - prepend) len).toNat⟩

variable {t pkt prepend len pcie_addr}

/-- There is a second transfer exactly when the frame does not end in CTM. -/
theorem dmaPacket_cases (t : NfpTarget) (pkt : PktInfo) (len : UInt32) (pcie_addr : BitVec 64)
    (hpre : prepend.toNat ≤ 192) :
    (len.toNat ≤ 192 - prepend.toNat ∧
        dmaPacket t pkt prepend len pcie_addr = [ctmOp t pkt prepend len pcie_addr]) ∨
      192 - prepend.toNat < len.toNat ∧ dmaPacket t pkt prepend len pcie_addr =
        [ctmOp t pkt prepend len pcie_addr, muOp t pkt prepend len pcie_addr] := by
  -- what is left for the MU is positive exactly when the frame is longer than its part in CTM
  have hbuf := toNat_bufLen len hpre
  unfold ctmPart at hbuf
  by_cases h : len - minC (256 - pktNbiOffset - prepend) len > 0
  · have hpos : 0 < (len - minC (256 - pktNbiOffset - prepend) len).toNat :=
      UInt32.lt_iff_toNat_lt.mp h
    exact .inr ⟨by omega, if_pos h⟩
  · have hzero : ¬ 0 < (len - minC (256 - pktNbiOffset - prepend) len).toNat :=
      fun hpos => h (UInt32.lt_iff_toNat_lt.mpr hpos)
    exact .inl ⟨by omega, if_neg h⟩

/-- The frame's length, and the length field that has to hold that of each transfer. -/
structure LengthsFit (t : NfpTarget) (p L : ℕ) : Prop where
  pos : 0 < L
  ctm : ctmPart p L ≤ 2 ^ t.lengthBits
  mu : L - ctmPart p L ≤ 2 ^ t.lengthBits

/-- The addresses of the frame in the host are ones that their field can hold. -/
def HostFits (t : NfpTarget) (pcie_addr : BitVec 64) (L : ℕ) : Prop :=
  ∀ k < L, (pcie_addr + BitVec.ofNat 64 k).toNat < 2 ^ 32 * 2 ^ t.pcieHiBits

/-- Both transfers go to where the frame is in the host. -/
theorem ctmOp_pcieAddr (pkt : PktInfo) (prepend : UInt32) (hpos : 0 < len.toNat)
    (hhost : HostFits t pcie_addr len.toNat) :
    (dmaOp t (ctmOp t pkt prepend len pcie_addr)).pcieAddr = pcie_addr := by
  have hfit := hhost 0 hpos
  rw [BitVec.add_zero] at hfit
  exact dmaOp_pcieAddr hfit

theorem muOp_pcieAddr (pkt : PktInfo) (hpre : prepend.toNat ≤ 192)
    (hsplit : 192 - prepend.toNat < len.toNat) (hhost : HostFits t pcie_addr len.toNat) :
    (dmaOp t (muOp t pkt prepend len pcie_addr)).pcieAddr =
      pcie_addr + BitVec.ofNat 64 (ctmPart prepend.toNat len.toNat) := by
  have hfit := hhost (ctmPart prepend.toNat len.toNat) (by rwa [ctmPart_of_lt hsplit])
  rw [← toNat_ctmLen len hpre] at hfit ⊢
  exact dmaOp_pcieAddr hfit

theorem ctmOp_bytes (pkt : PktInfo) (pcie_addr : BitVec 64) (hpre : prepend.toNat < 192)
    (hfit : LengthsFit t prepend.toNat len.toNat) :
    (dmaOp t (ctmOp t pkt prepend len pcie_addr)).bytes =
      ctmPart prepend.toNat len.toNat := by
  have hlen := toNat_ctmLen len (Nat.le_of_lt hpre)
  have hpos := hfit.pos
  have hctm := hfit.ctm
  have hpart : 0 < ctmPart prepend.toNat len.toNat := by
    unfold ctmPart
    omega
  rw [dmaOp_bytes (by rw [ctmOp, hlen]; exact hpart) (by rw [ctmOp, hlen]; exact hctm)]
  exact hlen

theorem muOp_bytes (pkt : PktInfo) (pcie_addr : BitVec 64) (hpre : prepend.toNat < 192)
    (hfit : LengthsFit t prepend.toNat len.toNat)
    (hsplit : 192 - prepend.toNat < len.toNat) :
    (dmaOp t (muOp t pkt prepend len pcie_addr)).bytes =
      len.toNat - ctmPart prepend.toNat len.toNat := by
  have hlen := toNat_bufLen len (Nat.le_of_lt hpre)
  have hmu := hfit.mu
  have hpart : 0 < len.toNat - ctmPart prepend.toNat len.toNat := by
    rw [ctmPart_of_lt hsplit]
    omega
  rw [dmaOp_bytes (by rw [muOp, hlen]; exact hpart) (by rw [muOp, hlen]; exact hmu)]
  exact hlen

/-- The host after the transfers of a packet. -/
theorem toPci_dmaPacket (hpre : prepend.toNat < 192)
    (hfit : LengthsFit t prepend.toNat len.toNat) (hhost : HostFits t pcie_addr len.toNat)
    (mem : DevMem) (host : HostMem) :
    toPci t mem (dmaPacket t pkt prepend len pcie_addr) host =
      blit mem (pktMuBuffer t pkt.muptr) (len.toNat - ctmPart prepend.toNat len.toNat)
        (blit mem (bufferByte t pkt (64 + prepend.toNat)) (ctmPart prepend.toNat len.toNat) host
          pcie_addr)
        (pcie_addr + BitVec.ofNat 64 (ctmPart prepend.toNat len.toNat)) := by
  have hctm := ctmOp_bytes pkt pcie_addr hpre hfit
  have hto := ctmOp_pcieAddr pkt prepend hfit.pos hhost
  have haddr := ctm_addr t pkt hpre
  rcases dmaPacket_cases t pkt len pcie_addr
    (Nat.le_of_lt hpre) with ⟨hle, heq⟩ | ⟨hlt, heq⟩
  · have hzero : len.toNat - ctmPart prepend.toNat len.toNat = 0 := by
      rw [ctmPart_of_le hle, Nat.sub_self]
    rw [heq, hzero, blit_zero, ← haddr]
    simp only [toPci, List.foldl_cons, List.foldl_nil, dmaOp_cppAddr, hto, hctm]
    rfl
  · have hmu := muOp_bytes pkt pcie_addr hpre hfit hlt
    have hto' := muOp_pcieAddr pkt (Nat.le_of_lt hpre) hlt hhost
    rw [heq, ← haddr]
    simp only [toPci, List.foldl_cons, List.foldl_nil, dmaOp_cppAddr, hto, hto', hctm, hmu]
    rfl

/-- The device after them. -/
theorem fromPci_dmaPacket (hpre : prepend.toNat < 192)
    (hfit : LengthsFit t prepend.toNat len.toNat) (hhost : HostFits t pcie_addr len.toNat)
    (host : HostMem) (mem : DevMem) :
    fromPci t host (dmaPacket t pkt prepend len pcie_addr) mem =
      blit host (pcie_addr + BitVec.ofNat 64 (ctmPart prepend.toNat len.toNat))
        (len.toNat - ctmPart prepend.toNat len.toNat)
        (blit host pcie_addr (ctmPart prepend.toNat len.toNat) mem
          (bufferByte t pkt (64 + prepend.toNat)))
        (pktMuBuffer t pkt.muptr) := by
  have hctm := ctmOp_bytes pkt pcie_addr hpre hfit
  have hto := ctmOp_pcieAddr pkt prepend hfit.pos hhost
  have haddr := ctm_addr t pkt hpre
  rcases dmaPacket_cases t pkt len pcie_addr
    (Nat.le_of_lt hpre) with ⟨hle, heq⟩ | ⟨hlt, heq⟩
  · have hzero : len.toNat - ctmPart prepend.toNat len.toNat = 0 := by
      rw [ctmPart_of_le hle, Nat.sub_self]
    rw [heq, hzero, blit_zero, ← haddr]
    simp only [fromPci, List.foldl_cons, List.foldl_nil, dmaOp_cppAddr, hto, hctm]
    rfl
  · have hmu := muOp_bytes pkt pcie_addr hpre hfit hlt
    have hto' := muOp_pcieAddr pkt (Nat.le_of_lt hpre) hlt hhost
    rw [heq, ← haddr]
    simp only [fromPci, List.foldl_cons, List.foldl_nil, dmaOp_cppAddr, hto, hto', hctm, hmu]
    rfl

/-! ### Exactness -/

/-- Whatever the pointer, the transfers partition the frame. -/
theorem splitOk_dmaPacket (hpre : prepend.toNat < 192) (hlen : 0 < len.toNat) :
    SplitOk t pkt (64 + prepend.toNat) len.toNat pcie_addr
      (dmaPacket t pkt prepend len pcie_addr) := by
  have hfirst := toNat_ctmLen len (Nat.le_of_lt hpre)
  have hrest := toNat_bufLen len (Nat.le_of_lt hpre)
  have haddr := ctm_addr t pkt hpre
  have hend : 64 + prepend.toNat + ctmPart prepend.toNat len.toNat ≤ 256 := by
    unfold ctmPart
    omega
  rcases dmaPacket_cases t pkt len pcie_addr
    (Nat.le_of_lt hpre) with ⟨hle, heq⟩ | ⟨hlt, heq⟩
  -- all in one transfer
  · have hall := ctmPart_of_le hle
    rw [heq]
    refine ⟨?_, _, [], rfl, haddr, ?_, fun op hop => absurd hop List.not_mem_nil⟩
    · simp only [List.map_cons, List.map_nil, Tiles, ctmOp, hfirst, hall, BitVec.sub_self]
      exact ⟨rfl, hlen, Nat.zero_add _⟩
    · rw [ctmOp, hfirst]
      exact hend
  · have hpart := ctmPart_of_lt hlt
    rw [heq]
    refine ⟨?_, _, [muOp t pkt prepend len pcie_addr], rfl, haddr, ?_, fun op hop => ?_⟩
    · simp only [List.map_cons, List.map_nil, Tiles, ctmOp, muOp, hfirst, hrest, hpart,
        BitVec.sub_self]
      refine ⟨rfl, by omega, ?_, by omega, by omega⟩
      rw [add_ofNat_sub _ (by omega), Nat.zero_add]
    · rw [ctmOp, hfirst]
      exact hend
    · rw [List.mem_singleton.mp hop]
      rfl

/-- The frame's bytes in the MU are where the second transfer takes them from. -/
theorem bufferByte_muPart (hpre : prepend.toNat < 192)
    (hmu : len.toNat ≤ 192 - prepend.toNat ∨ pktMuBuffer t pkt.muptr = muAddr pkt.muptr 256)
    {k : ℕ} (hk : k < len.toNat - ctmPart prepend.toNat len.toNat) :
    bufferByte t pkt (64 + prepend.toNat + (ctmPart prepend.toNat len.toNat + k)) =
      pktMuBuffer t pkt.muptr + BitVec.ofNat 40 k := by
  have hpart : ctmPart prepend.toNat len.toNat = 192 - prepend.toNat := by
    unfold ctmPart at hk ⊢
    omega
  have haddr : pktMuBuffer t pkt.muptr = muAddr pkt.muptr 256 := by
    refine hmu.resolve_left ?_
    omega
  have hoff : 64 + prepend.toNat + (ctmPart prepend.toNat len.toNat + k) = 256 + k := by omega
  rw [hoff, haddr, bufferByte_mu k (Nat.le_refl 256)]

theorem bufferByte_ctmPart {k : ℕ} (hk : k < ctmPart prepend.toNat len.toNat) :
    bufferByte t pkt (64 + prepend.toNat + k) =
      bufferByte t pkt (64 + prepend.toNat) + BitVec.ofNat 40 k := by
  unfold ctmPart at hk
  exact bufferByte_add (by omega)

theorem ctmPart_add (p L : ℕ) : ctmPart p L + (L - ctmPart p L) = L := by
  unfold ctmPart
  omega

/-- The host gets the frame. -/
theorem toPci_copied (pcie_addr : BitVec 64) (hpre : prepend.toNat < 192)
    (hfit : LengthsFit t prepend.toNat len.toNat) (hhost : HostFits t pcie_addr len.toNat)
    (hmu : len.toNat ≤ 192 - prepend.toNat ∨ pktMuBuffer t pkt.muptr = muAddr pkt.muptr 256)
    (mem : DevMem) (host : HostMem) :
    Copied mem (fun k => bufferByte t pkt (64 + prepend.toNat + k)) host
      (fun k => pcie_addr + BitVec.ofNat 64 k) len.toNat
      (toPci t mem (dmaPacket t pkt prepend len pcie_addr) host) := by
  have hlt := len.toNat_lt
  have hsum := ctmPart_add prepend.toNat len.toNat
  rw [toPci_dmaPacket hpre hfit hhost]
  refine copied_of_two hsum (by omega) (fun k hk => bufferByte_ctmPart hk) (fun k _ => rfl)
    (fun k hk => bufferByte_muPart hpre hmu hk) (fun k _ => ?_) (fun i hi j hj heq => ?_)
  · rw [BitVec.ofNat_add, BitVec.add_assoc]
  · have hij := add_ofNat_inj pcie_addr (by omega) (by omega) heq
    omega

/-- The buffer gets the frame. -/
theorem fromPci_copied (pcie_addr : BitVec 64) (hpre : prepend.toNat < 192)
    (hfit : LengthsFit t prepend.toNat len.toNat) (hhost : HostFits t pcie_addr len.toNat)
    (hmu : len.toNat ≤ 192 - prepend.toNat ∨ pktMuBuffer t pkt.muptr = muAddr pkt.muptr 256)
    (hapart : Apart t pkt (64 + prepend.toNat + len.toNat)) (host : HostMem) (mem : DevMem) :
    Copied host (fun k => pcie_addr + BitVec.ofNat 64 k) mem
      (fun k => bufferByte t pkt (64 + prepend.toNat + k)) len.toNat
      (fromPci t host (dmaPacket t pkt prepend len pcie_addr) mem) := by
  have hlt := len.toNat_lt
  have hsum := ctmPart_add prepend.toNat len.toNat
  rw [fromPci_dmaPacket hpre hfit hhost]
  refine copied_of_two hsum (by omega) (fun k _ => rfl) (fun k hk => bufferByte_ctmPart hk)
    (fun k _ => ?_) (fun k hk => bufferByte_muPart hpre hmu hk) (fun i hi j hj => ?_)
  · rw [BitVec.ofNat_add, BitVec.add_assoc]
  · unfold ctmPart at hi hj ⊢
    exact hapart _ (by omega) _ (by omega) (by omega)

/-! ### The exact condition -/

/-- A memory that is zero but for one byte. -/
def only {w : ℕ} (a : BitVec w) : BitVec w → UInt8 := fun x => if x = a then 1 else 0

theorem only_self {w : ℕ} (a : BitVec w) : only a a = 1 := if_pos rfl

theorem eq_of_only {w : ℕ} {a x : BitVec w} (h : only a x = 1) : x = a := by
  by_contra hne
  have hzero : only a x = 0 := if_neg hne
  rw [hzero] at h
  exact absurd h (by decide)

/-- The first byte of the second transfer. -/
theorem bufferByte_seam {p : ℕ} (hp : p < 192) :
    bufferByte t pkt (64 + p + (192 - p)) = muAddr pkt.muptr 256 := by
  have hoff : 64 + p + (192 - p) = 256 := by omega
  rw [hoff]
  exact if_neg (Nat.lt_irrefl _)

/-- A second transfer from a wrong address misses the buffer's byte 256. -/
theorem mu_of_toPci_copied (pcie_addr : BitVec 64) (hpre : prepend.toNat < 192)
    (hfit : LengthsFit t prepend.toNat len.toNat) (hhost : HostFits t pcie_addr len.toNat)
    (h : ∀ mem host, Copied mem (fun k => bufferByte t pkt (64 + prepend.toNat + k)) host
      (fun k => pcie_addr + BitVec.ofNat 64 k) len.toNat
      (toPci t mem (dmaPacket t pkt prepend len pcie_addr) host)) :
    len.toNat ≤ 192 - prepend.toNat ∨ pktMuBuffer t pkt.muptr = muAddr pkt.muptr 256 := by
  by_cases hle : len.toNat ≤ 192 - prepend.toNat
  · exact .inl hle
  have hpart := ctmPart_of_lt (not_le.mp hle)
  -- only the byte 256 of the buffer is set, and the host gets it
  have hbyte := (h (only (muAddr pkt.muptr 256)) (only 0)).bytes (192 - prepend.toNat) (by omega)
  rw [toPci_dmaPacket hpre hfit hhost, hpart, blit_start (by omega), bufferByte_seam hpre,
    only_self] at hbyte
  exact .inr (eq_of_only hbyte)

/-- A second transfer to a wrong address leaves the buffer's byte 256 behind, or fills it with
another byte of the frame. -/
theorem mu_of_fromPci_copied (pcie_addr : BitVec 64) (hpre : prepend.toNat < 192)
    (hfit : LengthsFit t prepend.toNat len.toNat) (hhost : HostFits t pcie_addr len.toNat)
    (h : ∀ host mem, Copied host (fun k => pcie_addr + BitVec.ofNat 64 k) mem
      (fun k => bufferByte t pkt (64 + prepend.toNat + k)) len.toNat
      (fromPci t host (dmaPacket t pkt prepend len pcie_addr) mem)) :
    len.toNat ≤ 192 - prepend.toNat ∨ pktMuBuffer t pkt.muptr = muAddr pkt.muptr 256 := by
  by_cases hle : len.toNat ≤ 192 - prepend.toNat
  · exact .inl hle
  have hlt := len.toNat_lt
  have hpart := ctmPart_of_lt (not_le.mp hle)
  -- the byte of the host that belongs there, in a frame of zeros
  have hbyte := (h (only (pcie_addr + BitVec.ofNat 64 (192 - prepend.toNat)))
    (fun _ => 0)).bytes (192 - prepend.toNat) (by omega)
  rw [fromPci_dmaPacket hpre hfit hhost, hpart, bufferByte_seam hpre, only_self] at hbyte
  rcases blit_cases (muAddr pkt.muptr 256) with ⟨k, hk, hx, heq⟩ | heq
  · -- it came with the second transfer, and was the first byte of it
    rw [heq, BitVec.add_assoc, ← BitVec.ofNat_add] at hbyte
    have hoff := add_ofNat_inj pcie_addr (by omega) (by omega) (eq_of_only hbyte)
    obtain rfl : k = 0 := by omega
    rw [hx]
    exact .inr (BitVec.add_zero _).symm
  · -- the first transfer does not have that byte
    rw [heq] at hbyte
    rcases blit_cases (muAddr pkt.muptr 256) with ⟨k, hk, -, heq'⟩ | heq'
    · rw [heq'] at hbyte
      have hoff := add_ofNat_inj pcie_addr (by omega) (by omega) (eq_of_only hbyte)
      omega
    · rw [heq'] at hbyte
      exact absurd hbyte (by decide)

/-- The transfers of a frame to the host and into a buffer are exact exactly when each of the
two packets has no second part or a pointer that fits. -/
theorem dmaExact_iff {pkt pkt' : PktInfo} (hpkt : pkt.len.toNat = len.toNat + 8)
    (hsend : LengthsFit t 8 len.toNat) (hrecv : LengthsFit t 4 len.toNat)
    (hhost : HostFits t pcie_addr len.toNat) (hapart : Apart t pkt' (68 + len.toNat)) :
    DmaExact t pkt pkt' len pcie_addr ↔
      (len.toNat ≤ 184 ∨ t.widening.Fits pkt.muptr) ∧
        (len.toNat ≤ 188 ∨ t.widening.Fits pkt'.muptr) := by
  have pre8 : (2 * macPrependBytes).toNat < 192 := by decide
  have pre4 : macPrependBytes.toNat < 192 := by decide
  -- the prepend of 8 is taken off again, so both directions split the same length
  have hlen : pkt.len - 2 * macPrependBytes = len := by
    have hle : 2 * macPrependBytes ≤ pkt.len :=
      UInt32.le_iff_toNat_le.mpr (show 8 ≤ pkt.len.toNat by omega)
    refine UInt32.toNat_inj.mp ?_
    rw [UInt32.toNat_sub_of_le _ _ hle, hpkt]
    exact Nat.add_sub_cancel _ 8
  have hops : dmaPacketSend t pkt pcie_addr =
      dmaPacket t pkt (2 * macPrependBytes) len pcie_addr := by
    rw [dmaPacketSend, hlen]
  constructor
  · intro h
    constructor
    · rw [← pktMuBuffer_eq_iff]
      refine mu_of_toPci_copied pcie_addr pre8 hsend hhost ?_
      rw [← hops]
      exact h.send
    · rw [← pktMuBuffer_eq_iff]
      exact mu_of_fromPci_copied pcie_addr pre4 hrecv hhost h.recv
  · rintro ⟨hmu, hmu'⟩
    rw [← pktMuBuffer_eq_iff] at hmu hmu'
    have hsent := toPci_copied pcie_addr pre8 hsend hhost hmu
    rw [← hops] at hsent
    have hreceived := fromPci_copied pcie_addr pre4 hrecv hhost hmu' hapart
    -- the round trip goes by way of the host's bytes
    refine ⟨?_, splitOk_dmaPacket pre4 hrecv.pos, hsent,
      hreceived, fun mem mem' host k hk => ?_⟩
    · rw [hops]
      exact splitOk_dmaPacket pre8 hsend.pos
    · exact (hsent mem host).trans (hreceived _ mem') hk

/-! ### A packet of 1000 bytes -/

/-- Packet addresses of the chip, with a length field of twelve bits and 40-bit addresses. -/
def chip (widening : Widening) : NfpTarget where
  pkt_ctm_ptr40 island pnum off :=
    BitVec.ofNat 40 ((0x80 + island) * 2 ^ 32 + 2 ^ 31 + pnum * 2 ^ 16 + off.toNat)
  pkt_ctm_ptr40_add island pnum off k h := by
    have hsum : (off + k).toNat = off.toNat + k.toNat := by
      rw [UInt32.toNat_add, Nat.mod_eq_of_lt (by omega)]
    rw [hsum, ← BitVec.ofNat_add, ← Nat.add_assoc]
  widening := widening
  lengthBits := 12
  cppHiBits := 8
  pcieHiBits := 8
  cpp_fits := le_rfl

def packetAt (muptr : BitVec 29) : PktInfo := ⟨32, 0, 1008, muptr⟩

def packetLen : UInt32 := 1000

@[simp] theorem toNat_packetLen : packetLen.toNat = 1000 := rfl

theorem lengthsFit_chip (w : Widening) (p : ℕ) :
    LengthsFit (chip w) p packetLen.toNat := by
  have hpow : 2 ^ (chip w).lengthBits = 4096 := rfl
  constructor
  · rw [toNat_packetLen]
    omega
  · rw [toNat_packetLen, hpow, ctmPart]
    omega
  · rw [toNat_packetLen, hpow, ctmPart]
    omega

theorem hostFits_chip (w : Widening) : HostFits (chip w) 0x10000 packetLen.toNat := by
  intro k hk
  rw [toNat_packetLen] at hk
  change (0x10000 + k % 2 ^ 64) % 2 ^ 64 < 2 ^ 32 * 2 ^ 8
  omega

theorem apart_packetAt : Apart (chip .zero) (packetAt 5) (68 + packetLen.toNat) := by
  intro i hi o ho hlt heq
  rw [toNat_packetLen] at hlt
  have hnat := congrArg BitVec.toNat heq
  rw [bufferByte, if_pos hi, bufferByte, if_neg (by omega)] at hnat
  change ((0x80 + 32) * 2 ^ 32 + 2 ^ 31 + 0 * 2 ^ 16 + i % 2 ^ 32) % 2 ^ 40 =
    (5 * 2 ^ 11 + o) % 2 ^ 40 at hnat
  omega

theorem dmaExact_iff_packetAt :
    DmaExact (chip .zero) (packetAt 5) (packetAt 5) packetLen 0x10000 ↔
      (packetLen.toNat ≤ 184 ∨ (chip .zero).widening.Fits (packetAt 5).muptr) ∧
        (packetLen.toNat ≤ 188 ∨ (chip .zero).widening.Fits (packetAt 5).muptr) :=
  dmaExact_iff rfl (lengthsFit_chip _ _) (lengthsFit_chip _ _) (hostFits_chip _) apart_packetAt

/-- The buffer `2 ^ 21`, at the MU address `2 ^ 32`, is taken for the one at `0`. -/
theorem high_buffer_not_exact :
    ¬ DmaExact (chip .zero) (packetAt 0x200000) (packetAt 0x200000) packetLen 0x10000 ∧
      ¬ DmaExact (chip .sign) (packetAt 0x200000) (packetAt 0x200000) packetLen 0x10000 := by
  have hpre : macPrependBytes.toNat < 192 := by decide
  have hlong : ¬ packetLen.toNat ≤ 192 - macPrependBytes.toNat := by
    rw [toNat_packetLen]
    decide
  constructor
  · intro h
    have hmu := mu_of_fromPci_copied 0x10000 hpre (lengthsFit_chip _ _)
      (hostFits_chip _) h.recv
    have hfits := (pktMuBuffer_eq_iff _).mp (hmu.resolve_left hlong)
    exact absurd hfits (show ¬ 2 ^ 21 < 2 ^ 21 by decide)
  · intro h
    have hmu := mu_of_fromPci_copied 0x10000 hpre (lengthsFit_chip _ _)
      (hostFits_chip _) h.recv
    have hfits := (pktMuBuffer_eq_iff _).mp (hmu.resolve_left hlong)
    exact absurd hfits (show ¬ (2 ^ 21 < 2 ^ 20 ∨ 2 ^ 29 - 2 ^ 20 ≤ 2 ^ 21) by decide)

end NfpUdpEcho
