import NfpUdpEcho.Framework.ByteMem
import NfpUdpEcho.Packet.DmaSplit

/-!
# The echo rewriting of a packet

`rx_process` turns a frame into its own answer: `modify_packet_header` (`firmware/rxops.c`)
exchanges the addresses of a copy of the headers and sets the type of an ICMP message, and
`write_packet_header` writes the copy back. The copy is `struct pkt_hdr_t`, a packed overlay of
52 bytes, so a field is a place in it.

The overlay has an IPv4 header of 20 bytes. Behind a header of another length the message type
is written into the wrong byte, which shows unless both bytes are zero anyway (`echo_iff`).
-/

namespace NfpUdpEcho

open ByteMem

/-! ### `struct pkt_hdr_t` -/

/-- A field of the overlay. -/
structure Field where
  off : ℕ
  len : ℕ

/-- Four bytes of time stamp and four of MAC prepend stand before the frame. -/
def frameOff : ℕ := 4 + 4

/-- `struct eth_hdr` has 14 bytes, `struct ip4_hdr` 20, the union of `struct udp_hdr` and
`struct icmp_hdr` 8. -/
def ethOff : ℕ := frameOff
def ipOff : ℕ := ethOff + 14
def l4Off : ℕ := ipOff + 20
def sizeofPktHdr : ℕ := l4Off + 8 + 2

def ethDst : Field := ⟨ethOff, 6⟩
def ethSrc : Field := ⟨ethOff + 6, 6⟩
def ethType : Field := ⟨ethOff + 12, 2⟩
def ipProto : Field := ⟨ipOff + 9, 1⟩
def ipSrc : Field := ⟨ipOff + 12, 4⟩
def ipDst : Field := ⟨ipOff + 16, 4⟩
def icmpType : Field := ⟨l4Off, 1⟩

def netEthTypeIpv4 : ℕ := 0x0800
def netIpProtoUdp : UInt8 := 0x11
def netIpProtoIcmp : UInt8 := 0x01
def netIcmpTypeEchoReply : UInt8 := 0

/-- `struct pkt_t`: the metadata, and the overlay, of which the first `sizeofPktHdr` bytes
count. -/
structure Pkt where
  nbi_meta : PktInfo
  hdr : Mem

/-- The packet memory: the bytes of each packet's buffer, by island and packet number. -/
abbrev Ctm := ℕ → ℕ → Mem

/-- A field set to a field of the same length. -/
def assign (hdr : Mem) (dst : Field) (hdr' : Mem) (src : Field) : Mem :=
  hdr.copy dst.off hdr' src.off dst.len

/-- A 16-bit field, in network order. -/
def netShort (hdr : Mem) (f : Field) : ℕ := (hdr f.off).toNat * 256 + (hdr (f.off + 1)).toNat

/-! ### `rxops.c` -/

/-- `receive_packet_with_hdrs`. -/
def receivePacketWithHdrs (nbi_meta : PktInfo) (ctm : Ctm) : Pkt where
  nbi_meta := nbi_meta
  hdr k := ctm nbi_meta.isl nbi_meta.pnum (pktNbiOffset.toNat + k)

/-- `write_packet_header`. -/
def writePacketHeader (pkt : Pkt) (ctm : Ctm) : Ctm :=
  let island := pkt.nbi_meta.isl
  let pnum := pkt.nbi_meta.pnum
  Function.update ctm island
    (Function.update (ctm island) pnum
      ((ctm island pnum).copy pktNbiOffset.toNat pkt.hdr 0 sizeofPktHdr))

inductive Verdict where
  | allow
  | drop
  deriving DecidableEq

/-- `filter_packets`. -/
def filterPackets (packet_size : UInt32) (pkt : Pkt) : Verdict :=
  if netShort pkt.hdr ethType ≠ netEthTypeIpv4 then .drop
  else if pkt.hdr ipProto.off ≠ netIpProtoUdp ∧ pkt.hdr ipProto.off ≠ netIpProtoIcmp then
    .drop
  else if pkt.nbi_meta.len - 2 * macPrependBytes ≠ packet_size then .drop
  else .allow

/-- `modify_packet_header`. -/
def modifyPacketHeader (pkt : Pkt) : Pkt :=
  let temp_eth_addr := pkt.hdr
  let hdr := assign pkt.hdr ethDst pkt.hdr ethSrc
  let hdr := assign hdr ethSrc temp_eth_addr ethDst
  let temp_ip_addr := hdr
  let hdr := assign hdr ipDst hdr ipSrc
  let hdr := assign hdr ipSrc temp_ip_addr ipDst
  let hdr :=
    if hdr ipProto.off = netIpProtoIcmp then hdr.write icmpType.off netIcmpTypeEchoReply
    else hdr
  { pkt with hdr := hdr }

/-- The rewriting of a received packet. -/
def echoPacket (nbi_meta : PktInfo) (ctm : Ctm) : Pkt × Ctm :=
  let pkt := modifyPacketHeader (receivePacketWithHdrs nbi_meta ctm)
  (pkt, writePacketHeader pkt ctm)

/-! ### What an echo changes -/

/-- The frame of a packet. -/
def frameOf (buf : Mem) : Mem := fun k => buf (pktNbiOffset.toNat + frameOff + k)

/-- Where the byte `k` of the frame with source and destination exchanged comes from. -/
def partner (k : ℕ) : ℕ :=
  if k < 6 then k + 6
  else if k < 12 then k - 6
  else if 26 ≤ k ∧ k < 30 then k + 4
  else if 30 ≤ k ∧ k < 34 then k - 4
  else k

def swapAddresses (frame : Mem) : Mem := fun k => frame (partner k)

/-- The length of the IPv4 header, in words. -/
def ihl (frame : Mem) : ℕ := (frame 14).toNat % 16

/-- The protocol in the IPv4 header. -/
def proto (frame : Mem) : UInt8 := frame 23

/-- The first byte after the IPv4 header. -/
def icmpTypeAt (frame : Mem) : ℕ := 14 + 4 * ihl frame

/-- The answer to a frame. -/
def echoFrame (frame : Mem) : Mem :=
  if proto frame = netIpProtoIcmp then
    (swapAddresses frame).write (icmpTypeAt frame) netIcmpTypeEchoReply
  else swapAddresses frame

/-- The length of the frame. -/
def frameLen (nbi_meta : PktInfo) : ℕ := (nbi_meta.len - 2 * macPrependBytes).toNat

/-- The packet becomes its answer, and nothing else changes. -/
structure EchoExact (nbi_meta : PktInfo) (ctm : Ctm) : Prop where
  frame : ∀ k < frameLen nbi_meta,
    frameOf ((echoPacket nbi_meta ctm).2 nbi_meta.isl nbi_meta.pnum) k =
      echoFrame (frameOf (ctm nbi_meta.isl nbi_meta.pnum)) k
  before : ∀ o < pktNbiOffset.toNat + frameOff,
    (echoPacket nbi_meta ctm).2 nbi_meta.isl nbi_meta.pnum o = ctm nbi_meta.isl nbi_meta.pnum o
  others : ∀ island pnum, (island ≠ nbi_meta.isl ∨ pnum ≠ nbi_meta.pnum) →
    (echoPacket nbi_meta ctm).2 island pnum = ctm island pnum
  metadata : (echoPacket nbi_meta ctm).1.nbi_meta = nbi_meta
  twice : proto (frameOf (ctm nbi_meta.isl nbi_meta.pnum)) = netIpProtoUdp →
    (echoPacket nbi_meta (echoPacket nbi_meta ctm).2).2 = ctm

/-- The ICMP type is where the overlay has it, or nothing has to change in either place. -/
def EchoSound (frame : Mem) (L : ℕ) : Prop :=
  proto frame = netIpProtoUdp ∨ ihl frame = 5 ∨
    (34 < L → frame 34 = netIcmpTypeEchoReply) ∧
      (icmpTypeAt frame < L → swapAddresses frame (icmpTypeAt frame) = netIcmpTypeEchoReply)

/-! ### What the code changes -/

theorem partner_partner (k : ℕ) : partner (partner k) = k := by
  unfold partner
  split_ifs <;> omega

@[simp] theorem swapAddresses_swapAddresses (frame : Mem) :
    swapAddresses (swapAddresses frame) = frame := by
  funext k
  exact congrArg frame (partner_partner k)

variable (nbi_meta : PktInfo) (ctm : Ctm) (pkt : Pkt) (k : ℕ)

/-- The overlay after the four assignments. -/
def exchangeAddresses (hdr : Mem) : Mem :=
  (hdr.exchange ethDst.off ethSrc.off 6).exchange ipDst.off ipSrc.off 4

theorem modifyPacketHeader_hdr : (modifyPacketHeader pkt).hdr =
    if exchangeAddresses pkt.hdr ipProto.off = netIpProtoIcmp then
      (exchangeAddresses pkt.hdr).write icmpType.off netIcmpTypeEchoReply
    else exchangeAddresses pkt.hdr := rfl

/-- Where the byte `k` of the overlay comes from. -/
def overlayPartner (k : ℕ) : ℕ :=
  exchanged ethDst.off ethSrc.off 6 (exchanged ipDst.off ipSrc.off 4 k)

theorem exchangeAddresses_apply (hdr : Mem) :
    exchangeAddresses hdr k = hdr (overlayPartner k) := by
  unfold exchangeAddresses
  rw [Mem.exchange_apply _ (by decide), Mem.exchange_apply _ (by decide)]
  rfl

/-- The copy of the headers after `modify_packet_header`. -/
theorem modify_hdr : (modifyPacketHeader pkt).hdr k =
    if pkt.hdr ipProto.off = netIpProtoIcmp ∧ k = icmpType.off then netIcmpTypeEchoReply
    else pkt.hdr (overlayPartner k) := by
  have hproto : exchangeAddresses pkt.hdr ipProto.off = pkt.hdr ipProto.off :=
    exchangeAddresses_apply ipProto.off pkt.hdr
  -- the protocol is looked at after the exchange, which leaves it where it is
  rw [modifyPacketHeader_hdr, hproto]
  by_cases h : pkt.hdr ipProto.off = netIpProtoIcmp
  · by_cases hk : k = icmpType.off
    · rw [if_pos h, if_pos ⟨h, hk⟩, hk, Mem.write_self]
    · rw [if_pos h, if_neg fun hc => hk hc.2, Mem.write_of_ne hk, exchangeAddresses_apply]
  · rw [if_neg h, if_neg fun hc => h hc.1, exchangeAddresses_apply]

theorem exchanged_ip : exchanged ipDst.off ipSrc.off 4 (frameOff + k) =
    frameOff + if 26 ≤ k ∧ k < 30 then k + 4 else if 30 ≤ k ∧ k < 34 then k - 4 else k := by
  change exchanged 38 34 4 (8 + k) = 8 + _
  unfold exchanged
  split_ifs <;> omega

theorem exchanged_eth : exchanged ethDst.off ethSrc.off 6 (frameOff + k) =
    frameOff + if k < 6 then k + 6 else if k < 12 then k - 6 else k := by
  change exchanged 8 14 6 (8 + k) = 8 + _
  unfold exchanged
  split_ifs <;> omega

/-- In the overlay the frame starts behind the prepends. -/
theorem overlayPartner_add : overlayPartner (frameOff + k) = frameOff + partner k := by
  rw [overlayPartner, exchanged_ip, exchanged_eth]
  unfold partner
  by_cases hsrc : 26 ≤ k ∧ k < 30
  · simp only [if_pos hsrc]
    split_ifs <;> omega
  · simp only [if_neg hsrc]
    by_cases hdst : 30 ≤ k ∧ k < 34
    · simp only [if_pos hdst]
      split_ifs <;> omega
    · simp only [if_neg hdst]

/-- The prepends stay. -/
theorem overlayPartner_of_lt {k : ℕ} (hk : k < frameOff) : overlayPartner k = k := by
  unfold frameOff at hk
  have hip : exchanged ipDst.off ipSrc.off 4 k = k := by
    refine exchanged_of_not ?_ ?_ <;> simp only [ipDst, ipSrc, ipOff, ethOff, frameOff] <;> omega
  have heth : exchanged ethDst.off ethSrc.off 6 k = k := by
    refine exchanged_of_not ?_ ?_ <;> simp only [ethDst, ethSrc, ethOff, frameOff] <;> omega
  rw [overlayPartner, hip, heth]

/-! ### The packet afterwards -/

theorem writePacketHeader_self :
    writePacketHeader pkt ctm pkt.nbi_meta.isl pkt.nbi_meta.pnum =
      (ctm pkt.nbi_meta.isl pkt.nbi_meta.pnum).copy pktNbiOffset.toNat pkt.hdr 0
        sizeofPktHdr := by
  unfold writePacketHeader
  rw [Function.update_self, Function.update_self]

theorem writePacketHeader_of_ne {island pnum : ℕ}
    (h : island ≠ pkt.nbi_meta.isl ∨ pnum ≠ pkt.nbi_meta.pnum) :
    writePacketHeader pkt ctm island pnum = ctm island pnum := by
  unfold writePacketHeader
  by_cases hisl : island = pkt.nbi_meta.isl
  · subst hisl
    rw [Function.update_self, Function.update_of_ne (h.resolve_left fun hne => hne rfl)]
  · rw [Function.update_of_ne hisl]

/-- The packet's buffer after the rewriting. -/
def echoBuffer : Mem := (echoPacket nbi_meta ctm).2 nbi_meta.isl nbi_meta.pnum

/-- Inside the overlay. -/
theorem echoBuffer_hdr {k : ℕ} (hk : k < sizeofPktHdr) :
    echoBuffer nbi_meta ctm (pktNbiOffset.toNat + k) =
      if ctm nbi_meta.isl nbi_meta.pnum (pktNbiOffset.toNat + ipProto.off) = netIpProtoIcmp ∧
          k = icmpType.off then netIcmpTypeEchoReply
      else ctm nbi_meta.isl nbi_meta.pnum (pktNbiOffset.toNat + overlayPartner k) := by
  have hself := writePacketHeader_self ctm
    (modifyPacketHeader (receivePacketWithHdrs nbi_meta ctm))
  refine (congrFun hself _).trans ?_
  rw [Mem.copy_of_lt _ _ hk, Nat.zero_add, modify_hdr]
  rfl

/-- Outside of it. -/
theorem echoBuffer_of_not {o : ℕ}
    (ho : o < pktNbiOffset.toNat ∨ pktNbiOffset.toNat + sizeofPktHdr ≤ o) :
    echoBuffer nbi_meta ctm o = ctm nbi_meta.isl nbi_meta.pnum o := by
  have hself := writePacketHeader_self ctm
    (modifyPacketHeader (receivePacketWithHdrs nbi_meta ctm))
  exact (congrFun hself o).trans (Mem.copy_of_not _ _ ho)

/-- What stands before the frame. -/
theorem echoBuffer_before {o : ℕ} (ho : o < pktNbiOffset.toNat + frameOff) :
    echoBuffer nbi_meta ctm o = ctm nbi_meta.isl nbi_meta.pnum o := by
  by_cases hlt : o < pktNbiOffset.toNat
  · exact echoBuffer_of_not _ _ (.inl hlt)
  · obtain ⟨k, rfl⟩ := Nat.exists_eq_add_of_le (Nat.le_of_not_lt hlt)
    have hk : k < frameOff := by omega
    have hsize : k < sizeofPktHdr := Nat.lt_trans hk (by decide)
    have hne : k ≠ icmpType.off := Nat.ne_of_lt (Nat.lt_trans hk (by decide))
    rw [echoBuffer_hdr _ _ hsize, if_neg fun hc => hne hc.2, overlayPartner_of_lt hk]

/-- The frame. -/
theorem echoBuffer_frame :
    frameOf (echoBuffer nbi_meta ctm) k =
      if proto (frameOf (ctm nbi_meta.isl nbi_meta.pnum)) = netIpProtoIcmp ∧ k = 34 then
        netIcmpTypeEchoReply
      else swapAddresses (frameOf (ctm nbi_meta.isl nbi_meta.pnum)) k := by
  by_cases hk : k < 44
  · have hsize : frameOff + k < sizeofPktHdr := by
      change 8 + k < 52
      omega
    have hiff : frameOff + k = icmpType.off ↔ k = 34 := by
      change 8 + k = 42 ↔ k = 34
      omega
    have hbuf := echoBuffer_hdr nbi_meta ctm hsize
    simp only [overlayPartner_add, hiff, ← Nat.add_assoc] at hbuf
    exact hbuf
  · -- behind the overlay nothing is exchanged, and there is no type
    have hpartner : partner k = k := by
      unfold partner
      split_ifs <;> omega
    have hne : k ≠ 34 := by omega
    rw [if_neg fun hc => hne hc.2, swapAddresses, hpartner]
    refine echoBuffer_of_not _ _ (.inr ?_)
    change 64 + 52 ≤ 64 + 8 + k
    omega

/-- What the filter lets through. -/
theorem filterPackets_allow {packet_size : UInt32} {pkt : Pkt}
    (h : filterPackets packet_size pkt = .allow) :
    netShort pkt.hdr ethType = netEthTypeIpv4 ∧
      (pkt.hdr ipProto.off = netIpProtoUdp ∨ pkt.hdr ipProto.off = netIpProtoIcmp) ∧
      pkt.nbi_meta.len - 2 * macPrependBytes = packet_size := by
  unfold filterPackets at h
  -- the one branch that allows is the last
  split_ifs at h with htype hproto hlen
  refine ⟨not_not.mp htype, ?_, not_not.mp hlen⟩
  by_contra hno
  exact hproto (not_or.mp hno)

/-- A UDP frame is answered by the exchange alone. -/
theorem echoBuffer_udp
    (h : proto (frameOf (ctm nbi_meta.isl nbi_meta.pnum)) = netIpProtoUdp) :
    frameOf (echoBuffer nbi_meta ctm) =
      swapAddresses (frameOf (ctm nbi_meta.isl nbi_meta.pnum)) := by
  funext k
  rw [echoBuffer_frame, h, if_neg fun hc => absurd hc.1 (by decide)]

/-- The answer to the answer is the packet. -/
theorem echoPacket_twice
    (h : proto (frameOf (ctm nbi_meta.isl nbi_meta.pnum)) = netIpProtoUdp) :
    (echoPacket nbi_meta (echoPacket nbi_meta ctm).2).2 = ctm := by
  have hframe := echoBuffer_udp nbi_meta ctm h
  have hproto : proto (frameOf (echoBuffer nbi_meta ctm)) = netIpProtoUdp := by
    rw [hframe]
    exact h
  have hother : ∀ ctm' : Ctm, ∀ island pnum,
      (island ≠ nbi_meta.isl ∨ pnum ≠ nbi_meta.pnum) →
      (echoPacket nbi_meta ctm').2 island pnum = ctm' island pnum :=
    fun ctm' _ _ hne =>
      writePacketHeader_of_ne ctm' (modifyPacketHeader (receivePacketWithHdrs nbi_meta ctm')) hne
  -- the buffer of the packet: what is before the frame, and the frame exchanged twice
  have hself : echoBuffer nbi_meta (echoPacket nbi_meta ctm).2 =
      ctm nbi_meta.isl nbi_meta.pnum := by
    funext o
    by_cases ho : o < pktNbiOffset.toNat + frameOff
    · rw [echoBuffer_before _ _ ho]
      exact echoBuffer_before _ _ ho
    · obtain ⟨k, rfl⟩ := Nat.exists_eq_add_of_le (Nat.le_of_not_lt ho)
      have hback := congrFun (echoBuffer_udp nbi_meta (echoPacket nbi_meta ctm).2 hproto) k
      refine hback.trans ?_
      change swapAddresses (frameOf (echoBuffer nbi_meta ctm)) k = _
      rw [hframe, swapAddresses_swapAddresses]
      rfl
  funext island pnum
  by_cases hpkt : island = nbi_meta.isl ∧ pnum = nbi_meta.pnum
  · obtain ⟨rfl, rfl⟩ := hpkt
    exact hself
  · have hne : island ≠ nbi_meta.isl ∨ pnum ≠ nbi_meta.pnum := not_and_or.mp hpkt
    rw [hother _ _ _ hne, hother _ _ _ hne]

/-- Of an ICMP frame the type is set too, in the byte where the overlay has it. -/
theorem echoBuffer_icmp
    (h : proto (frameOf (ctm nbi_meta.isl nbi_meta.pnum)) = netIpProtoIcmp) :
    frameOf (echoBuffer nbi_meta ctm) =
      (swapAddresses (frameOf (ctm nbi_meta.isl nbi_meta.pnum))).write 34
        netIcmpTypeEchoReply := by
  funext k
  rw [echoBuffer_frame]
  by_cases hk : k = 34
  · rw [if_pos ⟨h, hk⟩, hk, Mem.write_self]
  · rw [if_neg fun hc => hk hc.2, Mem.write_of_ne hk]

/-- The frame is answered as it should be exactly when it is sound. -/
theorem echoBuffer_iff (L : ℕ)
    (hproto : proto (frameOf (ctm nbi_meta.isl nbi_meta.pnum)) = netIpProtoUdp ∨
      proto (frameOf (ctm nbi_meta.isl nbi_meta.pnum)) = netIpProtoIcmp) :
    (∀ k < L, frameOf (echoBuffer nbi_meta ctm) k =
        echoFrame (frameOf (ctm nbi_meta.isl nbi_meta.pnum)) k) ↔
      EchoSound (frameOf (ctm nbi_meta.isl nbi_meta.pnum)) L := by
  by_cases hicmp : proto (frameOf (ctm nbi_meta.isl nbi_meta.pnum)) = netIpProtoIcmp
  · have hcode := echoBuffer_icmp nbi_meta ctm hicmp
    generalize frameOf (ctm nbi_meta.isl nbi_meta.pnum) = frame at hicmp hcode ⊢
    have hspec : echoFrame frame =
        (swapAddresses frame).write (icmpTypeAt frame) netIcmpTypeEchoReply := if_pos hicmp
    have hudp : proto frame ≠ netIpProtoUdp := by
      rw [hicmp]
      decide
    rw [hcode, hspec, EchoSound, or_iff_right hudp]
    by_cases hihl : ihl frame = 5
    · -- without options the overlay has the type where it is
      have hat : icmpTypeAt frame = 34 := by rw [icmpTypeAt, hihl]
      rw [hat]
      exact iff_of_true (fun _ _ => rfl) (.inl hihl)
    · -- the same byte is written in two places
      have hne : 34 ≠ icmpTypeAt frame := by
        unfold icmpTypeAt
        omega
      rw [or_iff_right hihl]
      exact Mem.write_agree_iff hne
  · have hudp := hproto.resolve_right hicmp
    rw [echoBuffer_udp nbi_meta ctm hudp, echoFrame, if_neg hicmp]
    exact iff_of_true (fun _ _ => rfl) (.inl hudp)

/-- An allowed packet becomes its answer, and nothing else changes, exactly when the ICMP type
is where the overlay has it, if it has to be set at all. -/
theorem echo_iff {packet_size : UInt32}
    (hallow : filterPackets packet_size (receivePacketWithHdrs nbi_meta ctm) = .allow) :
    EchoExact nbi_meta ctm ↔
      EchoSound (frameOf (ctm nbi_meta.isl nbi_meta.pnum)) packet_size.toNat := by
  obtain ⟨-, hproto, hlen⟩ := filterPackets_allow hallow
  have hiff := echoBuffer_iff nbi_meta ctm packet_size.toNat hproto
  have hL : frameLen nbi_meta = packet_size.toNat := congrArg UInt32.toNat hlen
  rw [← hiff, ← hL]
  refine ⟨fun h => h.frame, fun h => ⟨h, fun o ho => echoBuffer_before nbi_meta ctm ho, ?_, rfl,
    echoPacket_twice nbi_meta ctm⟩⟩
  intro island pnum hne
  exact writePacketHeader_of_ne ctm (modifyPacketHeader (receivePacketWithHdrs nbi_meta ctm)) hne

/-! ### Pings of 60 bytes -/

def pingMeta : PktInfo := ⟨32, 0, 68, 5⟩

/-- An echo request whose IPv4 header has a router alert, with the given first byte. -/
def pingCtm (versionIhl : UInt8) : Ctm := fun _ _ o =>
  if o = 72 + 12 then 0x08
  else if o = 72 + 14 then versionIhl
  else if o = 72 + 23 then netIpProtoIcmp
  else if o = 72 + 34 then 0x94
  else if o = 72 + 38 then 0x08
  else 0

theorem echo_iff_ping : EchoExact pingMeta (pingCtm 0x45) ↔
    EchoSound (frameOf (pingCtm 0x45 32 0)) (60 : UInt32).toNat :=
  echo_iff pingMeta (pingCtm 0x45) (by decide)

/-- With a header of 24 bytes the request stays a request, and an option is overwritten. -/
theorem ping_with_options_not_exact :
    filterPackets 60 (receivePacketWithHdrs pingMeta (pingCtm 0x46)) = .allow ∧
      ¬ EchoExact pingMeta (pingCtm 0x46) :=
  ⟨by decide, fun h => absurd (h.frame 38 (by decide)) (by decide)⟩

end NfpUdpEcho
