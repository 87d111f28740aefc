import NfpUdpEcho.Framework.Align
import NfpUdpEcho.Host.ZoneReserve

/-!
# The frames behind a zone

The device addresses a zone by one number, `iova`, and the host finds it by translating the first
page of the zone. Huge pages lie in physical memory one by one (`Frames`), so the number stands
for the whole zone only when its pages have consecutive frames (`contiguous_iff`).
-/

namespace NfpUdpEcho.MemZone

variable {s : ZoneState} {calls : ReserveCalls} {mem : Frames} {len : UInt64}

/-- Where the huge pages of the process lie: page `p` of the virtual memory in the frame at
`frame p`. -/
structure Frames where
  frame : ℕ → ℕ
  dvd : ∀ page, 2 ^ 21 ∣ frame page
  lt : ∀ page, frame page < 2 ^ 64

/-- The physical address of a virtual one. -/
def Frames.phys (mem : Frames) (virtaddr : ℕ) : ℕ :=
  mem.frame (virtaddr / 2 ^ 21) + virtaddr % 2 ^ 21

/-- The pages of a mapping have consecutive frames. -/
def Frames.Consecutive (mem : Frames) (addr len : ℕ) : Prop :=
  ∀ k, k * 2 ^ 21 < len → mem.frame (addr / 2 ^ 21 + k) = mem.frame (addr / 2 ^ 21) + k * 2 ^ 21

/-- `mmap` of a file of huge pages returns whole pages of them, and the pagemap says where they
lie. A mapping of no bytes is refused. -/
structure ReserveCalls.Backed (calls : ReserveCalls) (mem : Frames) (len : UInt64) : Prop where
  nonempty : calls.mmap 0 = none
  huge : ∀ addr, calls.mmap (alignCeil len hugePageSize) = some addr → addr.toNat % 2 ^ 21 = 0
  reported : ∀ addr, calls.mmap (alignCeil len hugePageSize) = some addr →
    ∀ virtaddr : UInt64, addr.toNat ≤ virtaddr.toNat →
      virtaddr.toNat < addr.toNat + (alignCeil len hugePageSize).toNat →
      ∀ page, pagemapEntry calls virtaddr = some page →
        (page &&& pfnMask).toNat = mem.phys virtaddr.toNat / 4096

/-- The device finds every byte of the zone where it expects it. -/
structure Frames.Contiguous (mem : Frames) (len : UInt64) (zone : Memzone) : Prop where
  le : len ≤ zone.len
  dvd : 2 ^ 21 ∣ zone.len.toNat
  phys : ∀ k < zone.len.toNat, mem.phys (zone.addr.toNat + k) = zone.iova.toNat + k

/-! ### Pages and bytes -/

/-- The bytes of a mapping are at consecutive addresses when its pages are. -/
theorem phys_add_iff (mem : Frames) {addr : ℕ} (len : ℕ) (haddr : addr % 2 ^ 21 = 0) :
    (∀ k < len, mem.phys (addr + k) = mem.frame (addr / 2 ^ 21) + k) ↔
      mem.Consecutive addr len := by
  constructor
  · intro h k hk
    -- the first byte of a page is where its frame is
    have hphys := h (k * 2 ^ 21) hk
    rwa [Frames.phys, show (addr + k * 2 ^ 21) / 2 ^ 21 = addr / 2 ^ 21 + k by omega,
      show (addr + k * 2 ^ 21) % 2 ^ 21 = 0 by omega, add_zero] at hphys
  · intro h k hk
    -- any other is as far into the frame as into its page
    have hframe := h (k / 2 ^ 21) (by omega)
    rw [Frames.phys, show (addr + k) / 2 ^ 21 = addr / 2 ^ 21 + k / 2 ^ 21 by omega, hframe]
    omega

theorem le_alignCeil (hne : alignCeil len hugePageSize ≠ 0) :
    len ≤ alignCeil len hugePageSize :=
  Align.le_ceil (k := 21) (by decide) (by decide) hne

theorem dvd_alignCeil (len : UInt64) : 2 ^ 21 ∣ (alignCeil len hugePageSize).toNat := by
  unfold alignCeil alignFloor
  rw [Align.toNat_floor (k := 21) (by decide)]
  exact Nat.dvd_mul_left _ _

/-- **The zone's address for the device** is that of its first frame. -/
theorem iova_eq {addr page : UInt64} (hb : calls.Backed mem len)
    (hmmap : calls.mmap (alignCeil len hugePageSize) = some addr)
    (hpage : pagemapEntry calls addr = some page) :
    ((page &&& pfnMask) * pageSize + addr % pageSize).toNat = mem.frame (addr.toNat / 2 ^ 21) := by
  have haddr := hb.huge addr hmmap
  -- `mmap` would have refused a length of zero, so there is a first byte to ask for
  have hpos : (alignCeil len hugePageSize).toNat ≠ 0 := by
    intro hzero
    have hceil : alignCeil len hugePageSize = 0 := UInt64.toNat_inj.mp hzero
    rw [hceil, hb.nonempty] at hmmap
    cases hmmap
  have hpfn := hb.reported addr hmmap addr le_rfl (by omega) page hpage
  rw [Frames.phys, haddr, add_zero] at hpfn
  -- neither the product nor the sum wraps, and the frame is a multiple of the small page
  have hlt := mem.lt (addr.toNat / 2 ^ 21)
  have hdvd := Nat.mod_eq_zero_of_dvd (mem.dvd (addr.toNat / 2 ^ 21))
  rw [UInt64.toNat_add, UInt64.toNat_mul, UInt64.toNat_mod, hpfn,
    show pageSize.toNat = 4096 from by decide]
  omega

/-! ### Zones -/

/-- What a reservation returns is the mapping, with the address of its first frame. -/
theorem memzoneReserve_zone {i : Fin maxMemzones} (hp : calls.Possible len s)
    (hb : calls.Backed mem len) (hret : (memzoneReserve calls len s).1 = some i) :
    ∃ addr, calls.mmap (alignCeil len hugePageSize) = some addr ∧
      ((memzoneReserve calls len s).2.mz i).addr = addr ∧
      ((memzoneReserve calls len s).2.mz i).len = alignCeil len hugePageSize ∧
      ((memzoneReserve calls len s).2.mz i).iova.toNat = mem.frame (addr.toNat / 2 ^ 21) := by
  -- the call was refused, or it lost its mapping, or it made the zone
  obtain ⟨-, hres⟩ | ⟨_, -, -, hres⟩ | ⟨j, addr, page, -, -, -, hmmap, hpage, -, hres⟩ :=
    memzoneReserve_cases hp
  · rw [hres] at hret
    cases hret
  · rw [hres] at hret
    cases hret
  rw [hres] at hret ⊢
  cases hret
  have hself := setZone_self (s.map addr (alignCeil len hugePageSize)) i
    ⟨(page &&& pfnMask) * pageSize + addr % pageSize, addr, alignCeil len hugePageSize, 0,
      UInt16.ofNat i⟩
  dsimp only
  rw [hself]
  exact ⟨addr, hmmap, rfl, rfl, iova_eq hb hmmap hpage⟩

/-- **Zones for the device.** A zone is physically contiguous exactly when the pages behind it
have consecutive frames. -/
theorem contiguous_iff (calls : ReserveCalls) (mem : Frames) (len : UInt64) (s : ZoneState)
    (hp : calls.Possible len s) (hb : calls.Backed mem len) (i : Fin maxMemzones)
    (hret : (memzoneReserve calls len s).1 = some i) :
    mem.Contiguous len ((memzoneReserve calls len s).2.mz i) ↔
      ∀ addr, calls.mmap (alignCeil len hugePageSize) = some addr →
        mem.Consecutive addr.toNat (alignCeil len hugePageSize).toNat := by
  obtain ⟨addr, hmmap, haddr, hlen, hiova⟩ := memzoneReserve_zone hp hb hret
  have hbytes := phys_add_iff mem (alignCeil len hugePageSize).toNat (hb.huge addr hmmap)
  constructor
  · -- the mapping is the one that the zone was made of
    intro h addr' hmmap'
    rw [hmmap] at hmmap'
    cases hmmap'
    have hphys := h.phys
    rw [haddr, hlen, hiova] at hphys
    exact hbytes.mp hphys
  · intro h
    refine ⟨?_, ?_, ?_⟩
    · rw [hlen]
      -- rounding up does not wrap: a mapping of no bytes is refused
      refine le_alignCeil fun hzero => ?_
      rw [hzero, hb.nonempty] at hmmap
      cases hmmap
    · rw [hlen]
      exact dvd_alignCeil len
    · rw [haddr, hlen, hiova]
      exact hbytes.mpr (h addr hmmap)

/-! ### Two placements -/

/-- The pagemap of some frames. -/
def Frames.entry (mem : Frames) (offset : UInt64) : List UInt8 :=
  LittleEndian.u64Bytes (UInt64.ofNat (mem.phys (offset.toNat / 8 * 4096) / 4096))

theorem Frames.pagemapEntry_entry (mem : Frames) {addr virtaddr page : UInt64}
    (h : pagemapEntry (callsAt addr mem.entry) virtaddr = some page) :
    (page &&& pfnMask).toNat = mem.phys virtaddr.toNat / 4096 := by
  -- the entry asked for is that of the small page
  have hoffset : (8 * (virtaddr / pageSize)).toNat / 8 * 4096 = virtaddr.toNat / 4096 * 4096 := by
    have hlt := virtaddr.toNat_lt
    rw [UInt64.toNat_mul, UInt64.toNat_div, show pageSize.toNat = 4096 from by decide,
      show (8 : UInt64).toNat = 8 from rfl]
    omega
  have hframe := Nat.mod_eq_zero_of_dvd (mem.dvd (virtaddr.toNat / 2 ^ 21))
  have hlt := mem.lt (virtaddr.toNat / 2 ^ 21)
  -- which lies in the same frame as the byte
  have hphys : mem.phys (virtaddr.toNat / 4096 * 4096) / 4096 = mem.phys virtaddr.toNat / 4096 := by
    rw [Frames.phys, Frames.phys,
      show virtaddr.toNat / 4096 * 4096 / 2 ^ 21 = virtaddr.toNat / 2 ^ 21 by omega]
    omega
  have hpage : page = UInt64.ofNat (mem.phys virtaddr.toNat / 4096) := by
    rw [← hphys, ← hoffset]
    simpa [pagemapEntry, callsAt, Frames.entry] using h.symm
  -- the mask cuts nothing off
  have hsmall : mem.phys virtaddr.toNat / 4096 < 2 ^ 52 := by
    rw [Frames.phys]
    omega
  rw [hpage, UInt64.toNat_and, UInt64.toNat_ofNat', show pfnMask.toNat = 2 ^ 55 - 1 from by decide,
    Nat.and_two_pow_sub_one_eq_mod]
  omega

theorem callsAt_backed (mem : Frames) (addr : UInt64) (haddr : addr.toNat % 2 ^ 21 = 0)
    (len : UInt64) : (callsAt addr mem.entry).Backed mem len where
  nonempty := rfl
  huge addr' hmmap := by
    rw [callsAt_mmap hmmap]
    exact haddr
  reported _ _ _ _ _ _ hpage := mem.pagemapEntry_entry hpage

/-- Frames in the order of the pages. -/
def ascending : Frames where
  frame page := page % 2 ^ 40 * 2 ^ 21
  dvd _ := Nat.dvd_mul_left _ _
  lt page := by
    have hlt := Nat.mod_lt page (Nat.two_pow_pos 40)
    omega

/-- Frames the other way, as they come off a list of free ones. -/
def descending : Frames where
  frame page := (100 - page) * 2 ^ 21
  dvd _ := Nat.dvd_mul_left _ _
  lt page := by omega

/-- Two huge pages are reserved. -/
theorem memzoneReserve_callsAt (mem : Frames) (hframe : mem.frame 1 ≠ 0) :
    ∃ i, (memzoneReserve (callsAt 0x200000 mem.entry) 0x200001 noZones).1 = some i := by
  have hp := callsAt_possible 0x200000 (by decide) mem.entry 0x200001
  obtain ⟨hno, -⟩ | ⟨_, ⟨-, -, -, -, addr, hmmap, hlost⟩, -, -⟩ |
    ⟨i, _, _, -, -, -, -, -, -, hres⟩ := memzoneReserve_cases hp
  · -- the call is not refused: there are slots, and the file can be opened and mapped
    obtain ⟨i, hfirst⟩ := firstFree_noZones
    rcases hno with hzero | hnone | ⟨_, -, hnofile⟩ | hnomem
    · exact absurd hzero (by decide)
    · rw [hfirst] at hnone
      cases hnone
    · cases hnofile
    · rw [callsAt, show alignCeil 0x200001 hugePageSize = 0x400000 from by decide] at hnomem
      cases hnomem
  · -- nor is the mapping lost: its frame has another number than zero
    rw [callsAt_mmap hmmap] at hlost
    rcases hlost with hnone | hzero
    · cases hnone
    · have hentry : ∃ page, pagemapEntry (callsAt 0x200000 mem.entry) 0x200000 = some page := by
        simp [pagemapEntry, callsAt, Frames.entry]
      obtain ⟨page, hpage⟩ := hentry
      have hpfn := mem.pagemapEntry_entry hpage
      rw [hzero page hpage] at hpfn
      have hdvd := Nat.mod_eq_zero_of_dvd (mem.dvd 1)
      change 0 = (mem.frame 1 + 0) / 4096 at hpfn
      omega
  · exact ⟨i, congrArg Prod.fst hres⟩

theorem contiguous_ascending : ∃ i,
    (memzoneReserve (callsAt 0x200000 ascending.entry) 0x200001 noZones).1 = some i ∧
    ascending.Contiguous 0x200001
      ((memzoneReserve (callsAt 0x200000 ascending.entry) 0x200001 noZones).2.mz i) := by
  obtain ⟨i, hret⟩ := memzoneReserve_callsAt ascending (by decide)
  refine ⟨i, hret, (contiguous_iff _ ascending 0x200001 noZones
    (callsAt_possible 0x200000 (by decide) _ _) (callsAt_backed _ _ (by decide) _) i hret).mpr ?_⟩
  intro addr hmmap k hk
  rw [callsAt_mmap hmmap, show (alignCeil 0x200001 hugePageSize).toNat = 2 ^ 22 from by decide]
    at *
  change (1 + k) % 2 ^ 40 * 2 ^ 21 = 1 % 2 ^ 40 * 2 ^ 21 + k * 2 ^ 21
  omega

/-- The second page of the zone lies below the first. -/
theorem contiguous_false : ¬∀ (calls : ReserveCalls) (mem : Frames) (len : UInt64) (s : ZoneState),
    calls.Possible len s → calls.Backed mem len →
      ∀ i, (memzoneReserve calls len s).1 = some i →
        mem.Contiguous len ((memzoneReserve calls len s).2.mz i) := by
  intro hall
  have hp := callsAt_possible 0x200000 (by decide) descending.entry 0x200001
  have hb := callsAt_backed descending 0x200000 (by decide) 0x200001
  obtain ⟨i, hret⟩ := memzoneReserve_callsAt descending (by decide)
  have hzone := hall _ _ _ _ hp hb i hret
  obtain ⟨addr, hmmap, haddr, hlen, hiova⟩ := memzoneReserve_zone hp hb hret
  -- the first byte of the second page
  have hphys := hzone.phys (2 ^ 21)
  rw [haddr, hlen, hiova, callsAt_mmap hmmap] at hphys
  exact absurd (hphys (by decide)) (by decide)

end NfpUdpEcho.MemZone
