import NfpUdpEcho.Host.PciAddr

/-!
# Addresses survive the text

An address is read back from what is printed for it, and the name of a directory is printed again
from the address read from it (`pciText_ok`). The function of a device is printed in base 16 and
read in base 10, which are the same for one digit; a name with a longer numeral for the function,
or with a domain of more than 32 bits, is not rebuilt (`pciPriFmt_eq_iff`).

A name of the kernel is four numerals with fixed separators. Reading it takes the numerals apart at
the separators and converts them one by one; printing puts numerals of fixed widths together again.
Separators are no digits, so two names are the same text exactly if their numerals are
(`pciFields_inj`), and what is left is one question about each numeral: whether printing its value
gives back its digits. Where a buffer is too short, `snprintf` cuts the text off, so every path is
shown to fit first.
-/

namespace NfpUdpEcho.Pci

open Numeral

variable {D B V F : List ℕ} {addr : RtePciAddr} {bufsize : ℕ}

/-- The name of a directory: a domain of at least four digits, without leading zeros but to fill
these, a bus and a device of two, and a decimal function. -/
structure KernelName (D B V F : List ℕ) : Prop where
  domain : Digits 16 D
  domain_length : 4 ≤ D.length
  domain_head : 4 < D.length → D.head? ≠ some 0
  bus : Digits 16 B
  bus_length : B.length = 2
  devid : Digits 16 V
  devid_length : V.length = 2
  function : Digits 10 F
  function_head : 1 < F.length → F.head? ≠ some 0

/-- A name that the kernel gives to a device: its domain has 32 bits and its function is one of
eight. -/
def KernelForm (name : List Char) : Prop :=
  ∃ D B V F, KernelName D B V F ∧ value 16 D < 2 ^ 32 ∧ value 10 F ≤ 7 ∧ name = pciFields D B V F

/-- The files that identify a device. -/
def idFiles : List String :=
  ["/vendor", "/device", "/subsystem_vendor", "/subsystem_device", "/class"]

/-- The files of the directory `name` can be read. -/
structure Readable (sys : Sysfs) (name : List Char) : Prop where
  value : ∀ file ∈ idFiles, (sys.value (devicePath name ++ file.toList)).isSome
  resource : (sys.resource (devicePath name ++ "/resource".toList)).isSome

/-- The path pieces made from an address are those of the directory `name`. -/
structure Rebuilt (sys : Sysfs) (name : List Char) (addr : RtePciAddr) : Prop where
  device : ∀ dev, pciSetupDevice true sys (snprintf pathMax (devicePath name)) addr = some dev →
    dev.addr = addr ∧ dev.name = name
  /-- The device is there when the files of the directory can be read. -/
  setup : Readable sys name →
    ∃ dev, pciSetupDevice true sys (snprintf pathMax (devicePath name)) addr = some dev ∧
      dev.addr = addr ∧ dev.name = name
  uio : ∀ opendir, pciGetDeviceDir opendir addr =
    if opendir (devicePath name ++ "/uio".toList) then some (devicePath name ++ "/uio".toList)
    else if opendir (devicePath name) then some (devicePath name) else none
  resource : ∀ i, pciMapDeviceFile addr i =
    devicePath name ++ ("/resource".toList ++ text (padded 1 10 i))

/-! ### Numerals

A printed numeral is one that the parser reads. -/

/-- A numeral that is printed has only digits, and at least one. -/
theorem digits_padded {w b n : ℕ} (hb : 1 < b) (hw : 0 < w) : Digits b (padded w b n) where
  ne_nil h := by
    have hlen := length_padded w b n
    rw [h, List.length_nil] at hlen
    omega
  lt := padded_lt hb

/-- One digit is printed for a number below the base. -/
theorem padded_one {b n : ℕ} (hb : 1 < b) (hn : n < b) : padded 1 b n = [n] := by
  have hds : ∀ d ∈ [n], d < b := fun d hd => List.mem_singleton.mp hd ▸ hn
  have hpad := padded_value (w := 1) hb hds le_rfl fun h => absurd h (lt_irrefl 1)
  rwa [value, List.reverse_singleton, Nat.ofDigits_singleton] at hpad

/-- The width of a number that is bounded. -/
theorem length_padded_le {w b n k : ℕ} (hb : 1 < b) (hw : w ≤ k) (hn : n < b ^ k) :
    (padded w b n).length ≤ k := by
  rw [length_padded]
  exact max_le hw ((Nat.digits_length_le_iff hb n).mpr hn)

/-! ### The round trip of an address -/

/-- **An address is read back from its text.** -/
theorem parse_pciPriFmt (hfunction : addr.function.toNat < 10)
    (hlen : (pciPriFmt addr).length ≤ bufsize) :
    parsePciAddrFormat true (pciPriFmt addr) bufsize = some addr := by
  -- one digit is the same in base 16 and in base 10
  have hone := padded_one (b := 16) (by decide) (hfunction.trans (by decide))
  have hdec := padded_one (b := 10) (by decide) hfunction
  have hF : Digits 10 (padded 1 16 addr.function.toNat) := by
    rw [hone, ← hdec]
    exact digits_padded (by decide) (by decide)
  have hvalue : value 10 (padded 1 16 addr.function.toNat) = addr.function.toNat := by
    rw [hone, ← hdec, value_padded]
  rw [pciPriFmt, parsePciAddrFormat_fields (digits_padded (by decide) (by decide))
    (digits_padded (by decide) (by decide)) (digits_padded (by decide) (by decide)) hF hlen,
    value_padded, value_padded, value_padded, hvalue, UInt32.ofNat_toNat, UInt8.ofNat_toNat,
    UInt8.ofNat_toNat, UInt8.ofNat_toNat, if_neg]
  have hdomain := addr.domain.toNat_lt
  have hbus := addr.bus.toNat_lt
  have hdevid := addr.devid.toNat_lt
  omega

/-! ### The names of directories -/

/-- The part before the first separator, and the part behind it. -/
theorem separator_inj {c : Char} {seg seg' rest rest' : List Char} (hseg : c ∉ seg)
    (hseg' : c ∉ seg') (h : seg ++ c :: rest = seg' ++ c :: rest') : seg = seg' ∧ rest = rest' := by
  -- the separators are at the same index
  have hidx := congrArg (List.idxOf? c) h
  rw [idxOf?_append_cons hseg, idxOf?_append_cons hseg'] at hidx
  obtain ⟨hfirst, hsecond⟩ := List.append_inj h (Option.some.inj hidx)
  exact ⟨hfirst, (List.cons.inj hsecond).2⟩

/-- A text has one reading as four numerals. -/
theorem pciFields_inj {D' B' V' F' : List ℕ} (hD : Digits 16 D) (hB : Digits 16 B)
    (hV : Digits 16 V) (hF : Digits 16 F) (hD' : Digits 16 D') (hB' : Digits 16 B')
    (hV' : Digits 16 V') (hF' : Digits 16 F') (h : pciFields D B V F = pciFields D' B' V' F') :
    D = D' ∧ B = B' ∧ V = V' ∧ F = F' := by
  -- no numeral holds a separator, so the text is cut where it was put together
  have hcolon {ds : List ℕ} (hds : Digits 16 ds) := hds.not_separator (c := ':') (by decide)
  have hdot {ds : List ℕ} (hds : Digits 16 ds) := hds.not_separator (c := '.') (by decide)
  have htext {ds ds' : List ℕ} (hds : Digits 16 ds) (hds' : Digits 16 ds')
      (heq : text ds = text ds') : ds = ds' := by
    rw [← leading_text le_rfl hds.lt, heq, leading_text le_rfl hds'.lt]
  obtain ⟨hdomain, h⟩ := separator_inj (hcolon hD) (hcolon hD') h
  obtain ⟨hbus, h⟩ := separator_inj (hcolon hB) (hcolon hB') h
  obtain ⟨hdevid, h⟩ := separator_inj (hdot hV) (hdot hV') h
  exact ⟨htext hD hD' hdomain, htext hB hB' hbus, htext hV hV' hdevid, htext hF hF' h⟩

/-- A function of one digit. -/
theorem KernelName.function_eq (h : KernelName D B V F) (hfunction : value 10 F < 10) :
    F = [value 10 F] := by
  rw [← padded_one (by decide) hfunction]
  exact (padded_value (by decide) h.function.lt
    (Nat.pos_of_ne_zero fun hzero => h.function.ne_nil (List.length_eq_zero_iff.mp hzero))
    h.function_head).symm

/-- A domain of 32 bits. -/
theorem KernelName.domain_eq (h : KernelName D B V F) : padded 4 16 (value 16 D) = D :=
  padded_value (by decide) h.domain.lt h.domain_length h.domain_head

/-- Two digits fit into a byte. -/
theorem value_lt_byte {ds : List ℕ} (h : Digits 16 ds) (hlen : ds.length = 2) :
    value 16 ds < 2 ^ 8 := by
  have hlt := value_lt (by decide) h.lt
  rwa [hlen] at hlt

/-- The names of the kernel fit into a directory entry. -/
theorem KernelName.length_le (h : KernelName D B V F) (hdomain : value 16 D < 2 ^ 32)
    (hfunction : value 10 F < 10) : (pciFields D B V F).length ≤ 256 := by
  have hlong : D.length ≤ 8 := by
    rw [← h.domain_eq]
    exact length_padded_le (by decide) (by decide) hdomain
  have hone : F.length = 1 := congrArg List.length (h.function_eq hfunction)
  simp only [pciFields, text, List.length_append, List.length_cons, List.length_map, h.bus_length,
    h.devid_length, hone]
  omega

/-- **Names that are rebuilt.** What is printed for the address read from a name is the name
exactly when the domain has 32 bits and the function one digit. -/
theorem pciPriFmt_eq_iff (h : KernelName D B V F)
    (hlen : (pciFields D B V F).length ≤ bufsize)
    (hparse : parsePciAddrFormat true (pciFields D B V F) bufsize = some addr) :
    pciPriFmt addr = pciFields D B V F ↔ value 16 D < 2 ^ 32 ∧ value 10 F < 10 := by
  rw [parsePciAddrFormat_fields h.domain h.bus h.devid h.function hlen] at hparse
  obtain ⟨-, haddr⟩ := Option.ite_none_left_eq_some.mp hparse
  obtain rfl := Option.some.inj haddr
  rw [pciPriFmt, UInt32.toNat_ofNat', UInt8.toNat_ofNat', UInt8.toNat_ofNat', UInt8.toNat_ofNat',
    Nat.mod_eq_of_lt (value_lt_byte h.bus h.bus_length),
    Nat.mod_eq_of_lt (value_lt_byte h.devid h.devid_length)]
  constructor
  · intro heq
    obtain ⟨hD, -, -, hF⟩ := pciFields_inj (digits_padded (by decide) (by decide))
      (digits_padded (by decide) (by decide)) (digits_padded (by decide) (by decide))
      (digits_padded (by decide) (by decide)) h.domain h.bus h.devid (h.function.mono (by decide))
      heq
    constructor
    · -- a domain that was cut is another number
      have hvalue := congrArg (value 16) hD
      rw [value_padded] at hvalue
      omega
    · -- a numeral of more digits is larger in base 16
      have hvalue := congrArg (value 16) hF
      rw [value_padded] at hvalue
      have hshort : ¬1 < F.length := fun hlong => by
        have hlt := value_lt_value (b := 10) (show 10 < 16 by decide) hlong (h.function_head hlong)
        omega
      have hlt := value_lt (by decide) h.function.lt
      exact hlt.trans_le (Nat.pow_le_pow_right (by decide) (not_lt.mp hshort))
  · -- nothing is cut, and the widths are those of the name
    rintro ⟨hdomain, hfunction⟩
    rw [Nat.mod_eq_of_lt hdomain, Nat.mod_eq_of_lt (hfunction.trans (by decide)), h.domain_eq,
      padded_value (by decide) h.bus.lt h.bus_length.ge fun hlt =>
        absurd h.bus_length hlt.ne',
      padded_value (by decide) h.devid.lt h.devid_length.ge fun hlt =>
        absurd h.devid_length hlt.ne',
      padded_one (by decide) (hfunction.trans (by decide)), ← h.function_eq hfunction]

/-! ### Paths

A path of sysfs is a directory and a name of at most seventeen characters, far below the limit. -/

/-- A domain of 32 bits takes eight digits at most. -/
theorem length_pciPriFmt_le (addr : RtePciAddr) : (pciPriFmt addr).length ≤ 17 := by
  have hdomain := length_padded_le (w := 4) (b := 16) (k := 8) (by decide) (by decide)
    addr.domain.toNat_lt
  have hbyte {w : ℕ} (hw : w ≤ 2) (n : UInt8) : (padded w 16 n.toNat).length ≤ 2 :=
    length_padded_le (by decide) hw n.toNat_lt
  have hbus := hbyte (w := 2) le_rfl addr.bus
  have hdevid := hbyte (w := 2) le_rfl addr.devid
  have hfunction := hbyte (w := 1) (by decide) addr.function
  rw [pciPriFmt, pciFields]
  simp only [text, List.length_append, List.length_cons, List.length_map]
  omega

/-- The path of a device's file is not cut off. -/
theorem devicePath_fits {name rest : List Char} (h : name.length + rest.length ≤ 4074) :
    snprintf pathMax (devicePath name ++ rest) = devicePath name ++ rest := by
  -- the path and the name stay below the limit of `snprintf`
  have hroot : sysfsDevices.length = 20 := by decide
  refine snprintf_fits ?_
  rw [devicePath, List.length_append, List.length_append, List.length_cons, hroot]
  unfold pathMax
  omega

/-- The device that is set up has the address it was given, and its name is printed from that. -/
theorem pciSetupDevice_some {malloc : Bool} {sys : Sysfs} {dirname : List Char}
    {dev : RtePciDevice} (h : pciSetupDevice malloc sys dirname addr = some dev) :
    dev.addr = addr ∧ dev.name = snprintf pciNameSize (pciPriFmt addr) := by
  rw [pciSetupDevice] at h
  obtain ⟨-, h⟩ := Option.ite_none_right_eq_some.mp h
  simp only [Option.bind_eq_bind, Option.bind_eq_some_iff, Option.pure_def] at h
  -- every file could be read
  obtain ⟨_, -, _, -, _, -, _, -, _, -, _, -, ⟨⟩⟩ := h
  exact ⟨rfl, rfl⟩

/-- With every file readable and memory for it the device is set up. -/
theorem pciSetupDevice_isSome {sys : Sysfs} {dirname : List Char}
    (hvalue : ∀ file ∈ idFiles, (sys.value (snprintf pathMax (dirname ++ file.toList))).isSome)
    (hresource : (sys.resource (snprintf pathMax (dirname ++ "/resource".toList))).isSome) :
    (pciSetupDevice true sys dirname addr).isSome := by
  have hread (file : String) (hfile : file ∈ idFiles) :
      ∃ v, sys.value (snprintf pathMax (dirname ++ file.toList)) = some v :=
    Option.isSome_iff_exists.mp (hvalue file hfile)
  obtain ⟨vendor, hvendor⟩ := hread "/vendor" (by decide)
  obtain ⟨device, hdevice⟩ := hread "/device" (by decide)
  obtain ⟨subVendor, hsubVendor⟩ := hread "/subsystem_vendor" (by decide)
  obtain ⟨subDevice, hsubDevice⟩ := hread "/subsystem_device" (by decide)
  obtain ⟨cls, hcls⟩ := hread "/class" (by decide)
  obtain ⟨resource, hresource⟩ := Option.isSome_iff_exists.mp hresource
  rw [pciSetupDevice, if_pos rfl]
  simp only [hvendor, hdevice, hsubVendor, hsubDevice, hcls, hresource, Option.bind_eq_bind,
    Option.bind_some, Option.pure_def, Option.isSome_some]

/-- The paths are those of the directory whose name is the text of the address. -/
theorem rebuilt_pciPriFmt (sys : Sysfs) (addr : RtePciAddr) :
    Rebuilt sys (pciPriFmt addr) addr := by
  have hname := length_pciPriFmt_le addr
  have hfits (rest : List Char) (hrest : rest.length ≤ 4057) :
      snprintf pathMax (devicePath (pciPriFmt addr) ++ rest) =
        devicePath (pciPriFmt addr) ++ rest := devicePath_fits (by omega)
  have hdir := hfits [] (by decide)
  rw [List.append_nil] at hdir
  have hdevice : ∀ dev, pciSetupDevice true sys (snprintf pathMax (devicePath (pciPriFmt addr)))
      addr = some dev → dev.addr = addr ∧ dev.name = pciPriFmt addr := by
    intro dev hdev
    obtain ⟨haddr, hdevname⟩ := pciSetupDevice_some hdev
    exact ⟨haddr, hdevname.trans (snprintf_fits (Nat.lt_succ_of_le hname))⟩
  refine ⟨hdevice, fun hread => ?_, fun opendir => ?_, fun i => ?_⟩
  · -- no path of the files is cut
    have hsome : (pciSetupDevice true sys (snprintf pathMax (devicePath (pciPriFmt addr)))
        addr).isSome := by
      rw [hdir]
      refine pciSetupDevice_isSome (fun file hfile => ?_) ?_
      · have hshort : ∀ file ∈ idFiles, file.toList.length ≤ 4057 := by decide
        rw [hfits _ (hshort file hfile)]
        exact hread.value file hfile
      · rw [hfits _ (by decide)]
        exact hread.resource
    obtain ⟨dev, hdev⟩ := Option.isSome_iff_exists.mp hsome
    exact ⟨dev, hdev, hdevice dev hdev⟩
  · -- the directory, or its parent when that cannot be opened
    rw [pciGetDeviceDir, hfits _ (by decide), hdir]
  · have hdigits := length_padded_le (w := 1) (b := 10) (k := 1) (by decide) le_rfl
      (i.isLt.trans (by decide))
    have hfile : ("/resource".toList ++ text (padded 1 10 i)).length =
        9 + (text (padded 1 10 i)).length := List.length_append
    have htext : (text (padded 1 10 i)).length = (padded 1 10 i).length := List.length_map _
    refine hfits _ ?_
    rw [hfile, htext]
    omega

/-- The directory that the scan stops at is one whose name was parsed. -/
theorem pciScanMatch_some {malloc : Bool} {sys : Sysfs} {names : List (List Char)}
    {name : List Char} (h : pciScanMatch malloc sys names = some (name, addr)) :
    name ∈ names ∧ malloc = true ∧ parsePciAddrFormat true name 256 = some addr := by
  induction names with
  | nil => cases h
  | cons entry names ih =>
    have hlater (hrest : pciScanMatch malloc sys names = some (name, addr)) :=
      (ih hrest).imp_left (List.mem_cons_of_mem entry)
    rw [pciScanMatch] at h
    split at h
    · exact hlater h
    · cases hparse : parsePciAddrFormat malloc entry 256 with
      | none =>
        rw [hparse] at h
        exact hlater h
      -- the name was parsed: the loop stops here for the right vendor and device
      | some addr' =>
        rw [hparse] at h
        dsimp only at h
        split at h
        · split at h
          · cases h
            have hmalloc : malloc = true := by
              rw [parsePciAddrFormat] at hparse
              exact (Option.ite_none_right_eq_some.mp hparse).1
            rw [hmalloc] at hparse
            exact ⟨List.mem_cons_self, hmalloc, hparse⟩
          · exact hlater h
        · exact hlater h

/-- **Addresses of PCI devices** survive the text: an address is read back from what is printed
for it, and the paths made for the device that the scan has found are those of the directory it
was found in. -/
theorem pciText_ok :
    (∀ addr bufsize, addr.function ≤ 7 → (pciPriFmt addr).length ≤ bufsize →
      parsePciAddrFormat true (pciPriFmt addr) bufsize = some addr) ∧
    ∀ malloc sys names name addr, pciScanMatch malloc sys names = some (name, addr) →
      KernelForm name → Rebuilt sys name addr := by
  constructor
  · intro addr bufsize hfunction hlen
    have hle : addr.function.toNat ≤ 7 := UInt8.le_iff_toNat_le.mp hfunction
    exact parse_pciPriFmt (by omega) hlen
  · rintro malloc sys names name addr hscan ⟨D, B, V, F, hname, hdomain, hfunction, rfl⟩
    obtain ⟨-, -, hparse⟩ := pciScanMatch_some hscan
    have hlen := hname.length_le hdomain (show value 10 F < 10 by omega)
    have heq := (pciPriFmt_eq_iff hname hlen hparse).mpr ⟨hdomain, by omega⟩
    rw [← heq]
    exact rebuilt_pciPriFmt sys addr

/-- Files of sysfs that all but the vendor's hold the identifier of the card. -/
def cardSysfs : Sysfs where
  access _ := false
  value path := if 'n' ∈ path then some 0x19ee else some 0x4000
  resource _ := some fun _ => ⟨0, 0, 0⟩

theorem pciText_ok_card :
    parsePciAddrFormat true (pciPriFmt ⟨0, 3, 0, 0⟩) 256 = some ⟨0, 3, 0, 0⟩ ∧
    Rebuilt cardSysfs "0000:03:00.0".toList ⟨0, 3, 0, 0⟩ ∧
    ∃ dev, pciSetupDevice true cardSysfs (snprintf pathMax (devicePath "0000:03:00.0".toList))
      ⟨0, 3, 0, 0⟩ = some dev ∧ dev.name = "0000:03:00.0".toList := by
  have hlen := (length_pciPriFmt_le ⟨0, 3, 0, 0⟩).trans (show 17 ≤ 256 by decide)
  have hname : KernelName [0, 0, 0, 0] [0, 3] [0, 0] [0] :=
    ⟨⟨by decide, by decide⟩, by decide, by decide, ⟨by decide, by decide⟩, rfl,
      ⟨by decide, by decide⟩, rfl, ⟨by decide, by decide⟩, by decide⟩
  have hscan : pciScanMatch true cardSysfs ["0000:03:00.0".toList] =
      some ("0000:03:00.0".toList, ⟨0, 3, 0, 0⟩) := by
    decide +kernel
  have hrebuilt := pciText_ok.2 _ _ _ _ _ hscan ⟨_, _, _, _, hname, by decide, by decide, rfl⟩
  obtain ⟨dev, hdev, -, hdevname⟩ := hrebuilt.setup ⟨by decide +kernel, rfl⟩
  exact ⟨pciText_ok.1 _ 256 (by decide) hlen, hrebuilt, dev, hdev, hdevname⟩

end NfpUdpEcho.Pci
