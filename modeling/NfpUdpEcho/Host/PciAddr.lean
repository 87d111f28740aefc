import NfpUdpEcho.Framework.Numerals

/-!
# Addresses of PCI devices

`pci_scan` (`user/lib/driver.c`) finds the device by the name of its directory in sysfs, from
which `parse_pci_addr_format` reads the four numbers of its address. The functions that work with
the device later print the address again (`PCI_PRI_FMT`) to name the directory and the files in
it.

A string is split in place: the copy is a buffer with its final NUL, the tokens are indices
into it, and a separator is overwritten with NUL.
-/

namespace NfpUdpEcho.Pci

open Numeral

/-- `struct rte_pci_addr`. -/
structure RtePciAddr where
  domain : UInt32
  bus : UInt8
  devid : UInt8
  function : UInt8
  deriving DecidableEq

def nul : Char := '\x00'

/-- `PCI_FMT_NVAL`. -/
def pciFmtNval : ℕ := 4

/-- `snprintf` into an array of `size` bytes. -/
def snprintf (size : ℕ) (s : List Char) : List Char := s.take (size - 1)

theorem snprintf_fits {size : ℕ} {s : List Char} (h : s.length < size) : snprintf size s = s := by
  rw [snprintf, List.take_of_length_le (Nat.le_sub_one_of_lt h)]

/-! ### Parsing -/

/-- The string at index `p` of a buffer. -/
def stringAt (buf : List Char) (p : ℕ) : List Char := (buf.drop p).takeWhile (· ≠ nul)

/-- The loop of `strsplit` at index `i`, with the rounds it has left. -/
def strsplitFrom (maxtokens : ℕ) (delim : Char) :
    ℕ → ℕ → Bool → List Char → List ℕ → List Char × List ℕ
  | 0, _, _, string, tokens => (string, tokens)
  | n + 1, i, tokstart, string, tokens =>
    let c := string.getD i nul
    if c = nul ∨ tokens.length ≥ maxtokens then (string, tokens)
    else
      -- a token starts behind a separator, and may be empty
      let tokens := if tokstart then tokens ++ [i] else tokens
      if c = delim then strsplitFrom maxtokens delim n (i + 1) true (string.set i nul) tokens
      else strsplitFrom maxtokens delim n (i + 1) false string tokens

/-- `strsplit`: the buffer afterwards, and where its tokens start. -/
def strsplit (string : List Char) (stringlen maxtokens : ℕ) (delim : Char) :
    List Char × List ℕ :=
  strsplitFrom maxtokens delim stringlen 0 true string []

/-- `parse_pci_addr_format`; `malloc` is whether there is memory for the copy. -/
def parsePciAddrFormat (malloc : Bool) (buf : List Char) (bufsize : ℕ) : Option RtePciAddr :=
  if malloc then
    match strsplit (buf.take bufsize ++ [nul]) bufsize pciFmtNval ':' with
    | (bufCopy, [domain, bus, devid]) =>
      -- the last separator is a dot, between devid and function
      match (stringAt bufCopy devid).idxOf? '.' with
      | none => none
      | some dot =>
        let bufCopy := bufCopy.set (devid + dot) nul
        let (domain, errDomain) := strtoul 16 (stringAt bufCopy domain)
        let (bus, errBus) := strtoul 16 (stringAt bufCopy bus)
        let (function, errFunction) := strtoul 10 (stringAt bufCopy (devid + dot + 1))
        let (devid, errDevid) := strtoul 16 (stringAt bufCopy devid)
        -- `errno` is looked at once; what is read is cut to the width of its field
        if errDomain ∨ errBus ∨ errDevid ∨ errFunction then none
        else some ⟨domain.toUInt32, bus.toUInt8, devid.toUInt8, function.toUInt8⟩
    | _ => none
  else none

/-! ### Printing -/

/-- Four numerals with the separators of `PCI_PRI_FMT`. -/
def pciFields (domain bus devid function : List ℕ) : List Char :=
  text domain ++ ':' :: (text bus ++ ':' :: (text devid ++ '.' :: text function))

/-- `PCI_PRI_FMT`. -/
def pciPriFmt (addr : RtePciAddr) : List Char :=
  pciFields (padded 4 16 addr.domain.toNat) (padded 2 16 addr.bus.toNat)
    (padded 2 16 addr.devid.toNat) (padded 1 16 addr.function.toNat)

/-! ### Scanning -/

/-- `struct rte_pci_id`. -/
structure RtePciId where
  classId : UInt32
  vendorId : UInt16
  deviceId : UInt16
  subsystemVendorId : UInt16
  subsystemDeviceId : UInt16

/-- `struct rte_mem_resource`. -/
structure RteMemResource where
  physAddr : UInt64
  len : UInt64
  addr : UInt64

/-- `struct rte_pci_device`, as far as `pci_setup_device` fills it. -/
structure RtePciDevice where
  addr : RtePciAddr
  id : RtePciId
  memResource : Fin 6 → RteMemResource
  maxVfs : UInt16
  name : List Char

/-- The files of sysfs, as `access`, `parse_sysfs_value` and `pci_parse_sysfs_resource` find
them. -/
structure Sysfs where
  access : List Char → Bool
  value : List Char → Option UInt64
  resource : List Char → Option (Fin 6 → RteMemResource)

def pathMax : ℕ := 4096

/-- `sizeof(dev->name)`. -/
def pciNameSize : ℕ := 18

def sysfsDevices : List Char := "/sys/bus/pci/devices".toList

/-- The path of a device. -/
def devicePath (name : List Char) : List Char := sysfsDevices ++ '/' :: name

/-- `pci_setup_device`. -/
def pciSetupDevice (malloc : Bool) (sys : Sysfs) (dirname : List Char) (addr : RtePciAddr) :
    Option RtePciDevice :=
  if malloc then do
    let file (name : String) := snprintf pathMax (dirname ++ name.toList)
    let vendor ← sys.value (file "/vendor")
    let device ← sys.value (file "/device")
    let subsystemVendor ← sys.value (file "/subsystem_vendor")
    let subsystemDevice ← sys.value (file "/subsystem_device")
    let cls ← sys.value (file "/class")
    let maxVfs :=
      if sys.access (file "/max_vfs") then
        match sys.value (file "/max_vfs") with
        | some vfs => vfs.toUInt16
        | none => 0
      else 0
    let memResource ← sys.resource (file "/resource")
    return {
      addr := addr
      id := ⟨cls.toUInt32 &&& 0xffffff, vendor.toUInt16, device.toUInt16,
        subsystemVendor.toUInt16, subsystemDevice.toUInt16⟩
      memResource := memResource
      maxVfs := maxVfs
      name := snprintf pciNameSize (pciPriFmt addr) }
  else none

/-- The loop of `pci_scan` over the names that `readdir` returns, up to the device. -/
def pciScanMatch (malloc : Bool) (sys : Sysfs) : List (List Char) → Option (List Char × RtePciAddr)
  | [] => none
  | name :: entries =>
    if name.head? = some '.' then pciScanMatch malloc sys entries
    else
      match parsePciAddrFormat malloc name 256 with
      | none => pciScanMatch malloc sys entries
      | some addr =>
        match sys.value (snprintf pathMax (devicePath name ++ "/vendor".toList)),
            sys.value (snprintf pathMax (devicePath name ++ "/device".toList)) with
        | some vendor, some device =>
          if vendor = 0x19ee ∧ (device = 0x4000 ∨ device = 0x6000) then some (name, addr)
          else pciScanMatch malloc sys entries
        | _, _ => pciScanMatch malloc sys entries

/-- `pci_scan`; `names` are the entries of the directory, none when it cannot be opened. -/
def pciScan (malloc : Bool) (sys : Sysfs) (names : List (List Char)) : Option RtePciDevice :=
  match pciScanMatch malloc sys names with
  | none => none
  | some (name, addr) => pciSetupDevice malloc sys (snprintf pathMax (devicePath name)) addr

/-- The directory that `pci_get_device` opens. -/
def pciGetDeviceDir (opendir : List Char → Bool) (loc : RtePciAddr) : Option (List Char) :=
  let dirname := snprintf pathMax (devicePath (pciPriFmt loc) ++ "/uio".toList)
  if opendir dirname then some dirname
  else
    -- retry with the parent directory
    let dirname := snprintf pathMax (devicePath (pciPriFmt loc))
    if opendir dirname then some dirname else none

/-- The file of resource `i` that `pci_map_device` opens. -/
def pciMapDeviceFile (addr : RtePciAddr) (i : Fin 6) : List Char :=
  snprintf pathMax (devicePath (pciPriFmt addr) ++ ("/resource".toList ++ text (padded 1 10 i)))

/-! ### Splitting -/

section Split

variable {maxtokens : ℕ} {delim : Char} {seg : List Char} {tokens : List ℕ} (n : ℕ)
  (pre rest : List Char)

/-- Characters that neither end a string nor a token. -/
def Plain (delim : Char) (seg : List Char) : Prop := ∀ c ∈ seg, c ≠ nul ∧ c ≠ delim

/-- The loop passes over the rest of a token. -/
theorem strsplitFrom_plain (hplain : Plain delim seg) (htok : tokens.length < maxtokens) :
    strsplitFrom maxtokens delim (seg.length + n) pre.length false (pre ++ seg ++ rest) tokens =
      strsplitFrom maxtokens delim n (pre ++ seg).length false (pre ++ seg ++ rest) tokens := by
  induction seg generalizing pre with
  | nil => rw [List.append_nil, List.length_nil, Nat.zero_add]
  | cons c seg ih =>
    have hc := hplain c List.mem_cons_self
    have hget : (pre ++ c :: seg ++ rest).getD pre.length nul = c := by simp
    have hlast : (pre ++ [c]).length = pre.length + 1 := List.length_append
    have hrest := ih (pre ++ [c]) fun d hd => hplain d (List.mem_cons_of_mem c hd)
    rw [← List.append_cons, hlast] at hrest
    rw [List.length_cons, Nat.succ_add, strsplitFrom]
    dsimp only
    rw [hget, if_neg fun h => h.elim hc.1 (not_le.mpr htok), if_neg hc.2]
    exact hrest

/-- A token starts at its first character. -/
theorem strsplitFrom_token (hne : seg ≠ []) (hplain : Plain delim seg)
    (htok : tokens.length + 1 < maxtokens) :
    strsplitFrom maxtokens delim (seg.length + n) pre.length true (pre ++ seg ++ rest) tokens =
      strsplitFrom maxtokens delim n (pre ++ seg).length false (pre ++ seg ++ rest)
        (tokens ++ [pre.length]) := by
  cases seg with
  | nil => exact absurd rfl hne
  | cons c seg =>
    have hc := hplain c List.mem_cons_self
    have hget : (pre ++ c :: seg ++ rest).getD pre.length nul = c := by simp
    have hlen : (tokens ++ [pre.length]).length < maxtokens := by
      rwa [List.length_append, List.length_singleton]
    have hlast : (pre ++ [c]).length = pre.length + 1 := List.length_append
    have hrest := strsplitFrom_plain n (pre ++ [c]) rest
      (fun d hd => hplain d (List.mem_cons_of_mem c hd)) hlen
    rw [← List.append_cons, hlast] at hrest
    rw [List.length_cons, Nat.succ_add, strsplitFrom]
    dsimp only
    rw [hget, if_neg fun h => h.elim hc.1 (by omega), if_pos rfl, if_neg hc.2]
    exact hrest

/-- A token with its separator, which is overwritten. -/
theorem strsplitFrom_field (hne : seg ≠ []) (hplain : Plain delim seg) (hdelim : delim ≠ nul)
    (htok : tokens.length + 1 < maxtokens) :
    strsplitFrom maxtokens delim (seg.length + (n + 1)) pre.length true
        (pre ++ seg ++ delim :: rest) tokens =
      strsplitFrom maxtokens delim n (pre ++ seg ++ [nul]).length true
        (pre ++ seg ++ [nul] ++ rest) (tokens ++ [pre.length]) := by
  have hget : (pre ++ seg ++ delim :: rest).getD (pre ++ seg).length nul = delim := by simp
  have hset : (pre ++ seg ++ delim :: rest).set (pre ++ seg).length nul =
      pre ++ seg ++ [nul] ++ rest := by simp
  have hlen : ¬(tokens ++ [pre.length]).length ≥ maxtokens := by
    rw [List.length_append, List.length_singleton]
    omega
  have hlast : (pre ++ seg ++ [nul]).length = (pre ++ seg).length + 1 := List.length_append
  rw [strsplitFrom_token _ _ _ hne hplain htok, strsplitFrom]
  dsimp only
  rw [hget, if_neg fun h => h.elim hdelim hlen, if_pos rfl, hset, hlast]
  rfl

/-- The token at the end of the string. -/
theorem strsplitFrom_last (hne : seg ≠ []) (hplain : Plain delim seg)
    (htok : tokens.length + 1 < maxtokens) :
    strsplitFrom maxtokens delim (seg.length + n) pre.length true (pre ++ seg ++ [nul]) tokens =
      (pre ++ seg ++ [nul], tokens ++ [pre.length]) := by
  have hget : (pre ++ seg ++ [nul]).getD (pre ++ seg).length nul = nul := by simp
  rw [strsplitFrom_token _ _ _ hne hplain htok]
  cases n with
  | zero => rfl
  | succ n =>
    rw [strsplitFrom]
    dsimp only
    rw [hget, if_pos (.inl rfl)]

theorem stringAt_append (hplain : ∀ c ∈ seg, c ≠ nul) :
    stringAt (pre ++ seg ++ nul :: rest) pre.length = seg := by
  rw [stringAt, List.append_assoc, List.drop_left, List.takeWhile_append_of_pos,
    List.takeWhile_cons]
  · simp
  · exact fun c hc => decide_eq_true (hplain c hc)

/-- Three tokens. -/
theorem strsplit_three {d b v : List Char} (hd : d ≠ [] ∧ Plain ':' d) (hb : b ≠ [] ∧ Plain ':' b)
    (hv : v ≠ [] ∧ Plain ':' v) {stringlen : ℕ}
    (hlen : (d ++ ':' :: (b ++ ':' :: v)).length ≤ stringlen) :
    strsplit (d ++ ':' :: (b ++ ':' :: v) ++ [nul]) stringlen pciFmtNval ':' =
      (d ++ [nul] ++ (b ++ [nul]) ++ v ++ [nul],
        [0, (d ++ [nul]).length, (d ++ [nul] ++ (b ++ [nul])).length]) := by
  obtain ⟨n, rfl⟩ := Nat.exists_eq_add_of_le hlen
  -- one round for every character, and those left when the string ends
  have hcount : (d ++ ':' :: (b ++ ':' :: v)).length + n =
      d.length + (b.length + (v.length + n + 1) + 1) := by
    simp only [List.length_append, List.length_cons]
    omega
  have hfirst := strsplitFrom_field (b.length + (v.length + n + 1)) [] (b ++ ':' :: v ++ [nul])
    hd.1 hd.2 (by decide) (show ([] : List ℕ).length + 1 < 4 by decide)
  have hsecond := strsplitFrom_field (v.length + n) (d ++ [nul]) (v ++ [nul]) hb.1 hb.2
    (by decide) (show [0].length + 1 < 4 by decide)
  have hlast := strsplitFrom_last n (d ++ [nul] ++ (b ++ [nul])) hv.1 hv.2
    (show [0, (d ++ [nul]).length].length + 1 < 4 from Nat.lt_succ_self 3)
  rw [hcount, strsplit, pciFmtNval, show d ++ ':' :: (b ++ ':' :: v) ++ [nul] =
    [] ++ d ++ ':' :: (b ++ ':' :: v ++ [nul]) by simp]
  refine hfirst.trans ?_
  rw [show [] ++ d ++ [nul] ++ (b ++ ':' :: v ++ [nul]) =
    d ++ [nul] ++ b ++ ':' :: (v ++ [nul]) by simp]
  refine hsecond.trans ?_
  rw [show d ++ [nul] ++ b ++ [nul] ++ (v ++ [nul]) =
    d ++ [nul] ++ (b ++ [nul]) ++ v ++ [nul] by simp, List.append_assoc (d ++ [nul]) b]
  exact hlast

end Split

/-! ### Reading an address -/

/-- Digits of a base, at least one. -/
structure Digits (b : ℕ) (ds : List ℕ) : Prop where
  ne_nil : ds ≠ []
  lt : ∀ d ∈ ds, d < b

theorem Digits.mono {b b' : ℕ} {ds : List ℕ} (h : Digits b ds) (hle : b ≤ b') : Digits b' ds :=
  ⟨h.ne_nil, fun d hd => (h.lt d hd).trans_le hle⟩

theorem Digits.text_ne_nil {b : ℕ} {ds : List ℕ} (h : Digits b ds) : text ds ≠ [] :=
  fun hnil => h.ne_nil (List.map_eq_nil_iff.mp hnil)

/-- A numeral holds no separator. -/
theorem Digits.not_separator {ds : List ℕ} (h : Digits 16 ds) {c : Char}
    (hc : c ∈ ['-', '+', 'x', 'X', ':', '.', '\x00']) : c ∉ text ds := by
  intro hmem
  obtain ⟨d, hd, rfl⟩ := List.mem_map.mp hmem
  exact digitChar_ne (h.lt d hd) hc rfl

theorem Digits.plain {ds : List ℕ} (h : Digits 16 ds) : Plain ':' (text ds) := by
  refine fun c hc => ⟨?_, ?_⟩
  · rintro rfl
    exact h.not_separator (by decide) hc
  · rintro rfl
    exact h.not_separator (by decide) hc

variable {D B V F : List ℕ}

/-- The end of the string, with the last separator. -/
theorem plain_last (hV : Digits 16 V) (hF : Digits 16 F) :
    Plain ':' (text V ++ '.' :: text F) := by
  intro c hc
  rcases List.mem_append.mp hc with hmem | hmem
  · exact hV.plain c hmem
  · rcases List.mem_cons.mp hmem with rfl | hmem
    · decide
    · exact hF.plain c hmem

/-- The first dot behind a numeral. -/
theorem idxOf?_append_cons {c : Char} {seg : List Char} (h : c ∉ seg) (rest : List Char) :
    (seg ++ c :: rest).idxOf? c = some seg.length := by
  induction seg with
  | nil => simp [List.idxOf?_cons]
  | cons d seg ih =>
    obtain ⟨hne, hrest⟩ := not_or.mp (mt List.mem_cons.mpr h)
    have hbeq : (d == c) = false := beq_eq_false_iff_ne.mpr (Ne.symm hne)
    rw [List.cons_append, List.idxOf?_cons, hbeq, ih hrest]
    rfl

/-- The number of a numeral, and whether it is too large. -/
theorem strtoul_digits {b : ℕ} (hb : b ≤ 16) {ds : List ℕ} (h : Digits b ds) :
    (strtoul b (text ds)).2 = decide (2 ^ 64 ≤ value b ds) ∧
      (value b ds < 2 ^ 64 → (strtoul b (text ds)).1 = UInt64.ofNat (value b ds)) := by
  rw [strtoul_text hb h.lt]
  by_cases hlarge : 2 ^ 64 ≤ value b ds
  · rw [if_pos hlarge, decide_eq_true hlarge]
    exact ⟨rfl, fun hlt => absurd hlarge (not_le.mpr hlt)⟩
  · rw [if_neg hlarge, decide_eq_false hlarge]
    exact ⟨rfl, fun _ => rfl⟩

/-- The four strings in the buffer once every separator is overwritten. -/
theorem stringAt_fields {d b v f : List Char} (hd : Plain ':' d) (hb : Plain ':' b)
    (hv : Plain ':' v) (hf : Plain ':' f) :
    let buf := d ++ [nul] ++ (b ++ [nul]) ++ (v ++ [nul]) ++ (f ++ [nul])
    stringAt buf 0 = d ∧ stringAt buf (d ++ [nul]).length = b ∧
      stringAt buf (d ++ [nul] ++ (b ++ [nul])).length = v ∧
      stringAt buf ((d ++ [nul] ++ (b ++ [nul])).length + v.length + 1) = f := by
  have hdomain := stringAt_append [] (b ++ [nul] ++ (v ++ [nul]) ++ (f ++ [nul]))
    fun c hc => (hd c hc).1
  have hbus := stringAt_append (d ++ [nul]) (v ++ [nul] ++ (f ++ [nul])) fun c hc => (hb c hc).1
  have hdevid := stringAt_append (d ++ [nul] ++ (b ++ [nul])) (f ++ [nul]) fun c hc => (hv c hc).1
  have hfunction := stringAt_append (d ++ [nul] ++ (b ++ [nul]) ++ (v ++ [nul])) []
    fun c hc => (hf c hc).1
  have hlast : (d ++ [nul] ++ (b ++ [nul]) ++ (v ++ [nul])).length =
      (d ++ [nul] ++ (b ++ [nul])).length + v.length + 1 := by
    simp only [List.length_append, List.length_singleton]
    omega
  rw [hlast] at hfunction
  dsimp only
  refine ⟨?_, ?_, ?_, ?_⟩
  · simpa only [List.append_assoc, List.nil_append, List.cons_append, List.length_nil]
      using hdomain
  · simpa only [List.append_assoc, List.nil_append, List.cons_append] using hbus
  · simpa only [List.append_assoc, List.nil_append, List.cons_append] using hdevid
  · simpa only [List.append_assoc, List.nil_append, List.cons_append] using hfunction

/-- **Parsing** reads the numerals between the separators. -/
theorem parsePciAddrFormat_fields (hD : Digits 16 D) (hB : Digits 16 B) (hV : Digits 16 V)
    (hF : Digits 10 F) {bufsize : ℕ} (hlen : (pciFields D B V F).length ≤ bufsize) :
    parsePciAddrFormat true (pciFields D B V F) bufsize =
      if 2 ^ 64 ≤ value 16 D ∨ 2 ^ 64 ≤ value 16 B ∨ 2 ^ 64 ≤ value 16 V ∨ 2 ^ 64 ≤ value 10 F then
        none
      else some ⟨UInt32.ofNat (value 16 D), UInt8.ofNat (value 16 B), UInt8.ofNat (value 16 V),
        UInt8.ofNat (value 10 F)⟩ := by
  have hF16 := hF.mono (show 10 ≤ 16 by decide)
  have hsplit := strsplit_three ⟨hD.text_ne_nil, hD.plain⟩ ⟨hB.text_ne_nil, hB.plain⟩
    ⟨fun h => hV.text_ne_nil (List.append_eq_nil_iff.mp h).1, plain_last hV hF16⟩ hlen
  have hcopy : (pciFields D B V F).take bufsize = pciFields D B V F := List.take_of_length_le hlen
  -- the third token still holds the devid, the dot and the function
  have hdot : stringAt (text D ++ [nul] ++ (text B ++ [nul]) ++ (text V ++ '.' :: text F) ++ [nul])
      (text D ++ [nul] ++ (text B ++ [nul])).length = text V ++ '.' :: text F :=
    stringAt_append _ [] fun c hc => (plain_last hV hF16 c hc).1
  have hidx : (text V ++ '.' :: text F).idxOf? '.' = some (text V).length :=
    idxOf?_append_cons (hV.not_separator (by decide)) _
  have hset : (text D ++ [nul] ++ (text B ++ [nul]) ++ (text V ++ '.' :: text F) ++ [nul]).set
      ((text D ++ [nul] ++ (text B ++ [nul])).length + (text V).length) nul =
      text D ++ [nul] ++ (text B ++ [nul]) ++ (text V ++ [nul]) ++ (text F ++ [nul]) := by
    rw [← List.length_append, show text D ++ [nul] ++ (text B ++ [nul]) ++
      (text V ++ '.' :: text F) ++ [nul] = text D ++ [nul] ++ (text B ++ [nul]) ++ text V ++
        '.' :: (text F ++ [nul]) by simp, List.set_append_right _ _ le_rfl, Nat.sub_self]
    simp
  -- the four numerals are now strings of their own
  obtain ⟨hdomain, hbus, hdevid, hfunction⟩ := stringAt_fields hD.plain hB.plain hV.plain hF16.plain
  rw [parsePciAddrFormat, if_pos rfl, hcopy]
  unfold pciFields
  rw [hsplit]
  dsimp only
  rw [hdot, hidx]
  dsimp only
  rw [hset, hdomain, hbus, hdevid, hfunction]
  obtain ⟨herrD, hvalD⟩ := strtoul_digits le_rfl hD
  obtain ⟨herrB, hvalB⟩ := strtoul_digits le_rfl hB
  obtain ⟨herrV, hvalV⟩ := strtoul_digits le_rfl hV
  obtain ⟨herrF, hvalF⟩ := strtoul_digits (by decide) hF
  -- one `errno` for the four conversions
  simp only [herrD, herrB, herrV, herrF, decide_eq_true_eq]
  split
  · rfl
  · next hsmall =>
    obtain ⟨hsD, hsB, hsV, hsF⟩ : value 16 D < 2 ^ 64 ∧ value 16 B < 2 ^ 64 ∧ value 16 V < 2 ^ 64 ∧
        value 10 F < 2 ^ 64 := by
      simpa only [not_or, not_le] using hsmall
    rw [hvalD hsD, hvalB hsB, hvalV hsV, hvalF hsF, UInt64.toUInt32_ofNat', UInt64.toUInt8_ofNat',
      UInt64.toUInt8_ofNat', UInt64.toUInt8_ofNat']

end NfpUdpEcho.Pci
