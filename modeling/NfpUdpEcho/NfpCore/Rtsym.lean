import NfpUdpEcho.Framework.Strings
import NfpUdpEcho.NfpCore.Nffw

/-!
# The symbols of the firmware

`user/nfpcore/nfp_rtsym.c`. The MIP says where the table of the symbols and the table of their
names are. Both are copied to one block of memory, the names last and with a zero behind them,
and the symbols point at their names.

A function that reads or writes outside its memory, or divides by zero, has the result `none`.

Two arguments are made here. A name is looked up in a block whose last byte is zero, and the offset
of a name is taken modulo the size of the names, so a comparison that begins in the block ends in it
(`nfpRtsymLookup_eq`). And the sizes of the tables come from the device: the block is reserved with
a size cut to 32 bits, while the loop over the entries and the `memcpy` of the names go by the sizes
themselves. `nfpRtsymTableReadMip_safe_iff` says exactly for which sizes the two agree.
-/

namespace NfpUdpEcho

open Access Errno LittleEndian Strings

/-- `struct nfp_rtsym_entry`. -/
structure NfpRtsymEntry where
  type : UInt8
  target : UInt8
  island : UInt8
  addrHi : UInt8
  addrLo : UInt32
  name : UInt16
  menum : UInt8
  sizeHi : UInt8
  sizeLo : UInt32

/-- The size of an entry. -/
def rtsymEntrySize : ℕ := 16

/-- The entry at an offset. -/
def NfpRtsymEntry.at (bytes : List UInt8) (i : ℕ) : NfpRtsymEntry where
  type := bytes.getD i 0
  target := bytes.getD (i + 1) 0
  island := bytes.getD (i + 2) 0
  addrHi := bytes.getD (i + 3) 0
  addrLo := wordOf bytes (i + 4)
  name := UInt16.ofNat (ofBytes ((bytes.drop (i + 8)).take 2))
  menum := bytes.getD (i + 10) 0
  sizeHi := bytes.getD (i + 11) 0
  sizeLo := wordOf bytes (i + 12)

/-- `struct nfp_rtsym`. The name is an offset in the table of the names. -/
structure NfpRtsym where
  name : ℕ
  addr : UInt64
  size : UInt64
  type : ℤ
  target : ℤ
  domain : ℤ
deriving DecidableEq

/-- `struct nfp_rtsym_table`: the symbols, and the names with the zero behind them. -/
structure NfpRtsymTable where
  symtab : List NfpRtsym
  strtab : List UInt8

/-- `SYM_TGT_LMEM`. -/
def symTgtLmem : UInt8 := 0

/-- `SYM_TGT_EMU_CACHE`. -/
def symTgtEmuCache : UInt8 := 0x17

/-- `NFP_RTSYM_TARGET_LMEM`. -/
def nfpRtsymTargetLmem : ℤ := -1

/-- `NFP_RTSYM_TARGET_EMU_CACHE`. -/
def nfpRtsymTargetEmuCache : ℤ := -7

/-- `nfp_meid`. -/
def nfpMeid (islandId menum : UInt8) : ℤ :=
  if islandId &&& 0x3f = islandId ∧ menum < 12 then
    ((islandId.toNat <<< 4) ||| (menum.toNat + 4) : ℕ)
  else -1

/-- What `nfp_rtsym_sw_entry_init` writes. -/
def rtsymSwEntry (strtabSize : UInt32) (fw : NfpRtsymEntry) : NfpRtsym where
  name := fw.name.toNat % strtabSize.toNat
  addr := (fw.addrHi.toUInt64 <<< 32) ||| fw.addrLo.toUInt64
  size := (fw.sizeHi.toUInt64 <<< 32) ||| fw.sizeLo.toUInt64
  type := fw.type.toNat
  target :=
    if fw.target = symTgtLmem then nfpRtsymTargetLmem
    else if fw.target = symTgtEmuCache then nfpRtsymTargetEmuCache
    else fw.target.toNat
  domain :=
    if fw.menum ≠ 0xff then nfpMeid fw.island fw.menum
    else if fw.island ≠ 0xff then fw.island.toNat
    else -1

/-- `nfp_rtsym_sw_entry_init`, which divides by the size of the names. -/
def nfpRtsymSwEntryInit (strtabSize : UInt32) (fw : NfpRtsymEntry) : Option NfpRtsym :=
  if strtabSize = 0 then none else some (rtsymSwEntry strtabSize fw)

/-- `round_up(x, 8)`. -/
def roundUp8 (x : UInt32) : UInt32 := ((x - 1) ||| 7) + 1

/-- The size of the block of memory, an `int`: 24 bytes, 40 for a symbol, and the names. -/
def rtsymCacheSize (symtabSize strtabSize : UInt32) : Int32 :=
  (24 + symtabSize / 16 * 40 + (strtabSize + 1)).toInt32

/-- The number of the symbols. -/
def rtsymNum (symtabSize : UInt32) : ℕ := symtabSize.toNat / rtsymEntrySize

/-- What the two tables and the zero take in the block. -/
def rtsymCacheNeeds (symtabSize strtabSize : UInt32) : ℕ :=
  24 + rtsymNum symtabSize * 40 + strtabSize.toNat + 1

/-- The loop over the entries. -/
def rtsymEntries (strtabSize : UInt32) (rtsymtab : List UInt8) (num : ℕ) :
    Option (List NfpRtsym) :=
  (List.range num).mapM fun n =>
    nfpRtsymSwEntryInit strtabSize (.at rtsymtab (n * rtsymEntrySize))

/-- The CPP id of the memory that the tables are in. -/
def rtsymDram : UInt32 := nfpCppId nfpCppTargetMu.toUInt32 nfpCppActionRW 0 ||| 24

/-- `__nfp_rtsym_table_read`. `malloc` is whether there is memory for the entries and for the
block; a negative size is too large for either. -/
def nfpRtsymTableReadMip (malloc : Bool × Bool) (mip : List UInt8) :
    CppProg (Option (Option NfpRtsymTable)) :=
  let (strtabAddr, strtabSize) := nfpMipStrtab mip
  let (symtabAddr, symtabSize) := nfpMipSymtab mip
  if symtabSize = 0 ∨ strtabSize = 0 ∨ symtabSize % 16 ≠ 0 then .ret (some none)
  else
    -- Align to 64 bits
    let symtabSize := roundUp8 symtabSize
    let strtabSize := roundUp8 strtabSize
    let size := rtsymCacheSize symtabSize strtabSize
    if ¬(malloc.1 ∧ malloc.2 ∧ 0 ≤ size) then .ret (some none)
    else if size < 24 then .ret none
    else
      .access (.read rtsymDram symtabAddr.toUInt64 symtabSize.toNat) fun
        | .error _ => .ret (some none)
        | .ok rtsymtab =>
          -- the names are written behind the symbols
          if size.toInt < rtsymCacheNeeds symtabSize strtabSize then .ret none
          else
            .access (.read rtsymDram strtabAddr.toUInt64 strtabSize.toNat) fun
              | .error _ => .ret (some none)
              | .ok strtab =>
                .ret ((rtsymEntries strtabSize (List.ofFn rtsymtab)
                  (rtsymNum symtabSize)).map fun symtab =>
                    some ⟨symtab, List.ofFn strtab ++ [0]⟩)

/-- `nfp_rtsym_table_read`. -/
def nfpRtsymTableRead (calloc : ℕ → Bool) (malloc : (Bool × Bool × Bool) × Bool × Bool)
    (waits : ℕ) (host : NfpCppHost) : CppProg (Outcome (Option (Option NfpRtsymTable))) :=
  (nfpMipOpen calloc malloc.1 waits host).andThen fun
    | none, host => .ret (.done (some none) host)
    | some mip, host =>
      (nfpRtsymTableReadMip malloc.2 mip).bind fun rtbl => .ret (.done rtbl host)

/-- The loop of `nfp_rtsym_lookup`. -/
def rtsymLookupFrom (strtab : List UInt8) (name : ZString UInt8) :
    List NfpRtsym → Option (Option NfpRtsym)
  | [] => some none
  | sym :: syms =>
    match strlen strtab sym.name with
    | none => none
    | some _ =>
      if stringAt strtab sym.name = name then some (some sym)
      else rtsymLookupFrom strtab name syms

/-- `nfp_rtsym_lookup`. -/
def nfpRtsymLookup (rtbl : NfpRtsymTable) (name : ZString UInt8) : Option (Option NfpRtsym) :=
  rtsymLookupFrom rtbl.strtab name rtbl.symtab

/-! ### The tables that are read

What every table that has been read satisfies, `NfpRtsymTable.Ok`, and what a lookup makes of it. -/

section Tables

variable {strtabSize symtabSize : UInt32} {rtsymtab strtab : List UInt8} {num : ℕ}
  {malloc : Bool × Bool} {mip : List UInt8}

/-- With names there, every entry is read, and the list has one symbol for each. -/
theorem rtsymEntries_eq (h : strtabSize ≠ 0) : rtsymEntries strtabSize rtsymtab num =
    some ((List.range num).map fun n =>
      rtsymSwEntry strtabSize (.at rtsymtab (n * rtsymEntrySize))) := by
  have hentry : (fun n => nfpRtsymSwEntryInit strtabSize (.at rtsymtab (n * rtsymEntrySize))) =
      fun n => pure (rtsymSwEntry strtabSize (.at rtsymtab (n * rtsymEntrySize))) :=
    funext fun n => if_neg h
  rw [rtsymEntries, hentry, List.mapM_pure]
  rfl

/-- Without names the first entry divides by zero. -/
theorem rtsymEntries_zero (hnum : 0 < num) : rtsymEntries 0 rtsymtab num = none := by
  obtain ⟨n, rfl⟩ := Nat.exists_eq_succ_of_ne_zero hnum.ne'
  rw [rtsymEntries, List.range_succ_eq_map, List.mapM_cons]
  rfl

/-- Every name begins in the table of the names, which ends in a zero. -/
structure NfpRtsymTable.Ok (rtbl : NfpRtsymTable) : Prop where
  last : rtbl.strtab.getLast? = some 0
  inside : ∀ sym ∈ rtbl.symtab, sym.name < rtbl.strtab.length

/-- The walk over the symbols is a search, as long as no name runs out of the block. -/
theorem rtsymLookupFrom_eq (hlast : strtab.getLast? = some 0) {syms : List NfpRtsym}
    (hin : ∀ sym ∈ syms, sym.name < strtab.length) (name : ZString UInt8) :
    rtsymLookupFrom strtab name syms =
      some (syms.find? fun sym => stringAt strtab sym.name = name) := by
  -- the last byte is 0, so every name that begins inside ends inside
  induction syms with
  | nil => rfl
  | cons sym syms ih =>
    obtain ⟨n, hn⟩ := exists_strlen hlast (hin sym List.mem_cons_self)
    rw [rtsymLookupFrom, hn]
    dsimp only
    by_cases hname : stringAt strtab sym.name = name
    · rw [if_pos hname, List.find?_cons, decide_eq_true hname]
    · rw [if_neg hname, List.find?_cons, decide_eq_false hname]
      exact ih fun sym hsym => hin sym (List.mem_cons_of_mem _ hsym)

/-- The table that has been read. -/
theorem ok_of_rtsymEntries {symtab : List NfpRtsym} (hlen : strtab.length = strtabSize.toNat)
    (h : rtsymEntries strtabSize rtsymtab num = some symtab) :
    NfpRtsymTable.Ok ⟨symtab, strtab ++ [0]⟩ where
  last := List.getLast?_concat
  inside sym hsym := by
    rw [List.length_append, hlen]
    -- the offsets are taken modulo the size of the names, so without names there are no entries
    by_cases hzero : strtabSize = 0
    · subst hzero
      cases num with
      | zero =>
        obtain rfl : [] = symtab := Option.some.inj h
        cases hsym
      | succ n =>
        rw [rtsymEntries_zero n.succ_pos] at h
        cases h
    · rw [rtsymEntries_eq hzero] at h
      obtain rfl := Option.some.inj h
      obtain ⟨n, -, rfl⟩ := List.mem_map.mp hsym
      have hpos : 0 < strtabSize.toNat :=
        Nat.pos_of_ne_zero fun h => hzero (UInt32.toNat_inj.mp h)
      exact (Nat.mod_lt _ hpos).trans_le (Nat.le_add_right _ _)

/-- The program only returns tables in order: the names are copied with a zero behind them. -/
theorem readMip_ok : (nfpRtsymTableReadMip malloc mip).All fun r =>
    ∀ rtbl, r = some (some rtbl) → rtbl.Ok := by
  unfold nfpRtsymTableReadMip
  dsimp only
  split
  · exact nofun
  · split
    · exact nofun
    · split
      · exact nofun
      · refine ⟨trivial, fun x => ?_⟩
        change Except ℤ (Fin _ → UInt8) at x
        -- one case for each read of the device; an error returns no table
        cases x with
        | error err => exact nofun
        | ok rtsymtab =>
          dsimp only
          split
          · exact nofun
          · refine ⟨trivial, fun x => ?_⟩
            change Except ℤ (Fin _ → UInt8) at x
            cases x with
            | error err => exact nofun
            | ok strtab =>
              intro rtbl hrtbl
              obtain ⟨symtab, hsymtab, he⟩ := Option.map_eq_some_iff.mp hrtbl
              obtain rfl := Option.some.inj he
              exact ok_of_rtsymEntries (List.length_ofFn) hsymtab

/-- **A lookup of a symbol** stays in the names and finds the first symbol with the name, whatever
the device has given for the tables. -/
theorem nfpRtsymLookup_eq (calloc : ℕ → Bool) (malloc : (Bool × Bool × Bool) × Bool × Bool)
    (waits : ℕ) (host : NfpCppHost) :
    CppProg.Ends (fun r => ∀ rtbl, r = some (some rtbl) → ∀ name, nfpRtsymLookup rtbl name =
        some (rtbl.symtab.find? fun sym => stringAt rtbl.strtab sym.name = name))
      (nfpRtsymTableRead calloc malloc waits host) := by
  refine CppProg.ends_andThen (CppProg.ends_true _) fun mip host _ => ?_
  cases mip with
  | none => exact CppProg.ends_done nofun
  | some mip =>
    refine Prog.within_bind.mpr (readMip_ok.mono (fun _ => id) fun r hr => ?_)
    refine CppProg.ends_done fun rtbl hrtbl name => ?_
    obtain ⟨hlast, hin⟩ := hr rtbl hrtbl
    exact rtsymLookupFrom_eq hlast hin name

end Tables

/-! ### The sizes of the tables

`rtsymCacheNeeds` is what the block has to hold, as a natural number, and `rtsymCacheSize` what is
reserved. The rest is arithmetic about the difference of the two. -/

section Sizes

variable {x symtabSize strtabSize : UInt32} {mip : List UInt8}

/-- Rounding up in natural numbers; the sum may wrap. -/
theorem toNat_roundUp8 (hx : x ≠ 0) :
    (roundUp8 x).toNat = ((x.toNat - 1) / 8 + 1) * 8 % 2 ^ 32 := by
  have hone : (1 : UInt32) ≤ x :=
    UInt32.le_iff_toNat_le.mpr (Nat.pos_of_ne_zero fun h => hx (UInt32.toNat_inj.mp h))
  have hlow : ∀ r < 8, r ||| 7 = 7 := by decide
  -- the low bits are all set
  have hor (m : ℕ) : m ||| 7 = m / 8 * 8 + 7 := by
    have hdiv : (m ||| 7) / 2 ^ 3 = m / 8 := by
      rw [Nat.or_div_two_pow]
      exact Nat.or_zero _
    have hmod : (m ||| 7) % 2 ^ 3 = 7 := by
      rw [Nat.or_mod_two_pow]
      exact hlow _ (Nat.mod_lt _ (by decide))
    omega
  have hsub : (x - 1).toNat = x.toNat - 1 := UInt32.toNat_sub_of_le _ _ hone
  have hseven : (7 : UInt32).toNat = 7 := rfl
  rw [roundUp8, UInt32.toNat_add, UInt32.toNat_or, hsub, hseven, hor]
  exact congrArg (· % 2 ^ 32) (by rw [Nat.add_mul]; rfl)

/-- Only the eight bytes below `2 ^ 32` round up to zero. -/
theorem roundUp8_eq_zero_iff (hx : x ≠ 0) : roundUp8 x = 0 ↔ 0xfffffff8 < x := by
  have hlt := x.toNat_lt
  have hpos : 0 < x.toNat := Nat.pos_of_ne_zero fun h => hx (UInt32.toNat_inj.mp h)
  rw [← UInt32.toNat_inj, toNat_roundUp8 hx, UInt32.lt_iff_toNat_lt]
  have hbound : (0xfffffff8 : UInt32).toNat = 2 ^ 32 - 8 := rfl
  have hzero : (0 : UInt32).toNat = 0 := rfl
  omega

/-- The entries are aligned. -/
theorem roundUp8_entries (hx : x ≠ 0) (hmod : x % 16 = 0) : roundUp8 x = x := by
  have hlt := x.toNat_lt
  have hpos : 0 < x.toNat := Nat.pos_of_ne_zero fun h => hx (UInt32.toNat_inj.mp h)
  have hmod : x.toNat % 16 = 0 := congrArg UInt32.toNat hmod
  rw [← UInt32.toNat_inj, toNat_roundUp8 hx]
  omega

/-- The size of the block is cut to 32 bits. -/
theorem toInt_rtsymCacheSize : (rtsymCacheSize symtabSize strtabSize).toInt =
    (rtsymCacheNeeds symtabSize strtabSize : ℤ).bmod (2 ^ 32) := by
  have hnat : (24 + symtabSize / 16 * 40 + (strtabSize + 1)).toNat =
      rtsymCacheNeeds symtabSize strtabSize % 2 ^ 32 := by
    have hdiv : (symtabSize / 16).toNat = symtabSize.toNat / 16 := UInt32.toNat_div ..
    have h24 : (24 : UInt32).toNat = 24 := rfl
    have h40 : (40 : UInt32).toNat = 40 := rfl
    have h1 : (1 : UInt32).toNat = 1 := rfl
    simp only [UInt32.toNat_add, UInt32.toNat_mul, hdiv, h24, h40, h1, rtsymCacheNeeds, rtsymNum,
      rtsymEntrySize]
    omega
  calc (rtsymCacheSize symtabSize strtabSize).toInt
      = ((24 + symtabSize / 16 * 40 + (strtabSize + 1)).toNat : ℤ).bmod (2 ^ 32) :=
        BitVec.toInt_eq_toNat_bmod _
    _ = (rtsymCacheNeeds symtabSize strtabSize : ℤ).bmod (2 ^ 32) := by
        rw [hnat, Int.natCast_emod, Int.emod_bmod]

/-- The sign that `malloc` is given, in integers. -/
theorem rtsymCacheSize_nonneg_iff : 0 ≤ rtsymCacheSize symtabSize strtabSize ↔
    0 ≤ (rtsymCacheNeeds symtabSize strtabSize : ℤ).bmod (2 ^ 32) := by
  rw [Int32.le_iff_toInt_le, toInt_rtsymCacheSize]
  rfl

/-- A block that is large enough, if its size is not negative. -/
theorem needs_le_iff (hsize : 0 ≤ rtsymCacheSize symtabSize strtabSize) :
    (rtsymCacheNeeds symtabSize strtabSize : ℤ) ≤ (rtsymCacheSize symtabSize strtabSize).toInt ↔
      rtsymCacheNeeds symtabSize strtabSize < 2 ^ 31 := by
  have hnonneg := rtsymCacheSize_nonneg_iff.mp hsize
  rw [toInt_rtsymCacheSize]
  have hlt : (rtsymCacheNeeds symtabSize strtabSize : ℤ).bmod (2 ^ 32) < 2 ^ 31 :=
    Int.bmod_lt (by decide)
  constructor
  · intro hle
    omega
  · intro hneeds
    rw [Int.bmod_eq_of_le (by omega) (by omega)]

/-- A table of whole entries that is not empty has one. -/
theorem rtsymNum_pos (hx : x ≠ 0) (hmod : x % 16 = 0) : 0 < rtsymNum x := by
  have hpos : 0 < x.toNat := Nat.pos_of_ne_zero fun h => hx (UInt32.toNat_inj.mp h)
  have hmod : x.toNat % 16 = 0 := congrArg UInt32.toNat hmod
  unfold rtsymNum rtsymEntrySize
  omega

/-- The block has room for its header. -/
theorem rtsymCacheSize_not_small (hfit : (rtsymCacheNeeds symtabSize strtabSize : ℤ) ≤
    (rtsymCacheSize symtabSize strtabSize).toInt) :
    ¬rtsymCacheSize symtabSize strtabSize < 24 := by
  intro hlt
  have hlt := Int32.lt_iff_toInt_lt.mp hlt
  have h24 : (24 : Int32).toInt = 24 := rfl
  unfold rtsymCacheNeeds at hfit
  omega

/-- **When reading the tables is safe**: the sizes are refused, the block is too large, or the
sizes do not wrap. -/
theorem nfpRtsymTableReadMip_safe_iff (mip : List UInt8) :
    (nfpRtsymTableReadMip (true, true) mip).All (fun r => r ≠ none) ↔
      (nfpMipSymtab mip).2 = 0 ∨ (nfpMipStrtab mip).2 = 0 ∨ (nfpMipSymtab mip).2 % 16 ≠ 0 ∨
        rtsymCacheSize (nfpMipSymtab mip).2 (roundUp8 (nfpMipStrtab mip).2) < 0 ∨
        (nfpMipStrtab mip).2 ≤ 0xfffffff8 ∧
          rtsymCacheNeeds (nfpMipSymtab mip).2 (roundUp8 (nfpMipStrtab mip).2) < 2 ^ 31 := by
  unfold nfpRtsymTableReadMip
  generalize nfpMipSymtab mip = symtab
  generalize nfpMipStrtab mip = strtab
  obtain ⟨symtabAddr, symtabSize⟩ := symtab
  obtain ⟨strtabAddr, strtabSize⟩ := strtab
  dsimp only
  by_cases hrefused : symtabSize = 0 ∨ strtabSize = 0 ∨ symtabSize % 16 ≠ 0
  -- the sizes are refused, and nothing is written
  · rw [if_pos hrefused]
    refine iff_of_true (Option.some_ne_none _) ?_
    obtain h | h | h := hrefused
    · exact .inl h
    · exact .inr (.inl h)
    · exact .inr (.inr (.inl h))
  · rw [if_neg hrefused]
    obtain ⟨hsym, hstr, hmod⟩ : symtabSize ≠ 0 ∧ strtabSize ≠ 0 ∧ symtabSize % 16 = 0 := by
      simpa only [not_or, not_not] using hrefused
    rw [roundUp8_entries hsym hmod]
    by_cases hsize : 0 ≤ rtsymCacheSize symtabSize (roundUp8 strtabSize)
    · rw [if_neg (not_not.mpr ⟨rfl, rfl, hsize⟩)]
      have hnum := rtsymNum_pos hsym hmod
      constructor
      · -- a device that answers everything with 0 shows that the sizes do not wrap
        intro h
        by_cases hsmall : rtsymCacheSize symtabSize (roundUp8 strtabSize) < 24
        · rw [if_pos hsmall] at h
          exact absurd rfl h
        · -- the device answers both reads
          rw [if_neg hsmall] at h
          have hread := h.2 (.ok fun _ => 0)
          dsimp only at hread
          split at hread
          next _ => exact absurd rfl hread
          next hfit =>
            have hread := hread.2 (.ok fun _ => 0)
            have hround : roundUp8 strtabSize ≠ 0 := by
              intro hzero
              rw [hzero] at hread
              exact hread (congrArg _ (rtsymEntries_zero hnum))
            refine .inr (.inr (.inr (.inr ⟨?_, (needs_le_iff hsize).mp (not_lt.mp hfit)⟩)))
            exact UInt32.not_lt.mp (mt (roundUp8_eq_zero_iff hstr).mpr hround)
      · rintro (h | h | h | h | ⟨hstrtab, hneeds⟩)
        · exact absurd h hsym
        · exact absurd h hstr
        · exact absurd hmod h
        · exact absurd h (Int32.not_lt.mpr hsize)
        · -- the block has room for both tables, and there is a name
          have hfit := (needs_le_iff hsize).mpr hneeds
          have hround : roundUp8 strtabSize ≠ 0 :=
            mt (roundUp8_eq_zero_iff hstr).mp (UInt32.not_lt.mpr hstrtab)
          rw [if_neg (rtsymCacheSize_not_small hfit)]
          refine ⟨trivial, fun x => ?_⟩
          change Except ℤ (Fin _ → UInt8) at x
          cases x with
          | error err => exact Option.some_ne_none _
          | ok rtsymtab =>
            dsimp only
            rw [if_neg (not_lt.mpr hfit)]
            refine ⟨trivial, fun x => ?_⟩
            change Except ℤ (Fin _ → UInt8) at x
            cases x with
            | error err => exact Option.some_ne_none _
            | ok strtab =>
              dsimp only
              rw [rtsymEntries_eq hround]
              exact Option.some_ne_none _
    · rw [if_pos fun h => hsize h.2.2]
      exact iff_of_true (Option.some_ne_none _)
        (.inr (.inr (.inr (.inl (Int32.not_le.mp hsize)))))

end Sizes

end NfpUdpEcho
