import NfpUdpEcho.Errno
import NfpUdpEcho.Framework.LittleEndian
import NfpUdpEcho.Framework.Strings
import NfpUdpEcho.NfpCore.Resource

/-!
# The table of the hardware

`user/nfpcore/nfp_hwinfo.c`: a table of keys and values that the device has in its memory. The
table is copied to a buffer with a zero behind it, its check is compared, and
`nfp_hwinfo_db_walk` goes once through the pairs. `nfp_hwinfo_lookup` goes through them without
looking where it is.

The offsets are those from the begin of the buffer. A function that reads outside the buffer has
the result `none`.

`Strings.Packed` is what the walk and the lookup have in common: a table at a place is a list of
pairs that a reader finds there. `walkFrom_eq_zero_iff` says that the walk accepts a place exactly
if there is one, and `lookupFrom_of_packed` that the lookup finds in it what a list would. So a
table that has passed the check is known to the lookup, though the lookup checks nothing itself.

In the other direction, `hwinfoTable` builds a table from pairs, with the check behind it, and the
round trip goes through the exact condition. The tables that make the walk leave the buffer are
built as well: one whose last string has no zero before the end (`exists_overrun`).
-/

namespace NfpUdpEcho

open Access Errno LittleEndian Strings

/-- `NFP_HWINFO_VERSION_2`. -/
def nfpHwinfoVersion2 : UInt32 :=
  ('H'.val <<< 24) ||| ('I'.val <<< 16) ||| ((2 : UInt32) <<< 8)

/-- `NFP_HWINFO_VERSION_UPDATING`. -/
def nfpHwinfoVersionUpdating : UInt32 := 1

/-- `HWINFO_SIZE_MIN`. -/
def hwinfoSizeMin : ℕ := 0x100

/-- `version` of `struct nfp_hwinfo`. -/
def hwinfoVersion (db : List UInt8) : UInt32 := u32OfBytes (db.take 4)

/-- `size` of `struct nfp_hwinfo`. -/
def hwinfoSize (db : List UInt8) : UInt32 := u32OfBytes ((db.drop 4).take 4)

/-- The offset of `data` in `struct nfp_hwinfo`. -/
def hwinfoData : ℕ := 16

/-- The loop of `nfp_hwinfo_db_walk`. -/
def walkFrom (db : List UInt8) (stop key : ℕ) : Option ℤ :=
  if h : key < db.length then
    if db[key] ≠ 0 ∧ key < stop then
      match strlen db key with
      | none => none
      | some n =>
        if key + n + 1 ≥ stop then some (-EINVAL)
        else
          match strlen db (key + n + 1) with
          | none => none
          | some m =>
            if key + n + 1 + m + 1 > stop then some (-EINVAL)
            else walkFrom db stop (key + n + 1 + m + 1)
    else some 0
  else none
termination_by db.length - key
decreasing_by omega

/-- `nfp_hwinfo_db_walk`. -/
def nfpHwinfoDbWalk (db : List UInt8) (size : UInt32) : Option ℤ :=
  walkFrom db (hwinfoData + size.toNat) hwinfoData

/-- `nfp_hwinfo_db_validate`. -/
def nfpHwinfoDbValidate (db : List UInt8) (len : UInt32) : Option ℤ :=
  if hwinfoSize db > len then some (-EINVAL)
  else
    -- a size below 4 wraps
    let size := hwinfoSize db - 4
    if size.toNat + 4 ≤ db.length then
      if nfpCrc32Posix (db.take size.toNat) ≠ u32OfBytes ((db.drop size.toNat).take 4) then
        some (-EINVAL)
      else nfpHwinfoDbWalk db size
    else none

/-- The loop of `nfp_hwinfo_lookup`. -/
def lookupFrom (db : List UInt8) (stop : ℕ) (lookup : ZString UInt8) (key : ℕ) :
    Option (Option ℕ) :=
  if h : key < db.length then
    if db[key] ≠ 0 ∧ key < stop then
      match strlen db key with
      | none => none
      | some n =>
        if stringAt db key = lookup then some (some (key + n + 1))
        else
          match strlen db (key + n + 1) with
          | none => none
          | some m => lookupFrom db stop lookup (key + n + 1 + m + 1)
    else some none
  else none
termination_by db.length - key
decreasing_by omega

/-- `nfp_hwinfo_lookup`, whose result is the offset of the value. -/
def nfpHwinfoLookup (db : List UInt8) (lookup : ZString UInt8) : Option (Option ℕ) :=
  lookupFrom db (hwinfoData + (hwinfoSize db).toNat - 4) lookup hwinfoData

/-! ### Fetching -/

/-- `NFP_RESOURCE_NFP_HWINFO`. -/
def nfpResourceNfpHwinfo : List UInt8 := "nfp.info".toUTF8.toList

/-- `nfp_hwinfo_is_updating`. -/
def nfpHwinfoIsUpdating (hwinfo : List UInt8) : Bool :=
  hwinfoVersion hwinfo &&& nfpHwinfoVersionUpdating != 0

/-- `nfp_hwinfo_try_fetch`. `malloc` is whether there is memory for the resource and for the
table. The resource is released before the table is read. -/
def nfpHwinfoTryFetch (calloc : ℕ → Bool) (malloc : Bool × Bool) (waits : ℕ)
    (host : NfpCppHost) : CppProg (Outcome (Option (List UInt8))) :=
  (nfpResourceAcquire calloc malloc.1 waits nfpResourceNfpHwinfo host).andThen fun
    | none, host => .ret (.done none host)
    | some res, host =>
      (nfpResourceRelease res host).andThen fun _ host =>
        if res.size.toNat < hwinfoSizeMin then .ret (.done none host)
        else if malloc.2 then
          .access (.read res.cppId res.addr res.size.toNat) fun
            | .error _ => .ret (.done none host)
            | .ok bytes =>
              let db := List.ofFn bytes
              if nfpHwinfoIsUpdating db then .ret (.done none host)
              else if hwinfoVersion db ≠ nfpHwinfoVersion2 then .ret (.done none host)
              else .ret (.done (some (db ++ [0])) host)
        else .ret (.done none host)

/-- The loop of `nfp_hwinfo_fetch`, with `n` rounds left after the next. -/
def hwinfoFetchLoop (calloc : ℕ → Bool) (malloc : ℕ → Bool × Bool) (waits : ℕ) :
    ℕ → NfpCppHost → CppProg (Outcome (Option (List UInt8)))
  | n, host =>
    (nfpHwinfoTryFetch calloc (malloc n) waits host).andThen fun db host =>
      if db ≠ none then .ret (.done db host)
      else
        match n with
        | 0 => .ret (.done none host)
        | n + 1 => hwinfoFetchLoop calloc malloc waits n host

/-- `nfp_hwinfo_fetch`. It gives up when `count++ > 200`. -/
def nfpHwinfoFetch (calloc : ℕ → Bool) (malloc : ℕ → Bool × Bool) (waits : ℕ)
    (host : NfpCppHost) : CppProg (Outcome (Option (List UInt8))) :=
  hwinfoFetchLoop calloc malloc waits 201 host

/-- `nfp_hwinfo_read`. -/
def nfpHwinfoRead (calloc : ℕ → Bool) (malloc : ℕ → Bool × Bool) (waits : ℕ)
    (host : NfpCppHost) : CppProg (Outcome (Option (Option (List UInt8)))) :=
  (nfpHwinfoFetch calloc malloc waits host).andThen fun db host =>
    .ret (.done (match db with
      | none => some none
      | some db =>
        (nfpHwinfoDbValidate db (db.length - 1).toUInt32).map fun err =>
          if err ≠ 0 then none else some db) host)

/-! ### What the loops read -/

section Loops

variable {db : List UInt8} {stop key : ℕ} {s : ZString UInt8}
  {ps : List (ZString UInt8 × ZString UInt8)}

/-- A string that is not empty. -/
theorem chars_ne_nil (h : key < db.length) (hkey : db[key] ≠ 0) (hk : Holds db key s) :
    s.chars ≠ [] := by
  obtain ⟨rest, hk⟩ := hk
  intro hnil
  rw [hnil, List.nil_append, List.drop_eq_getElem_cons h] at hk
  exact hkey (List.cons.inj hk).1

/-- The walk ends well if the buffer has a table. -/
theorem walkFrom_eq_zero_iff : walkFrom db stop key = some 0 ↔ ∃ ps, Packed db stop key ps := by
  constructor
  · -- the walk ends with 0 where the rest is empty, so each round before is a pair
    intro h
    fun_induction walkFrom db stop key with
    | case1 key hlt hcell hn => cases h
    | case2 key hlt hcell n hn hval => exact absurd (Option.some.inj h) (by decide)
    | case3 key hlt hcell n hn hval hm => cases h
    | case4 key hlt hcell n hn hval m hm hnext => exact absurd (Option.some.inj h) (by decide)
    | case5 key hlt hcell n hn hval m hm hnext ih =>
      obtain ⟨ps, hps⟩ := ih h
      obtain ⟨hk, rfl⟩ := holds_of_strlen hn
      obtain ⟨hv, rfl⟩ := holds_of_strlen hm
      exact ⟨_, .pair (chars_ne_nil hlt hcell.1 hk) hk hv (Nat.not_lt.mp hnext) hps⟩
    | case6 key hlt hcell =>
      by_cases hzero : db[key] = 0
      · exact ⟨[], .empty (by rw [List.getElem?_eq_getElem hlt, hzero])⟩
      · exact ⟨[], .stop (Nat.not_lt.mp fun hstop => hcell ⟨hzero, hstop⟩) hlt⟩
    | case7 key hlt => cases h
  · -- and a pair that is packed has the lengths that the round finds
    rintro ⟨ps, h⟩
    induction h with
    | empty hzero =>
      obtain ⟨hlt, hcell⟩ := List.getElem?_eq_some_iff.mp hzero
      rw [walkFrom, dif_pos hlt, if_neg fun h => h.1 hcell]
    | stop hstop hlt => rw [walkFrom, dif_pos hlt, if_neg fun h => Nat.not_lt.mpr hstop h.2]
    | @pair key k v ps hne hk hv hle _ ih =>
      obtain ⟨x, hx, hcell⟩ := hk.head hne
      obtain ⟨hlt, rfl⟩ := List.getElem?_eq_some_iff.mp hcell
      rw [walkFrom, dif_pos hlt, if_pos ⟨hx, by omega⟩, hk.strlen]
      dsimp only
      rw [if_neg (by omega), hv.strlen]
      dsimp only
      rw [if_neg (by omega), ih]

/-- The value of the first pair with the key. -/
theorem lookupFrom_of_packed (h : Packed db stop key ps) (lookup : ZString UInt8) :
    ∃ val, lookupFrom db stop lookup key = some val ∧
      val.map (stringAt db) = ps.lookup lookup := by
  induction h with
  | empty hzero =>
    obtain ⟨hlt, hcell⟩ := List.getElem?_eq_some_iff.mp hzero
    refine ⟨none, ?_, rfl⟩
    rw [lookupFrom, dif_pos hlt, if_neg fun h => h.1 hcell]
  | stop hstop hlt =>
    refine ⟨none, ?_, rfl⟩
    rw [lookupFrom, dif_pos hlt, if_neg fun h => Nat.not_lt.mpr hstop h.2]
  | @pair key k v ps hne hk hv hle _ ih =>
    obtain ⟨x, hx, hcell⟩ := hk.head hne
    obtain ⟨hlt, rfl⟩ := List.getElem?_eq_some_iff.mp hcell
    rw [lookupFrom, dif_pos hlt, if_pos ⟨hx, by omega⟩, hk.strlen]
    dsimp only
    -- the first pair with the key ends the loop
    by_cases hkey : k = lookup
    · refine ⟨_, if_pos (hk.stringAt.trans hkey), ?_⟩
      rw [Option.map_some, hv.stringAt, List.lookup_cons, beq_iff_eq.mpr hkey.symm]
    · rw [if_neg fun h => hkey (hk.stringAt.symm.trans h), hv.strlen, List.lookup_cons,
        beq_eq_false_iff_ne.mpr (Ne.symm hkey)]
      exact ih

/-- The walk stays in a buffer that goes on behind `stop`. -/
theorem walkFrom_ne_none (hlast : db.getLast? = some 0) (hstop : stop < db.length)
    (hkey : key < db.length) : walkFrom db stop key ≠ none := by
  -- the key is always in the buffer: a round checks that what it goes on with is at most `stop`
  fun_induction walkFrom db stop key with
  | case1 key hlt hcell hn =>
    obtain ⟨n, hsome⟩ := exists_strlen hlast hlt
    exact absurd (hn.symm.trans hsome) nofun
  | case2 key hlt hcell n hn hval => exact nofun
  | case3 key hlt hcell n hn hval hm =>
    have hin : key + n + 1 < db.length := lt_trans (Nat.not_le.mp hval) hstop
    obtain ⟨m, hsome⟩ := exists_strlen hlast hin
    exact absurd (hm.symm.trans hsome) nofun
  | case4 key hlt hcell n hn hval m hm hnext => exact nofun
  | case5 key hlt hcell n hn hval m hm hnext ih =>
    exact ih (lt_of_le_of_lt (Nat.not_lt.mp hnext) hstop)
  | case6 key hlt hcell => exact nofun
  | case7 key hlt => exact absurd hkey hlt

/-- A value that goes up to the end of the buffer. -/
theorem walkFrom_eq_none {k v : ZString UInt8} (hne : k.chars ≠ []) (hk : Holds db key k)
    (hv : Holds db (key + k.chars.length + 1) v)
    (hend : key + k.chars.length + 1 + v.chars.length + 1 = db.length) (hstop : db.length ≤ stop) :
    walkFrom db stop key = none := by
  obtain ⟨x, hx, hcell⟩ := hk.head hne
  obtain ⟨hlt, rfl⟩ := List.getElem?_eq_some_iff.mp hcell
  rw [walkFrom, dif_pos hlt, if_pos ⟨hx, by omega⟩, hk.strlen]
  dsimp only
  rw [if_neg (by omega), hv.strlen]
  dsimp only
  rw [if_neg (by omega), walkFrom, dif_neg (by omega)]

end Loops

/-! ### The tables that are accepted -/

section Validate

variable {db : List UInt8} {len : UInt32}

/-- The check, with the pairs as the walk finds them. -/
theorem validate_packed_iff : nfpHwinfoDbValidate db len = some 0 ↔
    hwinfoSize db ≤ len ∧ (hwinfoSize db - 4).toNat + 4 ≤ db.length ∧
      nfpCrc32Posix (db.take (hwinfoSize db - 4).toNat) =
        u32OfBytes ((db.drop (hwinfoSize db - 4).toNat).take 4) ∧
      ∃ ps, Packed db (hwinfoData + (hwinfoSize db - 4).toNat) hwinfoData ps := by
  -- every check that fails returns an error, in the order of the source
  have herr : (some (-EINVAL) : Option ℤ) ≠ some 0 := by decide
  unfold nfpHwinfoDbValidate
  dsimp only
  by_cases hlen : hwinfoSize db > len
  · rw [if_pos hlen]
    exact iff_of_false herr fun h => absurd h.1 (UInt32.not_le.mpr hlen)
  · rw [if_neg hlen]
    by_cases hin : (hwinfoSize db - 4).toNat + 4 ≤ db.length
    · rw [if_pos hin]
      by_cases hcrc : nfpCrc32Posix (db.take (hwinfoSize db - 4).toNat) =
          u32OfBytes ((db.drop (hwinfoSize db - 4).toNat).take 4)
      · rw [if_neg (not_not.mpr hcrc), nfpHwinfoDbWalk, walkFrom_eq_zero_iff]
        exact ⟨fun h => ⟨UInt32.not_lt.mp hlen, hin, hcrc, h⟩, fun h => h.2.2.2⟩
      · rw [if_pos hcrc]
        exact iff_of_false herr fun h => hcrc h.2.2.1
    · rw [if_neg hin]
      exact iff_of_false nofun fun h => hin h.2.1

/-- **The tables that are accepted** have the right check, and what is behind the header is pairs
that end at an empty key or with the size. -/
theorem nfpHwinfoDbValidate_iff : nfpHwinfoDbValidate db len = some 0 ↔
    hwinfoSize db ≤ len ∧ (hwinfoSize db - 4).toNat + 4 ≤ db.length ∧
      nfpCrc32Posix (db.take (hwinfoSize db - 4).toNat) =
        u32OfBytes ((db.drop (hwinfoSize db - 4).toNat).take 4) ∧
      ∃ ps rest, db.drop hwinfoData = encode ps ++ rest ∧ (∀ p ∈ ps, p.1.chars ≠ []) ∧
        (ps ≠ [] → (encode ps).length ≤ (hwinfoSize db - 4).toNat) ∧
        (rest.head? = some 0 ∨ rest ≠ [] ∧ (hwinfoSize db - 4).toNat ≤ (encode ps).length) := by
  rw [validate_packed_iff]
  refine and_congr_right fun _ => and_congr_right fun _ => and_congr_right fun _ => ?_
  refine exists_congr fun ps => packed_iff.trans (exists_congr fun rest => ?_)
  simp only [Nat.add_le_add_iff_left]

/-- The walk and the lookup stop at the same place. -/
theorem hwinfoStop_eq {size : UInt32} (hsize : 4 ≤ size) :
    hwinfoData + (size - 4).toNat = hwinfoData + size.toNat - 4 := by
  have hle : (4 : UInt32).toNat ≤ size.toNat := UInt32.le_iff_toNat_le.mp hsize
  rw [UInt32.toNat_sub_of_le _ _ hsize]
  exact (Nat.add_sub_assoc hle _).symm

/-- The lookups in an accepted table. -/
theorem lookup_of_validate (hsize : 4 ≤ hwinfoSize db)
    (h : nfpHwinfoDbValidate db len = some 0) :
    ∃ ps rest, db.drop hwinfoData = encode ps ++ rest ∧ (∀ p ∈ ps, p.1.chars ≠ []) ∧
      ∀ lookup, ∃ val, nfpHwinfoLookup db lookup = some val ∧
        val.map (stringAt db) = ps.lookup lookup := by
  obtain ⟨-, -, -, ps, hps⟩ := validate_packed_iff.mp h
  -- the lookup computes the end in another order, which is the same from 4 on
  obtain ⟨rest, hdrop, hkeys, -⟩ := packed_iff.mp hps
  refine ⟨ps, rest, hdrop, hkeys, fun lookup => ?_⟩
  rw [hwinfoStop_eq hsize] at hps
  exact lookupFrom_of_packed hps lookup

end Validate

/-! ### Tables that are built -/

/-- A table with its header. -/
def hwinfoBytes (version size limit resv : UInt32) (data : List UInt8) : List UInt8 :=
  u32Bytes version ++ (u32Bytes size ++ (u32Bytes limit ++ (u32Bytes resv ++ data)))

section Build

variable {version size limit resv : UInt32} {data data' : List UInt8}

/-- Four words, and the data. -/
theorem length_hwinfoBytes :
    (hwinfoBytes version size limit resv data).length = hwinfoData + data.length := by
  simp only [hwinfoBytes, List.length_append, length_u32Bytes, hwinfoData]
  omega

/-- The size is the second word. -/
theorem hwinfoSize_hwinfoBytes : hwinfoSize (hwinfoBytes version size limit resv data) = size := by
  rw [hwinfoSize, hwinfoBytes, List.drop_left' (length_u32Bytes _),
    List.take_left' (length_u32Bytes _), u32OfBytes_u32Bytes]

/-- The version is the first. -/
theorem hwinfoVersion_hwinfoBytes :
    hwinfoVersion (hwinfoBytes version size limit resv data) = version := by
  rw [hwinfoVersion, hwinfoBytes, List.take_left' (length_u32Bytes _), u32OfBytes_u32Bytes]

/-- More data comes behind. -/
theorem hwinfoBytes_append : hwinfoBytes version size limit resv (data ++ data') =
    hwinfoBytes version size limit resv data ++ data' := by
  simp only [hwinfoBytes, List.append_assoc]

/-- The data is behind the words. -/
theorem drop_hwinfoBytes : (hwinfoBytes version size limit resv data).drop hwinfoData = data := by
  have hheader : (hwinfoBytes version size limit resv []).length = hwinfoData :=
    length_hwinfoBytes
  rw [← List.nil_append data, hwinfoBytes_append, List.drop_left' hheader, List.nil_append]

/-- The check of a table whose bytes before the check are `data`. -/
theorem check_hwinfoBytes {rest : List UInt8} {crc : UInt32}
    (hsize : (size - 4).toNat = hwinfoData + data.length)
    {db : List UInt8}
    (hdb : db = hwinfoBytes version size limit resv (data ++ (u32Bytes crc ++ rest))) :
    (size - 4).toNat + 4 ≤ db.length ∧
      db.take (size - 4).toNat = hwinfoBytes version size limit resv data ∧
        u32OfBytes ((db.drop (size - 4).toNat).take 4) = crc := by
  have hprefix : (hwinfoBytes version size limit resv data).length = (size - 4).toNat :=
    length_hwinfoBytes.trans hsize.symm
  refine ⟨?_, ?_, ?_⟩
  · rw [hdb, length_hwinfoBytes, hsize]
    simp only [List.length_append, length_u32Bytes]
    omega
  · rw [hdb, hwinfoBytes_append, List.take_left' hprefix]
  · rw [hdb, hwinfoBytes_append, List.drop_left' hprefix, List.take_left' (length_u32Bytes _),
      u32OfBytes_u32Bytes]

/-- The size of a table of the pairs `ps`, with the empty key and the check behind them. -/
def hwinfoTableSize (ps : List (ZString UInt8 × ZString UInt8)) : UInt32 :=
  (hwinfoData + (encode ps).length + 5).toUInt32

/-- The header, the pairs and the empty key. -/
def hwinfoBody (limit resv : UInt32) (ps : List (ZString UInt8 × ZString UInt8)) : List UInt8 :=
  hwinfoBytes nfpHwinfoVersion2 (hwinfoTableSize ps) limit resv (encode ps ++ [0])

/-- The table, and what else is in the buffer. -/
def hwinfoTable (limit resv : UInt32) (ps : List (ZString UInt8 × ZString UInt8))
    (rest : List UInt8) : List UInt8 :=
  hwinfoBytes nfpHwinfoVersion2 (hwinfoTableSize ps) limit resv
    ((encode ps ++ [0]) ++ (u32Bytes (nfpCrc32Posix (hwinfoBody limit resv ps)) ++ rest))

variable {ps : List (ZString UInt8 × ZString UInt8)} {rest : List UInt8}

/-- The size leaves room for the check. -/
theorem four_le_hwinfoTableSize (hlen : hwinfoData + (encode ps).length + 5 < 2 ^ 32) :
    4 ≤ hwinfoTableSize ps := by
  rw [UInt32.le_iff_toNat_le, hwinfoTableSize, UInt32.toNat_ofNat_of_lt' hlen]
  exact Nat.le_add_left 4 _

/-- What the check is taken of: the words, the pairs and an empty key. -/
theorem hwinfoTableSize_sub (hlen : hwinfoData + (encode ps).length + 5 < 2 ^ 32) :
    (hwinfoTableSize ps - 4).toNat = hwinfoData + (encode ps ++ [0]).length := by
  rw [UInt32.toNat_sub_of_le _ _ (four_le_hwinfoTableSize hlen), hwinfoTableSize,
    UInt32.toNat_ofNat_of_lt' hlen, List.length_append]
  rfl

/-- A reader finds the pairs. -/
theorem packed_hwinfoTable (hkeys : ∀ p ∈ ps, p.1.chars ≠ [])
    (hlen : hwinfoData + (encode ps).length + 5 < 2 ^ 32) :
    Packed (hwinfoTable limit resv ps rest) (hwinfoData + (hwinfoTableSize ps - 4).toNat)
      hwinfoData ps := by
  refine packed_iff.mpr
    ⟨0 :: (u32Bytes (nfpCrc32Posix (hwinfoBody limit resv ps)) ++ rest), ?_, hkeys, fun _ => ?_,
      .inl rfl⟩
  · rw [hwinfoTable, drop_hwinfoBytes, List.append_assoc]
    rfl
  · rw [hwinfoTableSize_sub hlen, List.length_append]
    omega

/-- The table that is built is accepted. -/
theorem validate_hwinfoTable {len : UInt32} (hkeys : ∀ p ∈ ps, p.1.chars ≠ [])
    (hlen : hwinfoData + (encode ps).length + 5 ≤ len.toNat) :
    nfpHwinfoDbValidate (hwinfoTable limit resv ps rest) len = some 0 := by
  have hlt := lt_of_le_of_lt hlen len.toNat_lt
  have htable : hwinfoTable limit resv ps rest = hwinfoBytes nfpHwinfoVersion2
      (hwinfoTableSize ps) limit resv ((encode ps ++ [0]) ++ (u32Bytes _ ++ rest)) := rfl
  obtain ⟨hin, htake, hcheck⟩ := check_hwinfoBytes (hwinfoTableSize_sub hlt) htable
  have hsize : hwinfoSize (hwinfoTable limit resv ps rest) = hwinfoTableSize ps :=
    hwinfoSize_hwinfoBytes
  refine validate_packed_iff.mpr ⟨?_, ?_, ?_, ps, ?_⟩ <;> rw [hsize]
  · rw [UInt32.le_iff_toNat_le, hwinfoTableSize, UInt32.toNat_ofNat_of_lt' hlt]
    exact hlen
  · exact hin
  · rw [htake, hcheck]
    rfl
  · exact packed_hwinfoTable hkeys hlt

/-- **A table is read back**: with the layout and the check of the header, the pairs are accepted,
whatever is behind the check, and each is found. -/
theorem hwinfoTable_roundTrip (limit resv len : UInt32)
    (ps : List (ZString UInt8 × ZString UInt8)) (rest : List UInt8)
    (hkeys : ∀ p ∈ ps, p.1.chars ≠ []) (hlen : hwinfoData + (encode ps).length + 5 ≤ len.toNat) :
    nfpHwinfoDbValidate (hwinfoTable limit resv ps rest) len = some 0 ∧ ∀ lookup, ∃ val,
      nfpHwinfoLookup (hwinfoTable limit resv ps rest) lookup = some val ∧
        val.map (stringAt (hwinfoTable limit resv ps rest)) = ps.lookup lookup := by
  have hlt := lt_of_le_of_lt hlen len.toNat_lt
  refine ⟨validate_hwinfoTable hkeys hlen, fun lookup => ?_⟩
  have hsize : hwinfoSize (hwinfoTable limit resv ps rest) = hwinfoTableSize ps :=
    hwinfoSize_hwinfoBytes
  have hpacked : Packed (hwinfoTable limit resv ps rest) _ hwinfoData ps :=
    packed_hwinfoTable hkeys hlt
  rw [hwinfoStop_eq (four_le_hwinfoTableSize hlt), ← hsize] at hpacked
  exact lookupFrom_of_packed hpacked lookup

/-- A key and a value, `me` and `40`. -/
def meTable : List (ZString UInt8 × ZString UInt8) :=
  [(⟨[109, 101], by decide⟩, ⟨[52, 48], by decide⟩)]

/-- The value of `me` is `40`. -/
theorem hwinfoTable_roundTrip_me : ∃ val,
    nfpHwinfoLookup (hwinfoTable 256 0 meTable [0]) ⟨[109, 101], by decide⟩ = some val ∧
      val.map (stringAt (hwinfoTable 256 0 meTable [0])) = some ⟨[52, 48], by decide⟩ :=
  (hwinfoTable_roundTrip 256 0 256 meTable [0] (by decide) (by decide)).2 _

end Build

/-! ### The buffers that are fetched -/

/-- A buffer with `n` bytes of the device, as `nfp_hwinfo_try_fetch` gives it back. -/
structure Fetched (n : ℕ) (db : List UInt8) : Prop where
  length : db.length = n + 1
  last : db.getLast? = some 0
  version : hwinfoVersion db = nfpHwinfoVersion2
  min : hwinfoSizeMin ≤ n

section Read

open CppProg

variable {calloc : ℕ → Bool} {waits : ℕ} {host : NfpCppHost}

/-- An attempt that fetches a table has a zero behind it. -/
theorem ends_nfpHwinfoTryFetch (malloc : Bool × Bool) :
    Ends (fun r => ∀ db, r = some db → ∃ n, Fetched n db)
      (nfpHwinfoTryFetch calloc malloc waits host) := by
  refine ends_andThen (ends_true _) fun res host _ => ?_
  cases res with
  | none => exact ends_done nofun
  | some res =>
    refine ends_andThen (ends_true _) fun _ host _ => ?_
    dsimp only
    split
    next _ => exact ends_done nofun
    next hmin =>
      split
      · refine ⟨trivial, fun x => ?_⟩
        change Except ℤ (Fin _ → UInt8) at x
        cases x with
        | error err => exact ends_done nofun
        | ok bytes =>
          dsimp only
          split
          · exact ends_done nofun
          · split
            next _ => exact ends_done nofun
            next hversion =>
              refine ends_done fun db hdb => ?_
              obtain rfl := Option.some.inj hdb
              have hlen : (List.ofFn bytes).length = res.size.toNat := List.length_ofFn
              -- the version is read before the zero is put behind the bytes
              have hfour : 4 ≤ (List.ofFn bytes).length := by
                rw [hlen]
                exact le_trans (by decide) (not_lt.mp hmin)
              refine ⟨res.size.toNat, ?_, List.getLast?_concat, ?_, not_lt.mp hmin⟩
              · rw [List.length_append, hlen]
                rfl
              · rw [hwinfoVersion, List.take_append_of_le_length hfour]
                exact not_not.mp hversion
      · exact ends_done nofun

/-- So has the table that is fetched in the end. -/
theorem ends_hwinfoFetchLoop (malloc : ℕ → Bool × Bool) (n : ℕ) :
    Ends (fun r => ∀ db, r = some db → ∃ n, Fetched n db)
      (hwinfoFetchLoop calloc malloc waits n host) := by
  induction n generalizing host with
  | zero =>
    refine ends_andThen (ends_nfpHwinfoTryFetch _) fun r host hr => ?_
    split
    · exact ends_done hr
    · exact ends_done nofun
  | succ n ih =>
    refine ends_andThen (ends_nfpHwinfoTryFetch _) fun r host hr => ?_
    split
    · exact ends_done hr
    · exact ih

/-- **A table that `nfp_hwinfo_read` gives back** is pairs, whatever the device has answered, and
every lookup in it stays in the buffer and gives the value of the first pair with the key. -/
theorem nfpHwinfoRead_lookup (calloc : ℕ → Bool) (malloc : ℕ → Bool × Bool) (waits : ℕ)
    (host : NfpCppHost) :
    Ends (fun r => ∀ db, r = some (some db) → (∃ n, Fetched n db) ∧ (4 ≤ hwinfoSize db →
        ∃ ps rest, db.drop hwinfoData = encode ps ++ rest ∧ (∀ p ∈ ps, p.1.chars ≠ []) ∧
          ∀ lookup, ∃ val, nfpHwinfoLookup db lookup = some val ∧
            val.map (stringAt db) = ps.lookup lookup))
      (nfpHwinfoRead calloc malloc waits host) := by
  refine ends_andThen (ends_hwinfoFetchLoop _ _) fun r host hr => ends_done fun db hdb => ?_
  cases r with
  | none => cases Option.some.inj hdb
  | some fetched =>
    obtain ⟨err, hvalid, he⟩ := Option.map_eq_some_iff.mp hdb
    by_cases herr : err = 0
    · rw [if_neg (not_not.mpr herr)] at he
      obtain rfl := Option.some.inj he
      exact ⟨hr _ rfl, fun hsize => lookup_of_validate hsize (herr ▸ hvalid)⟩
    · rw [if_pos herr] at he
      cases he

end Read

/-! ### Reading outside the buffer -/

section Bounds

variable {n : ℕ} {size : UInt32}

/-- A table of `n` bytes with a zero behind it may be fetched. -/
theorem fetched_hwinfoBytes {limit resv : UInt32} {data : List UInt8} (hmin : hwinfoSizeMin ≤ n)
    (hlen : hwinfoData + data.length = n) :
    Fetched n (hwinfoBytes nfpHwinfoVersion2 size limit resv (data ++ [0])) where
  length := by rw [hwinfoBytes_append, List.length_append, length_hwinfoBytes, hlen]; rfl
  last := by rw [hwinfoBytes_append, List.getLast?_concat]
  version := hwinfoVersion_hwinfoBytes
  min := hmin

/-- The bytes between the header and the check of a table that runs over: the key `01` and the
begin of its value. -/
def overrunText (size : UInt32) : List UInt8 := 1 :: 0 :: List.replicate (size.toNat - 22) 1

/-- A check without zeros. -/
def overrunCheck : UInt32 := 0x01010101

/-- A table whose value goes on through the check to the end of the buffer. -/
def overrunTable (n : ℕ) (size limit : UInt32) : List UInt8 :=
  hwinfoBytes nfpHwinfoVersion2 size limit 0
    (overrunText size ++ (u32Bytes overrunCheck ++ (List.replicate (n - size.toNat) 1 ++ [0])))

/-- It is put together like any other table. -/
theorem overrunTable_eq {limit : UInt32} (hbig : 22 ≤ size.toNat) (hle : size.toNat ≤ n) :
    overrunTable n size limit = hwinfoBytes nfpHwinfoVersion2 size limit 0
      ((1 :: 0 :: List.replicate (n - 18) 1) ++ [0]) := by
  have hones : u32Bytes overrunCheck = List.replicate 4 1 := by decide
  have hsum : size.toNat - 22 + (4 + (n - size.toNat)) = n - 18 := by omega
  rw [overrunTable, overrunText, hones]
  simp only [List.cons_append, ← List.append_assoc, List.replicate_append_replicate]
  rw [hsum]

/-- The walk reads behind the buffer. -/
theorem walkFrom_overrunTable {limit : UInt32} {stop : ℕ} (hbig : 22 ≤ size.toNat)
    (hle : size.toNat ≤ n) (hstop : n < stop) :
    walkFrom (overrunTable n size limit) stop hwinfoData = none := by
  let k : ZString UInt8 := ⟨[1], by decide⟩
  let v : ZString UInt8 := ⟨List.replicate (n - 18) 1, fun h =>
    absurd (List.eq_of_mem_replicate h) (by decide)⟩
  have hdrop : (overrunTable n size limit).drop hwinfoData = k.chars ++ 0 :: (v.chars ++ [0]) := by
    rw [overrunTable_eq hbig hle, drop_hwinfoBytes]
    rfl
  have hlen : (overrunTable n size limit).length = n + 1 := by
    rw [overrunTable_eq hbig hle, length_hwinfoBytes]
    simp only [List.length_append, List.length_cons, List.length_replicate, List.length_nil,
      hwinfoData]
    omega
  refine walkFrom_eq_none (List.cons_ne_nil _ _) ⟨_, hdrop⟩ ⟨[], drop_behind hdrop⟩ ?_ ?_
  · rw [hlen]
    simp only [k, v, List.length_singleton, List.length_replicate, hwinfoData]
    omega
  · rw [hlen]
    exact hstop

/-- For these sizes there is a table that the walk leaves the buffer for. -/
theorem exists_overrun (hmin : hwinfoSizeMin ≤ n) (hn : n < 2 ^ 32) (hle : size.toNat ≤ n)
    (hover : n < size.toNat + 12) : ∃ db, Fetched n db ∧ hwinfoSize db = size ∧
      nfpHwinfoDbValidate db n.toUInt32 = none := by
  have hbig : 22 ≤ size.toNat := by
    unfold hwinfoSizeMin at hmin
    omega
  -- four bytes of the header give the table the check
  obtain ⟨limit, hlimit⟩ := exists_nfpCrc32Posix (u32Bytes nfpHwinfoVersion2 ++ u32Bytes size)
    (u32Bytes 0 ++ overrunText size) overrunCheck
  have hcrc : nfpCrc32Posix (hwinfoBytes nfpHwinfoVersion2 size limit 0 (overrunText size)) =
      overrunCheck := by
    rw [← hlimit, hwinfoBytes]
    simp only [List.append_assoc]
  have hsize : hwinfoSize (overrunTable n size limit) = size := hwinfoSize_hwinfoBytes
  have hsub : (size - 4).toNat = size.toNat - 4 :=
    UInt32.toNat_sub_of_le _ _ (UInt32.le_iff_toNat_le.mpr (le_trans (by decide) hbig))
  have htext : (size - 4).toNat = hwinfoData + (overrunText size).length := by
    simp only [hsub, overrunText, List.length_cons, List.length_replicate, hwinfoData]
    omega
  have htable : overrunTable n size limit = hwinfoBytes nfpHwinfoVersion2 size limit 0
      (overrunText size ++ (u32Bytes overrunCheck ++ _)) := rfl
  -- with the check the walk begins, and it leaves the buffer
  obtain ⟨hin, htake, hcheck⟩ := check_hwinfoBytes htext htable
  have hlen : n.toUInt32.toNat = n := UInt32.toNat_ofNat_of_lt' hn
  refine ⟨overrunTable n size limit, ?_, hsize, ?_⟩
  · rw [overrunTable_eq hbig hle]
    refine fetched_hwinfoBytes hmin ?_
    simp only [List.length_cons, List.length_replicate, hwinfoData]
    omega
  · rw [nfpHwinfoDbValidate, hsize, if_neg]
    · dsimp only
      rw [if_pos hin, htake, hcheck, if_neg (not_not.mpr hcrc), nfpHwinfoDbWalk, hsub]
      refine walkFrom_overrunTable hbig hle ?_
      rw [hwinfoData]
      omega
    · exact UInt32.not_lt.mpr (UInt32.le_iff_toNat_le.mpr (hle.trans_eq hlen.symm))

/-- **The sizes that are safe.** The check of the size lets through sizes with which the walk leaves
the buffer: for every one that is not 12 below the bytes that there are, there is a table. -/
theorem nfpHwinfoDbValidate_inBounds_iff (hmin : hwinfoSizeMin ≤ n) (hn : n + 1 < 2 ^ 32) :
    (∀ db, Fetched n db → hwinfoSize db = size → nfpHwinfoDbValidate db n.toUInt32 ≠ none) ↔
      n < size.toNat ∨ 4 ≤ size.toNat ∧ size.toNat + 12 ≤ n := by
  have hlen : n.toUInt32.toNat = n := UInt32.toNat_ofNat_of_lt' (lt_trans n.lt_succ_self hn)
  constructor
  · -- a size that is not safe is too close to the end, or less than the check takes
    intro h
    by_contra hbad
    obtain ⟨hle, hsafe⟩ := not_or.mp hbad
    have hle := Nat.not_lt.mp hle
    by_cases hfour : 4 ≤ size.toNat
    · have hover := Nat.not_le.mp fun h => hsafe ⟨hfour, h⟩
      obtain ⟨db, hdb, hsize, hnone⟩ := exists_overrun hmin (by omega) hle hover
      exact h db hdb hsize hnone
    · -- the size wraps
      have hwrap : (size - 4).toNat = 2 ^ 32 + size.toNat - 4 := by
        rw [UInt32.toNat_sub]
        have h4 : (4 : UInt32).toNat = 4 := rfl
        omega
      have hdata : hwinfoData + (List.replicate (n - hwinfoData) (0 : UInt8)).length = n := by
        rw [List.length_replicate]
        unfold hwinfoData
        unfold hwinfoSizeMin at hmin
        omega
      have hfetched : Fetched n (hwinfoBytes nfpHwinfoVersion2 size 0 0
          (List.replicate (n - hwinfoData) 0 ++ [0])) := fetched_hwinfoBytes hmin hdata
      refine h _ hfetched hwinfoSize_hwinfoBytes ?_
      rw [nfpHwinfoDbValidate, hwinfoSize_hwinfoBytes, if_neg, if_neg]
      · rw [hfetched.length, hwrap]
        omega
      · exact UInt32.not_lt.mpr (UInt32.le_iff_toNat_le.mpr (hle.trans_eq hlen.symm))
  · -- a size that is refused is not read with, and the others leave room for the header
    intro h db hdb hsize
    rw [nfpHwinfoDbValidate, hsize]
    by_cases hgt : size > n.toUInt32
    · rw [if_pos hgt]
      exact nofun
    · rw [if_neg hgt]
      have hle : size.toNat ≤ n :=
        (UInt32.le_iff_toNat_le.mp (UInt32.not_lt.mp hgt)).trans_eq hlen
      obtain hlt | ⟨hfour, hsafe⟩ := h
      · omega
      have hsub : (size - 4).toNat = size.toNat - 4 :=
        UInt32.toNat_sub_of_le _ _ (UInt32.le_iff_toNat_le.mpr hfour)
      dsimp only
      rw [if_pos (by rw [hdb.length, hsub]; omega)]
      split
      · exact nofun
      · refine walkFrom_ne_none hdb.last ?_ ?_
        · rw [hdb.length, hsub, hwinfoData]
          omega
        · rw [hdb.length, hwinfoData]
          omega

/-- The smallest buffer, with a size that is too close to its end. -/
theorem nfpHwinfoDbValidate_inBounds_iff_min :
    (∀ db, Fetched 256 db → hwinfoSize db = 250 → nfpHwinfoDbValidate db 256 ≠ none) ↔
      256 < (250 : UInt32).toNat ∨ 4 ≤ (250 : UInt32).toNat ∧ (250 : UInt32).toNat + 12 ≤ 256 :=
  nfpHwinfoDbValidate_inBounds_iff (by decide) (by decide)

end Bounds

end NfpUdpEcho
