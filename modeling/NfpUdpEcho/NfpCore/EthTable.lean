import Mathlib.Algebra.BigOperators.Fin
import NfpUdpEcho.Framework.LittleEndian
import NfpUdpEcho.NfpCore.NspProtocol

/-!
# The table of ports

`user/nfpcore/nfp_nsp_eth.c`. The NSP writes an entry for every channel of the MACs into a buffer;
the entries that have lanes are the ports. Each port is translated for itself, and then
`nfp_eth_calc_port_geometry` compares every two of them, for what they have in common of a
connector.

The table describes the entries (`EthTableOk`, `nfpEthTable_ok`), and they are what the NSP has
written for the command that asked for them (`ethReadPorts_served`).

The comparison is two nested loops that change the ports as they go. Its inner loop only adds to the
port of the outer one, and reads of the others what no round changes, their lanes and their label
(`Compared.same`). So the result has a closed form: each port is compared with all of them as they
were before (`comparedWith`, `compared_nfpEthCalcPortGeometry`), in whatever order. A port is
compared with itself too, which is why the lanes of a connector count its own.
-/

namespace NfpUdpEcho

open Access BitField ByteMem LittleEndian

/-! ### Entries

What the NSP writes, four words for an entry, little endian. -/

/-- `NSP_ETH_NBI_PORT_COUNT`. -/
def nspEthNbiPortCount : ℕ := 24

/-- `NSP_ETH_MAX_COUNT`. -/
def nspEthMaxCount : ℕ := 2 * nspEthNbiPortCount

/-- `enum nfp_eth_raw`: the words of an entry. -/
inductive NfpEthRaw where
  | port | state | mac | control
deriving DecidableEq

/-- Where a word stands in an entry. -/
def NfpEthRaw.word : NfpEthRaw → ℕ
  | .port => 0
  | .state => 1
  | .mac => 2
  | .control => 3

/-- `union eth_table_entry`. -/
abbrev EthTableEntry := NfpEthRaw → UInt64

/-- `sizeof(union eth_table_entry)`. -/
def ethTableEntrySize : ℕ := 32

/-- `NSP_ETH_TABLE_SIZE`. -/
def nspEthTableSize : ℕ := nspEthMaxCount * ethTableEntrySize

/-- `entries[i]`, where `entries` are the bytes. -/
def ethEntry (entries : List UInt8) (i : ℕ) : EthTableEntry := fun raw =>
  u64OfBytes ((entries.drop (i * ethTableEntrySize + raw.word * 8)).take 8)

/-- `mac_addr` of an entry. -/
def EthTableEntry.macAddr (src : EthTableEntry) (i : Fin 6) : UInt8 :=
  (src .mac >>> (8 * i.val).toUInt64).toUInt8

def nspEthPortLanes : UInt64 := genmaskUll 3 0
def nspEthPortIndex : UInt64 := genmaskUll 15 8
def nspEthPortLabel : UInt64 := genmaskUll 53 48
def nspEthPortPhylabel : UInt64 := genmaskUll 59 54
def nspEthPortFecSuppBaser : UInt64 := (1 : UInt64) <<< 60
def nspEthPortFecSuppRs : UInt64 := (1 : UInt64) <<< 61

def nspEthStateEnabled : UInt64 := (1 : UInt64) <<< 1
def nspEthStateTxEnabled : UInt64 := (1 : UInt64) <<< 2
def nspEthStateRxEnabled : UInt64 := (1 : UInt64) <<< 3
def nspEthStateRate : UInt64 := genmaskUll 11 8
def nspEthStateInterface : UInt64 := genmaskUll 19 12
def nspEthStateMedia : UInt64 := genmaskUll 21 20
def nspEthStateOvrdChng : UInt64 := (1 : UInt64) <<< 22
def nspEthStateAneg : UInt64 := genmaskUll 25 23
def nspEthStateFec : UInt64 := genmaskUll 27 26

/-! ### Ports -/

/-- `enum nfp_eth_rate`. -/
inductive NfpEthRate where
  | invalid | rate10M | rate100M | rate1G | rate10G | rate25G
deriving DecidableEq

/-- The numbers of `enum nfp_eth_rate`. -/
def NfpEthRate.code : NfpEthRate → UInt32
  | .invalid => 0
  | .rate10M => 1
  | .rate100M => 2
  | .rate1G => 3
  | .rate10G => 4
  | .rate25G => 5

/-- `nsp_eth_rate_tbl`. -/
def nspEthRateTbl : List (NfpEthRate × UInt32) :=
  [(.invalid, 0), (.rate10M, 10), (.rate100M, 100), (.rate1G, 1000), (.rate10G, 10000),
    (.rate25G, 25000)]

/-- `nfp_eth_rate2speed`. -/
def nfpEthRate2speed (rate : UInt32) : UInt32 :=
  ((nspEthRateTbl.find? fun r => r.1.code = rate).map Prod.snd).getD 0

/-- `struct nfp_eth_table_port`. -/
structure NfpEthTablePort where
  ethIndex : UInt32
  index : UInt32
  nbi : UInt32
  base : UInt32
  lanes : UInt32
  speed : UInt32
  interface : UInt32
  media : UInt32
  fec : UInt32
  aneg : UInt32
  macAddr : Fin 6 → UInt8
  labelPort : UInt8
  labelSubport : UInt8
  enabled : UInt32
  txEnabled : UInt32
  rxEnabled : UInt32
  overrideChanged : UInt32
  portType : UInt8
  portLanes : UInt32
  isSplit : Bool
  fecModesSupported : UInt32

/-- `NFP_FEC_AUTO | NFP_FEC_DISABLED`. -/
def nfpFecAutoDisabled : UInt32 := ((1 : UInt32) <<< 0) ||| ((1 : UInt32) <<< 3)

/-- `nfp_eth_copy_mac_reverse`. -/
def nfpEthCopyMacReverse (src : Fin 6 → UInt8) : Fin 6 → UInt8 := fun i => src i.rev

/-- The FEC modes at the end of `nfp_eth_port_translate`. -/
def fecModes (port : UInt64) : UInt32 :=
  let modes := (fieldGet nspEthPortFecSuppBaser port).toUInt32 <<< 1 |||
    (fieldGet nspEthPortFecSuppRs port).toUInt32 <<< 2
  if modes ≠ 0 then modes ||| nfpFecAutoDisabled else modes

/-- `nfp_eth_port_translate`, into a port that is zero. -/
def nfpEthPortTranslate (nsp : NfpNsp) (src : EthTableEntry) (index : UInt32) :
    NfpEthTablePort :=
  let port := src .port
  let state := src .state
  let lanes := (fieldGet nspEthPortLanes port).toUInt32
  -- `memset` has zeroed what is not translated
  let dst : NfpEthTablePort := {
    ethIndex := (fieldGet nspEthPortIndex port).toUInt32
    index := index
    nbi := index / nspEthNbiPortCount.toUInt32
    base := index % nspEthNbiPortCount.toUInt32
    lanes := lanes
    speed := lanes * nfpEthRate2speed (fieldGet nspEthStateRate state).toUInt32
    interface := (fieldGet nspEthStateInterface state).toUInt32
    media := (fieldGet nspEthStateMedia state).toUInt32
    fec := 0
    aneg := 0
    macAddr := nfpEthCopyMacReverse src.macAddr
    labelPort := (fieldGet nspEthPortPhylabel port).toUInt8
    labelSubport := (fieldGet nspEthPortLabel port).toUInt8
    enabled := (fieldGet nspEthStateEnabled state).toUInt32
    txEnabled := (fieldGet nspEthStateTxEnabled state).toUInt32
    rxEnabled := (fieldGet nspEthStateRxEnabled state).toUInt32
    overrideChanged := 0
    portType := 0
    portLanes := 0
    isSplit := false
    fecModesSupported := 0 }
  -- older versions of the NSP do not have the fields that follow
  if nsp.minor < 17 then dst
  else
    let dst := { dst with
      overrideChanged := (fieldGet nspEthStateOvrdChng state).toUInt32
      aneg := (fieldGet nspEthStateAneg state).toUInt32 }
    if nsp.minor < 22 then dst
    else { dst with
      fecModesSupported := fecModes port
      fec := 1 <<< (fieldGet nspEthStateFec state).toUInt32 }

/-! ### The table -/

/-- `struct nfp_eth_table`, of `n` ports. -/
structure NfpEthTable (n : ℕ) where
  maxIndex : UInt32
  ports : Fin n → NfpEthTablePort

/-- `RTE_MAX`. -/
def rteMax (a b : UInt32) : UInt32 := if b < a then a else b

section Geometry

variable {n : ℕ}

/-- A round of the inner loop of `nfp_eth_calc_port_geometry`. What it prints of two ports with
the same labels is left out. -/
def geometryRound (i : Fin n) (ports : Fin n → NfpEthTablePort) (j : Fin n) :
    Fin n → NfpEthTablePort :=
  if (ports i).labelPort ≠ (ports j).labelPort then ports
  else
    let ports := Function.update ports i { ports i with
      portLanes := (ports i).portLanes + (ports j).lanes }
    if i = j then ports
    else Function.update ports i { ports i with isSplit := true }

/-- A round of the outer loop. -/
def geometryPort (table : NfpEthTable n) (i : Fin n) : NfpEthTable n where
  maxIndex := rteMax table.maxIndex (table.ports i).index
  ports := (List.finRange n).foldl (geometryRound i) table.ports

/-- `nfp_eth_calc_port_geometry`. -/
def nfpEthCalcPortGeometry (table : NfpEthTable n) : NfpEthTable n :=
  (List.finRange n).foldl geometryPort table

end Geometry

/-- `PORT_FIBRE`. -/
def portFibre : UInt8 := 0x03

/-- `PORT_DA`. -/
def portDa : UInt8 := 0x05

/-- `PORT_NONE`. -/
def portNone : UInt8 := 0xef

/-- `NFP_INTERFACE_NONE`. -/
def nfpInterfaceNone : UInt32 := 0

/-- `NFP_MEDIA_FIBRE`. -/
def nfpMediaFibre : UInt32 := 2

/-- `nfp_eth_calc_port_type`. -/
def nfpEthCalcPortType (entry : NfpEthTablePort) : NfpEthTablePort :=
  if entry.interface = nfpInterfaceNone then { entry with portType := portNone }
  else if entry.media = nfpMediaFibre then { entry with portType := portFibre }
  else { entry with portType := portDa }

/-- The entries that have lanes, which are counted and translated. -/
def ethPresent (entries : List UInt8) : List ℕ :=
  (List.range nspEthMaxCount).filter fun i => ethEntry entries i .port &&& nspEthPortLanes ≠ 0

/-- The ports, translated. -/
def ethPorts (nsp : NfpNsp) (entries : List UInt8) (j : Fin (ethPresent entries).length) :
    NfpEthTablePort :=
  let i := (ethPresent entries).get j
  nfpEthPortTranslate nsp (ethEntry entries i) i.toUInt32

/-- The table of the ports, once there is memory for it. -/
def nfpEthTableOf (nsp : NfpNsp) (entries : List UInt8) :
    NfpEthTable (ethPresent entries).length :=
  let table := nfpEthCalcPortGeometry ⟨0, ethPorts nsp entries⟩
  { table with ports := fun j => nfpEthCalcPortType (table.ports j) }

/-- `__nfp_eth_read_ports`. `malloc` is whether there is memory for the entries and for the
table. -/
def ethReadPorts (malloc : Bool × Bool) (nsp : NfpNsp) :
    CppProg (Option ((n : ℕ) × NfpEthTable n) × NfpNsp) :=
  if malloc.1 then
    (nfpNspReadEthTable nsp nspEthTableSize).bind fun (ret, nsp, entries) =>
      if ret < 0 then .ret (none, nsp)
      -- some versions give 0 instead of the count
      else if ret ≠ 0 ∧ ret ≠ (ethPresent entries).length then .ret (none, nsp)
      else if malloc.2 then .ret (some ⟨_, nfpEthTableOf nsp entries⟩, nsp)
      else .ret (none, nsp)
  else .ret (none, nsp)

/-- `nfp_eth_read_ports`. -/
def nfpEthReadPorts (calloc : ℕ → Bool) (malloc : (Bool × Bool) × Bool × Bool) (waits : ℕ)
    (host : NfpCppHost) : CppProg (Outcome (Option ((n : ℕ) × NfpEthTable n))) :=
  (nfpNspOpen calloc malloc.1 waits host).andThen fun
    | none, host => .ret (.done none host)
    | some nsp, host =>
      (ethReadPorts malloc.2 nsp).bind fun (table, nsp) =>
        (nfpNspClose nsp host).andThen fun _ host => .ret (.done table host)

/-! ### Comparing the ports -/

section Max

variable {a b : UInt32}

/-- `RTE_MAX` is not below its first argument. -/
theorem le_rteMax_left : a ≤ rteMax a b := by
  unfold rteMax
  split
  next => exact UInt32.le_refl a
  next h => exact UInt32.not_lt.mp h

/-- `RTE_MAX` is not below its second argument. -/
theorem le_rteMax_right : b ≤ rteMax a b := by
  unfold rteMax
  split
  next h => exact UInt32.le_of_lt h
  next => exact UInt32.le_refl b

/-- `RTE_MAX` is one of the two. -/
theorem rteMax_choice (a b : UInt32) : rteMax a b = a ∨ rteMax a b = b := by
  unfold rteMax
  split
  · exact .inl rfl
  · exact .inr rfl

end Max

section Compare

variable {n : ℕ} {ports ports' : Fin n → NfpEthTablePort} {table₀ table : NfpEthTable n}
  {i j k : Fin n} {js is : List (Fin n)}

/-- The port `i`, compared with the ports `js`. -/
def comparedWith (ports : Fin n → NfpEthTablePort) (i : Fin n) (js : List (Fin n)) :
    NfpEthTablePort :=
  { ports i with
    portLanes := (ports i).portLanes + ((js.filter fun j =>
      (ports i).labelPort = (ports j).labelPort).map fun j => (ports j).lanes).sum
    isSplit := (ports i).isSplit ||
      js.any fun j => (ports i).labelPort = (ports j).labelPort ∧ i ≠ j }

/-- Before the first round. -/
theorem comparedWith_nil : comparedWith ports i [] = ports i := by
  simp [comparedWith]

/-- A port of another connector changes nothing. -/
theorem comparedWith_concat_of_ne (h : (ports i).labelPort ≠ (ports j).labelPort) :
    comparedWith ports i (js ++ [j]) = comparedWith ports i js := by
  simp [comparedWith, h]

/-- A port of the same connector adds its lanes, and splits the connector unless it is the port
itself. -/
theorem comparedWith_concat (h : (ports i).labelPort = (ports j).labelPort) :
    comparedWith ports i (js ++ [j]) = { comparedWith ports i js with
      portLanes := (comparedWith ports i js).portLanes + (ports j).lanes
      isSplit := (comparedWith ports i js).isSplit || decide (i ≠ j) } := by
  simp [comparedWith, h, UInt32.add_assoc, Bool.or_assoc]

/-- A comparison looks at the labels and the lanes, which no comparison changes. -/
theorem comparedWith_congr (hi : ports' i = ports i)
    (h : ∀ j, (ports' j).labelPort = (ports j).labelPort ∧ (ports' j).lanes = (ports j).lanes) :
    comparedWith ports' i js = comparedWith ports i js := by
  have hlabel (j : Fin n) : (ports' j).labelPort = (ports j).labelPort := (h j).1
  have hlanes (j : Fin n) : (ports' j).lanes = (ports j).lanes := (h j).2
  simp only [comparedWith, hi, hlabel, hlanes]

/-- One round of the inner loop. -/
theorem geometryRound_comparedWith :
    geometryRound i (Function.update ports i (comparedWith ports i js)) j =
      Function.update ports i (comparedWith ports i (js ++ [j])) := by
  have hupdate (j : Fin n) : (Function.update ports i (comparedWith ports i js) j).labelPort =
        (ports j).labelPort ∧
      (Function.update ports i (comparedWith ports i js) j).lanes = (ports j).lanes := by
    by_cases hj : j = i
    · subst hj
      rw [Function.update_self]
      exact ⟨rfl, rfl⟩
    · rw [Function.update_of_ne hj]
      exact ⟨rfl, rfl⟩
  -- so the round reads of `j` what the first table has, also when `j` is `i`
  unfold geometryRound
  rw [(hupdate i).1, (hupdate j).1, (hupdate j).2, Function.update_self]
  by_cases h : (ports i).labelPort = (ports j).labelPort
  · rw [if_neg (not_not.mpr h), comparedWith_concat h]
    dsimp only
    rw [Function.update_idem]
    by_cases hij : i = j
    · rw [if_pos hij, decide_eq_false (not_not.mpr hij), Bool.or_false]
    · rw [if_neg hij, decide_eq_true hij, Bool.or_true, Function.update_idem,
        Function.update_self]
  · rw [if_pos h, comparedWith_concat_of_ne h]

/-- The inner loop. -/
theorem foldl_geometryRound :
    js.foldl (geometryRound i) ports = Function.update ports i (comparedWith ports i js) := by
  -- by the rounds that have been, each of which is the last of a shorter loop
  induction js using List.reverseRecOn with
  | nil => rw [comparedWith_nil, Function.update_eq_self, List.foldl_nil]
  | append_singleton js j ih =>
    rw [List.foldl_append, ih, List.foldl_cons, List.foldl_nil, geometryRound_comparedWith]

/-- The ports `is` have been compared with all. -/
structure Compared (table₀ table : NfpEthTable n) (is : List (Fin n)) : Prop where
  ports (k : Fin n) : table.ports k =
    if k ∈ is then comparedWith table₀.ports k (List.finRange n) else table₀.ports k
  le_max : ∀ i ∈ is, (table₀.ports i).index ≤ table.maxIndex
  max_mem : table.maxIndex = table₀.maxIndex ∨ ∃ i ∈ is, table.maxIndex = (table₀.ports i).index

/-- What the rounds read of a port, they leave as it was. -/
theorem Compared.same (h : Compared table₀ table is) (j : Fin n) :
    (table.ports j).labelPort = (table₀.ports j).labelPort ∧
      (table.ports j).lanes = (table₀.ports j).lanes := by
  rw [h.ports]
  split <;> exact ⟨rfl, rfl⟩

/-- One round of the outer loop. -/
theorem Compared.step (h : Compared table₀ table is) (hi : i ∉ is) :
    Compared table₀ (geometryPort table i) (is ++ [i]) := by
  -- the port `i` is as it was, and the others have kept their labels and lanes
  have hport : table.ports i = table₀.ports i := by rw [h.ports, if_neg hi]
  refine ⟨fun k => ?_, fun k hk => ?_, ?_⟩
  · dsimp only [geometryPort]
    rw [foldl_geometryRound, comparedWith_congr hport h.same]
    by_cases hk : k = i
    · subst hk
      rw [Function.update_self, if_pos (List.mem_append_right _ (List.mem_singleton_self k))]
    · rw [Function.update_of_ne hk, h.ports]
      simp [hk]
  · obtain hk | hk := List.mem_append.mp hk
    · exact UInt32.le_trans (h.le_max k hk) le_rteMax_left
    · obtain rfl := List.mem_singleton.mp hk
      exact hport ▸ le_rteMax_right
  · dsimp only [geometryPort]
    obtain hmax | hmax := rteMax_choice table.maxIndex (table.ports i).index
    · rw [hmax]
      refine h.max_mem.imp_right ?_
      rintro ⟨k, hk, he⟩
      exact ⟨k, List.mem_append_left _ hk, he⟩
    · rw [hmax, hport]
      exact .inr ⟨i, List.mem_append_right _ (List.mem_singleton_self i), rfl⟩

/-- The outer loop. -/
theorem compared_foldl (table : NfpEthTable n) (hnodup : is.Nodup) :
    Compared table (is.foldl geometryPort table) is := by
  induction is using List.reverseRecOn with
  | nil => exact ⟨fun k => (if_neg List.not_mem_nil).symm, nofun, .inl rfl⟩
  | append_singleton is i ih =>
    obtain ⟨his, -, hdisj⟩ := List.nodup_append.mp hnodup
    rw [List.foldl_append, List.foldl_cons, List.foldl_nil]
    refine (ih his).step fun hi => ?_
    exact hdisj i hi i (List.mem_singleton_self i) rfl

/-- **Every port is compared with all.** -/
theorem compared_nfpEthCalcPortGeometry (table : NfpEthTable n) :
    Compared table (nfpEthCalcPortGeometry table) (List.finRange n) :=
  compared_foldl table (List.nodup_finRange n)

end Compare

/-! ### What the table says

The fields of a port that the loops do not touch come straight from its entry; the lanes of a
connector are a sum, which 32 bits are enough for. -/

/-- The table describes the entries. -/
structure EthTableOk (nsp : NfpNsp) (entries : List UInt8) {n : ℕ} (table : NfpEthTable n) :
    Prop where
  /-- The ports are in the order of the entries. -/
  strictMono : StrictMono fun j => (table.ports j).index.toNat
  mem_iff (i : ℕ) : (∃ j, (table.ports j).index.toNat = i) ↔
    i < nspEthMaxCount ∧ ethEntry entries i .port &&& nspEthPortLanes ≠ 0
  /-- What has not been computed from several ports is translated from the entry. -/
  translated (j : Fin n) : ∃ portType portLanes isSplit, table.ports j =
    { nfpEthPortTranslate nsp (ethEntry entries (table.ports j).index.toNat)
        (table.ports j).index with
      portType := portType, portLanes := portLanes, isSplit := isSplit }
  index_le (j : Fin n) : (table.ports j).index ≤ table.maxIndex
  maxIndex_mem : n ≠ 0 → ∃ j, table.maxIndex = (table.ports j).index
  portLanes (j : Fin n) : (table.ports j).portLanes.toNat =
    ∑ k with (table.ports j).labelPort = (table.ports k).labelPort, (table.ports k).lanes.toNat
  isSplit (j : Fin n) : (table.ports j).isSplit = true ↔
    ∃ k, (table.ports j).labelPort = (table.ports k).labelPort ∧ j ≠ k

abbrev lanesBits : BitRange 64 := ⟨0, 4, by decide⟩

theorem maskOf_lanes : MaskOf lanesBits nspEthPortLanes :=
  maskOf_genmaskUll (f := lanesBits) (by decide)

section Present

variable {nsp : NfpNsp} {entries : List UInt8} {src : EthTableEntry} {index : UInt32}

/-- What a translation says of every version of the NSP. -/
theorem nfpEthPortTranslate_eq : (nfpEthPortTranslate nsp src index).index = index ∧
    (nfpEthPortTranslate nsp src index).lanes =
      (fieldGet nspEthPortLanes (src .port)).toUInt32 ∧
    (nfpEthPortTranslate nsp src index).portLanes = 0 ∧
    (nfpEthPortTranslate nsp src index).isSplit = false := by
  unfold nfpEthPortTranslate
  dsimp only
  split
  · exact ⟨rfl, rfl, rfl, rfl⟩
  · split <;> exact ⟨rfl, rfl, rfl, rfl⟩

/-- The last pass sets the type of a port and nothing else. -/
theorem nfpEthCalcPortType_eq (entry : NfpEthTablePort) :
    nfpEthCalcPortType entry = { entry with portType := (nfpEthCalcPortType entry).portType } := by
  unfold nfpEthCalcPortType
  split
  · rfl
  · split <;> rfl

/-- The ports stand in the order of their entries. -/
theorem ethPresent_pairwise : (ethPresent entries).Pairwise (· < ·) :=
  List.pairwise_lt_range.filter _

/-- A port is an entry with lanes. -/
theorem mem_ethPresent {i : ℕ} : i ∈ ethPresent entries ↔
    i < nspEthMaxCount ∧ ethEntry entries i .port &&& nspEthPortLanes ≠ 0 := by
  rw [ethPresent, List.mem_filter, List.mem_range, decide_eq_true_iff]

/-- There are no more ports than entries. -/
theorem length_ethPresent_le : (ethPresent entries).length ≤ nspEthMaxCount :=
  (List.length_filter_le _ _).trans_eq List.length_range

/-- A port knows the number of its entry. -/
theorem ethPorts_index (j : Fin (ethPresent entries).length) :
    (ethPorts nsp entries j).index = ((ethPresent entries).get j).toUInt32 :=
  nfpEthPortTranslate_eq.1

/-- The number fits, so that it is the same as a natural number. -/
theorem toNat_ethPorts_index (j : Fin (ethPresent entries).length) :
    (ethPorts nsp entries j).index.toNat = (ethPresent entries).get j := by
  have hlt : (ethPresent entries).get j < nspEthMaxCount :=
    (mem_ethPresent.mp (List.get_mem _ j)).1
  rw [ethPorts_index]
  exact UInt32.toNat_ofNat_of_lt' (hlt.trans (by decide))

/-- The lanes of a port have four bits. -/
theorem ethPorts_lanes_lt (j : Fin (ethPresent entries).length) :
    (ethPorts nsp entries j).lanes.toNat < 16 := by
  have hlt : (fieldGet nspEthPortLanes (ethEntry entries ((ethPresent entries).get j) .port)).toNat
      < 2 ^ 4 := maskOf_lanes.fieldGet_lt
  rw [ethPorts, nfpEthPortTranslate_eq.2.1, UInt64.toNat_toUInt32]
  omega

/-- The lanes of a connector, which are too few to wrap. -/
theorem toNat_sum_map {ι : Type} (l : List ι) (f : ι → UInt32)
    (h : (l.map fun i => (f i).toNat).sum < 2 ^ 32) :
    (l.map f).sum.toNat = (l.map fun i => (f i).toNat).sum := by
  induction l with
  | nil => rfl
  | cons i l ih =>
    rw [List.map_cons, List.sum_cons] at h
    rw [List.map_cons, List.map_cons, List.sum_cons, List.sum_cons, UInt32.toNat_add,
      ih (by omega), Nat.mod_eq_of_lt h]

/-- A port of the table. -/
theorem nfpEthTableOf_ports (j : Fin (ethPresent entries).length) :
    (nfpEthTableOf nsp entries).ports j =
      nfpEthCalcPortType (comparedWith (ethPorts nsp entries) j (List.finRange _)) := by
  have hports := (compared_nfpEthCalcPortGeometry ⟨0, ethPorts nsp entries⟩).ports j
  rw [if_pos (List.mem_finRange j)] at hports
  exact congrArg nfpEthCalcPortType hports

/-- A port of the table, but for its type. -/
theorem nfpEthTableOf_eq (nsp : NfpNsp) (j : Fin (ethPresent entries).length) :
    ∃ portType, (nfpEthTableOf nsp entries).ports j =
      { comparedWith (ethPorts nsp entries) j (List.finRange _) with portType := portType } :=
  ⟨_, (nfpEthTableOf_ports j).trans (nfpEthCalcPortType_eq _)⟩

/-- What neither the comparison nor the last pass changes. -/
theorem nfpEthTableOf_same (nsp : NfpNsp) (j : Fin (ethPresent entries).length) :
    ((nfpEthTableOf nsp entries).ports j).index = (ethPorts nsp entries j).index ∧
      ((nfpEthTableOf nsp entries).ports j).lanes = (ethPorts nsp entries j).lanes ∧
      ((nfpEthTableOf nsp entries).ports j).labelPort = (ethPorts nsp entries j).labelPort := by
  obtain ⟨portType, he⟩ := nfpEthTableOf_eq nsp j
  rw [he]
  exact ⟨rfl, rfl, rfl⟩

/-- The lanes of the ports with the label of `j`. -/
theorem toNat_portLanes (j : Fin (ethPresent entries).length) :
    (comparedWith (ethPorts nsp entries) j (List.finRange _)).portLanes.toNat =
      ∑ k with (ethPorts nsp entries j).labelPort = (ethPorts nsp entries k).labelPort,
        (ethPorts nsp entries k).lanes.toNat := by
  let same : List (Fin (ethPresent entries).length) := (List.finRange _).filter fun k =>
    (ethPorts nsp entries j).labelPort = (ethPorts nsp entries k).labelPort
  have hsum : ∑ k with (ethPorts nsp entries j).labelPort = (ethPorts nsp entries k).labelPort,
      (ethPorts nsp entries k).lanes.toNat =
        (same.map fun k => (ethPorts nsp entries k).lanes.toNat).sum := by
    rw [← List.sum_toFinset _ ((List.nodup_finRange _).filter _)]
    congr 1
    ext k
    simp
  -- there are at most 48 ports, and a field of four bits says their lanes
  have hle : (same.map fun k => (ethPorts nsp entries k).lanes.toNat).sum ≤ 48 * 16 := by
    rw [← hsum]
    refine (Finset.sum_le_card_nsmul _ _ 16 fun k _ => (ethPorts_lanes_lt k).le).trans ?_
    have hcard := Finset.card_filter_le (Finset.univ : Finset (Fin (ethPresent entries).length))
      fun k => (ethPorts nsp entries j).labelPort = (ethPorts nsp entries k).labelPort
    rw [Finset.card_univ, Fintype.card_fin] at hcard
    rw [smul_eq_mul]
    exact Nat.mul_le_mul_right _ (hcard.trans length_ethPresent_le)
  have hzero : (ethPorts nsp entries j).portLanes = 0 := nfpEthPortTranslate_eq.2.2.1
  rw [hsum, comparedWith, hzero, UInt32.zero_add]
  exact toNat_sum_map same _ (hle.trans_lt (by decide))

/-- **The table of the ports describes the entries.** -/
theorem nfpEthTable_ok (nsp : NfpNsp) (entries : List UInt8) :
    EthTableOk nsp entries (nfpEthTableOf nsp entries) where
  strictMono := by
    intro j k hjk
    dsimp only
    rw [(nfpEthTableOf_same nsp j).1, (nfpEthTableOf_same nsp k).1, toNat_ethPorts_index,
      toNat_ethPorts_index]
    exact List.pairwise_iff_get.mp ethPresent_pairwise j k hjk
  mem_iff i := by
    rw [← mem_ethPresent, List.mem_iff_get]
    refine exists_congr fun j => ?_
    rw [(nfpEthTableOf_same nsp j).1, toNat_ethPorts_index]
  translated j := by
    obtain ⟨portType, he⟩ := nfpEthTableOf_eq nsp j
    refine ⟨portType, (comparedWith (ethPorts nsp entries) j (List.finRange _)).portLanes,
      (comparedWith (ethPorts nsp entries) j (List.finRange _)).isSplit, ?_⟩
    rw [(nfpEthTableOf_same nsp j).1, toNat_ethPorts_index, ethPorts_index]
    exact he
  index_le j := by
    rw [(nfpEthTableOf_same nsp j).1]
    exact (compared_nfpEthCalcPortGeometry ⟨0, ethPorts nsp entries⟩).le_max j (List.mem_finRange j)
  maxIndex_mem hn := by
    obtain hzero | ⟨j, -, hj⟩ :=
      (compared_nfpEthCalcPortGeometry ⟨0, ethPorts nsp entries⟩).max_mem
    · -- no index is larger than 0, which the table begins with
      refine ⟨⟨0, Nat.pos_of_ne_zero hn⟩, ?_⟩
      rw [(nfpEthTableOf_same nsp _).1]
      have hle := (compared_nfpEthCalcPortGeometry ⟨0, ethPorts nsp entries⟩).le_max
        ⟨0, Nat.pos_of_ne_zero hn⟩ (List.mem_finRange _)
      refine UInt32.le_antisymm ?_ hle
      rw [show (nfpEthTableOf nsp entries).maxIndex = 0 from hzero]
      exact UInt32.zero_le
    · refine ⟨j, ?_⟩
      rw [(nfpEthTableOf_same nsp j).1]
      exact hj
  portLanes j := by
    obtain ⟨portType, he⟩ := nfpEthTableOf_eq nsp j
    have hlabel (k : Fin (ethPresent entries).length) := (nfpEthTableOf_same nsp k).2.2
    have hlanes (k : Fin (ethPresent entries).length) := (nfpEthTableOf_same nsp k).2.1
    simp only [hlabel, hlanes]
    rw [he]
    exact toNat_portLanes j
  isSplit j := by
    obtain ⟨portType, he⟩ := nfpEthTableOf_eq nsp j
    have hlabel (k : Fin (ethPresent entries).length) := (nfpEthTableOf_same nsp k).2.2
    have hfalse : (ethPorts nsp entries j).isSplit = false := nfpEthPortTranslate_eq.2.2.2
    simp only [hlabel]
    rw [he]
    simp [comparedWith, hfalse]

end Present

/-! ### What the NSP has written -/

/-- **The ports are those of the entries that the NSP has written** for this command. -/
theorem ethReadPorts_served {nsp nsp' : NfpNsp} {s s' : NspUnit} {malloc : Bool × Bool} {n : ℕ}
    {table : NfpEthTable n} (hidle : s.Idle)
    (hrun : Runs (nspDevice nsp.res) (ethReadPorts malloc nsp) s (some ⟨n, table⟩, nsp') s') :
    ∃ e, s'.served = s.served ++ [e] ∧ e.request.code = NfpNspCmd.ethRescan.code ∧
      (e.ret = 0 ∨ e.ret = (n : ℤ)) ∧
      EthTableOk nsp' ((e.output e.request.buffCpp).load e.request.buffAddr.toNat
        nspEthTableSize) table := by
  have hread : Ensures (nspDevice nsp.res) s (ethReadPorts malloc nsp) fun q s' =>
      ∀ t, q.1 = some t → ∃ e, s'.served = s.served ++ [e] ∧
        e.request.code = NfpNspCmd.ethRescan.code ∧ (e.ret = 0 ∨ e.ret = (t.1 : ℤ)) ∧
        EthTableOk q.2 ((e.output e.request.buffCpp).load e.request.buffAddr.toNat
          nspEthTableSize) t.2 := by
    unfold ethReadPorts
    split
    · refine .bind (ensures_nspCommandBuf nsp NfpNspCmd.ethRescan.code nspEthTableSize.toUInt32 []
        nspEthTableSize hidle) ?_
      rintro ⟨ret, nsp', entries⟩ s' hafter
      dsimp only at hafter ⊢
      by_cases hneg : ret < 0
      · rw [if_pos hneg]
        exact .ret nofun
      rw [if_neg hneg]
      by_cases hcount : ret ≠ 0 ∧ ret ≠ (ethPresent entries).length
      · rw [if_pos hcount]
        exact .ret nofun
      rw [if_neg hcount]
      split
      · refine .ret ?_
        rintro t ht
        obtain rfl := Option.some.inj ht
        -- a value that is not negative is the answer to this command
        cases hafter with
        | refused _ _ hret => exact absurd hret hneg
        | lost _ _ hret => exact absurd (lost_neg hret) hneg
        | served e _ hserved hasks hret =>
          obtain ⟨rfl, hbytes⟩ := hret (not_lt.mp hneg)
          have hload : entries = (e.output e.request.buffCpp).load e.request.buffAddr.toNat
              nspEthTableSize := hbytes
          have hcode : e.request.code = NfpNspCmd.ethRescan.code := hasks.1
          have hcnt : e.ret = 0 ∨ e.ret = ((ethPresent entries).length : ℤ) := by
            by_contra hne
            exact hcount (not_or.mp hne)
          have hok := nfpEthTable_ok nsp' entries
          refine ⟨e, hserved, hcode, hcnt, ?_⟩
          exact hload ▸ hok
      · exact .ret nofun
    · exact .ret nofun
  exact hread _ _ hrun _ rfl

/-- A handle of an NSP that has buffers. -/
def bufferNsp : NfpNsp := { firstNsp with minor := 13 }

/-- Every entry has a lane. -/
theorem ethReadPorts_served_ones : ∃ nsp' s' n, ∃ table : NfpEthTable n, ∃ e,
    Runs (nspDevice bufferNsp.res) (ethReadPorts (true, true) bufferNsp) idleNsp
      (some ⟨n, table⟩, nsp') s' ∧
    s'.served = [] ++ [e] ∧ e.request.code = NfpNspCmd.ethRescan.code ∧
    (e.ret = 0 ∨ e.ret = (n : ℤ)) ∧
    EthTableOk nsp' ((e.output e.request.buffCpp).load e.request.buffAddr.toNat
      nspEthTableSize) table := by
  obtain ⟨s', -, hcommand⟩ := runs_nspCommandBuf bufferNsp NfpNspCmd.ethRescan.code
    nspEthTableSize.toUInt32 nspEthTableSize (s := idleNsp) (fun _ _ => 1) ⟨rfl, rfl⟩ (by decide)
    [] (by decide)
  have hrun : Runs (nspDevice bufferNsp.res) (ethReadPorts (true, true) bufferNsp) idleNsp
      (some ⟨_, nfpEthTableOf bufferNsp.checked (Mem.load (fun _ => 1) 0 nspEthTableSize)⟩,
        bufferNsp.checked) s' := by
    rw [ethReadPorts, if_pos rfl]
    refine runs_bind.mpr ⟨_, s', hcommand, ?_⟩
    dsimp only
    rw [if_neg (lt_irrefl 0), if_neg fun h => h.1 rfl, if_pos rfl]
    exact .refl
  obtain ⟨e, he⟩ := ethReadPorts_served ⟨rfl, rfl⟩ hrun
  exact ⟨_, s', _, _, e, hrun, he⟩

end NfpUdpEcho
