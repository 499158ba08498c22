import Undermoon.Common.Proto
import Undermoon.Proofs.SwitchArg

/-!
# `UMCTL SETCLUSTER` read back as it was written

`ProxyClusterMeta::parse` over the strings of `ProxyClusterMeta::to_args`
gives back the cluster: its epoch, flags and name, both node maps as maps,
and its config, with no error on the side. The
proof follows the encoder's parts.

* A node map is read one address and one slot range at a time, each range
  going after those already read for its address; so the map read back holds
  each address with its ranges in their order, as long as no address would
  end the section and no address has an empty vector, which `to_args` does
  not write at all (`NodeMap.parse_toArgs`).
* The config is five `set_field` calls, each setting the field the pair
  names, which covers every field, so the default the parse starts from is
  gone (`ClusterConfig.setFields_toStrMap`).
* The sections come in the order `to_args` writes them, and each ends where
  the next begins.

Rust's case maps appear only on the text the encoder writes and on the
addresses, so what is assumed of them is that they are the ASCII maps on
ASCII text (`AgreesOnAscii`); the addresses are assumed not to upper-case to
`PEER` or `CONFIG`.
-/

namespace Undermoon

/-- A slot range that `SlotRange::from_strings` reads back: a compact range
list of `usize` ranges. -/
def SlotRange.ReadsBack (sr : SlotRange) : Prop :=
  sr.rangeList.Canonical ∧ ∀ r ∈ sr.rangeList.ranges, r.start < 2 ^ 64 ∧ r.stop < 2 ^ 64

section

variable {toUppercase toLowercase : String → String}

/-! ## Flags -/

theorem ClusterMapFlags.fromArg_toArg {f : ClusterMapFlags} (hc : f.compress = false) :
    ClusterMapFlags.fromArg f.toArg = f := by
  obtain ⟨force, compress⟩ := f
  subst hc
  cases force <;> decide +kernel

/-! ## Section ends -/

theorem endsSection_of_ascii (hup : AgreesOnAscii toUppercase Char.toUpper) {s : String}
    (hs : s.toList.all (fun c => c.toNat < 128) = true ∧
      s.toList.map Char.toUpper ≠ peerPrefix.toList ∧ s.toList.map Char.toUpper ≠ configPrefix.toList) :
    endsSection toUppercase s = false := by
  have hpeer : toUppercase s ≠ peerPrefix := fun h => hs.2.1 (by rw [← hup s hs.1, h])
  have hconfig : toUppercase s ≠ configPrefix := fun h => hs.2.2 (by rw [← hup s hs.1, h])
  simp [endsSection, hpeer, hconfig]

theorem configPrefix_ne_peerPrefix : configPrefix ≠ peerPrefix :=
  fun h => absurd (congrArg String.toList h) (by decide)

theorem toUppercase_peerPrefix (hup : AgreesOnAscii toUppercase Char.toUpper) :
    toUppercase peerPrefix = peerPrefix :=
  hup.eq_self (by decide)

theorem toUppercase_configPrefix (hup : AgreesOnAscii toUppercase Char.toUpper) :
    toUppercase configPrefix = configPrefix :=
  hup.eq_self (by decide)

theorem endsSection_peerPrefix (hup : AgreesOnAscii toUppercase Char.toUpper) :
    endsSection toUppercase peerPrefix = true := by
  rw [endsSection, toUppercase_peerPrefix hup]
  simp

theorem endsSection_configPrefix (hup : AgreesOnAscii toUppercase Char.toUpper) :
    endsSection toUppercase configPrefix = true := by
  rw [endsSection, toUppercase_configPrefix hup]
  simp

/-! ## Node maps -/

namespace NodeMap

variable (toUppercase) in
/-- A node map `to_args` writes so that `parse` reads it back. -/
def ReadsBack (m : OrdMap String (List SlotRange)) : Prop :=
  ∀ e ∈ m.entries, endsSection toUppercase e.1 = false ∧ e.2 ≠ [] ∧ ∀ sr ∈ e.2, sr.ReadsBack

/-- What `parse` builds of the entries it reads: each range after those of
its address. -/
def insertAll (acc : OrdMap String (List SlotRange)) (es : List (Σ _ : String, List SlotRange)) :
    OrdMap String (List SlotRange) :=
  es.foldl (fun acc e => e.2.foldl (fun acc sr => acc.upsert e.1 [] (· ++ [sr])) acc) acc

/-- The loop stops at the end and before a section. -/
theorem parseFrom_of_ends {acc : OrdMap String (List SlotRange)} {rest : List String}
    (hrest : ∀ t ∈ rest.head?, endsSection toUppercase t = true) :
    parseFrom toUppercase acc rest = .ok (acc, rest) := by
  cases rest with
  | nil => rw [parseFrom]
  | cons t rest => rw [parseFrom, if_pos (hrest t rfl)]

/-- One address and one slot range. -/
theorem parseFrom_node (hup : AgreesOnAscii toUppercase Char.toUpper) {acc : OrdMap String (List SlotRange)}
    {address : String} {sr : SlotRange} (hend : endsSection toUppercase address = false) (hsr : sr.ReadsBack) (rest : List String) :
    parseFrom toUppercase acc (address :: (sr.intoStrings ++ rest)) =
      parseFrom toUppercase (acc.upsert address [] (· ++ [sr])) rest := by
  rw [parseFrom, if_neg (by simp [hend])]
  split
  · next h =>
      rw [SlotRange.fromStrings_intoStrings hup hsr.1 hsr.2] at h
      cases h
  · next sr' it' h =>
      rw [SlotRange.fromStrings_intoStrings hup hsr.1 hsr.2, Option.some.injEq, Prod.mk.injEq] at h
      obtain ⟨rfl, rfl⟩ := h
      rfl

/-- The ranges of one address. -/
theorem parseFrom_ranges (hup : AgreesOnAscii toUppercase Char.toUpper) {address : String} (hend : endsSection toUppercase address = false) :
    ∀ {srs : List SlotRange} {acc : OrdMap String (List SlotRange)}, (∀ sr ∈ srs, sr.ReadsBack) →
      ∀ rest, parseFrom toUppercase acc (srs.flatMap (fun sr => address :: sr.intoStrings) ++ rest) =
        parseFrom toUppercase (srs.foldl (fun acc sr => acc.upsert address [] (· ++ [sr])) acc) rest
  | [], _, _, _ => rfl
  | sr :: srs, acc, h, rest => by
      rw [List.flatMap_cons, List.append_assoc, List.cons_append,
        parseFrom_node hup hend (h sr List.mem_cons_self), List.foldl_cons]
      exact parseFrom_ranges hup hend (fun sr' hsr' => h sr' (List.mem_cons_of_mem sr hsr')) rest

/-- The entries, in order. -/
theorem parseFrom_entries (hup : AgreesOnAscii toUppercase Char.toUpper) :
    ∀ {es : List (Σ _ : String, List SlotRange)} {acc : OrdMap String (List SlotRange)},
      (∀ e ∈ es, endsSection toUppercase e.1 = false ∧ ∀ sr ∈ e.2, sr.ReadsBack) → ∀ rest,
      parseFrom toUppercase acc
          (es.flatMap (fun e => e.2.flatMap fun sr => e.1 :: sr.intoStrings) ++ rest) =
        parseFrom toUppercase (insertAll acc es) rest
  | [], _, _, _ => rfl
  | e :: es, acc, h, rest => by
      have he := h e List.mem_cons_self
      rw [List.flatMap_cons, List.append_assoc, parseFrom_ranges hup he.1 he.2]
      exact parseFrom_entries hup (fun e' he' => h e' (List.mem_cons_of_mem e he')) rest

theorem get?_foldl_upsert_ne {address k : String} (hk : k ≠ address) :
    ∀ (srs : List SlotRange) (acc : OrdMap String (List SlotRange)),
      (srs.foldl (fun acc sr => acc.upsert address [] (· ++ [sr])) acc).get? k = acc.get? k
  | [], _ => rfl
  | sr :: srs, acc => by
      rw [List.foldl_cons, get?_foldl_upsert_ne hk srs, OrdMap.get?_upsert_ne _ _ _ hk]

theorem get?_foldl_upsert_self (address : String) :
    ∀ (srs : List SlotRange) (acc : OrdMap String (List SlotRange)),
      ((srs.foldl (fun acc sr => acc.upsert address [] (· ++ [sr])) acc).get? address).getD [] =
        (acc.get? address).getD [] ++ srs
  | [], _ => (List.append_nil _).symm
  | sr :: srs, acc => by
      rw [List.foldl_cons, get?_foldl_upsert_self address srs, OrdMap.get?_upsert_self,
        Option.getD_some, List.append_assoc, List.singleton_append]

/-- After the ranges of a non-empty vector the address is in the map. -/
theorem isSome_foldl_upsert (address : String) :
    ∀ {srs : List SlotRange} (acc : OrdMap String (List SlotRange)), srs ≠ [] →
      ((srs.foldl (fun acc sr => acc.upsert address [] (· ++ [sr])) acc).get? address).isSome
  | [], _, h => absurd rfl h
  | [sr], acc, _ => by rw [List.foldl_cons, List.foldl_nil, OrdMap.get?_upsert_self]; rfl
  | sr :: sr' :: srs, acc, _ => by
      rw [List.foldl_cons]
      exact isSome_foldl_upsert address _ (List.cons_ne_nil sr' srs)

/-- The map read back from entries with distinct, fresh addresses and
non-empty vectors holds each address with its vector. -/
theorem get?_insertAll :
    ∀ {es : List (Σ _ : String, List SlotRange)} {acc : OrdMap String (List SlotRange)},
      (∀ e ∈ es, e.2 ≠ []) → es.NodupKeys → (∀ e ∈ es, e.1 ∉ acc) →
      ∀ k, (insertAll acc es).get? k = (es.dlookup k).or (acc.get? k)
  | [], _, _, _, _, k => rfl
  | e :: es, acc, hne, hnd, hfresh, k => by
      obtain ⟨hkey, hnd'⟩ := List.nodupKeys_cons.mp hnd
      have hacc : acc.get? e.1 = none := OrdMap.get?_eq_none.mpr (hfresh e List.mem_cons_self)
      -- the later addresses are still fresh after the ranges of `e`
      have hfresh' : ∀ e' ∈ es, e'.1 ∉ e.2.foldl (fun acc sr => acc.upsert e.1 [] (· ++ [sr])) acc := by
        intro e' he'
        have hne' : e'.1 ≠ e.1 := fun h => hkey (h ▸ List.mem_keys_of_mem he')
        rw [← OrdMap.get?_eq_none, get?_foldl_upsert_ne hne']
        exact OrdMap.get?_eq_none.mpr (hfresh e' (List.mem_cons_of_mem e he'))
      have ih := get?_insertAll (fun e' he' => hne e' (List.mem_cons_of_mem e he')) hnd' hfresh' k
      unfold insertAll at ih ⊢
      rw [List.foldl_cons, ih]
      by_cases hk : k = e.1
      · subst hk
        have hlook : es.dlookup e.1 = none := List.dlookup_eq_none.mpr hkey
        obtain ⟨v, hv⟩ := Option.isSome_iff_exists.mp
          (isSome_foldl_upsert e.1 acc (hne e List.mem_cons_self))
        have hvs := get?_foldl_upsert_self e.1 e.2 acc
        rw [hv, hacc, Option.getD_some, Option.getD_none, List.nil_append] at hvs
        rw [hlook, hv, hvs, Option.none_or, List.dlookup_cons_eq]
        rfl
      · rw [get?_foldl_upsert_ne hk, List.dlookup_cons_ne _ _ hk]

variable (toUppercase) in
/-- A node map followed by the end or by a section reads back as the same
map, and the strings after it are left. -/
theorem parse_toArgs (hup : AgreesOnAscii toUppercase Char.toUpper) {m : OrdMap String (List SlotRange)}
    (hm : ReadsBack toUppercase m)
    {rest : List String} (hrest : ∀ t ∈ rest.head?, endsSection toUppercase t = true) :
    ∃ m', parse toUppercase (toArgs m ++ rest) = .ok (m', rest) ∧ ∀ k, m'.get? k = m.get? k := by
  refine ⟨insertAll ∅ m.entries, ?_, fun k => ?_⟩
  · rw [parse, toArgs, parseFrom_entries hup (fun e he => ⟨(hm e he).1, (hm e he).2.2⟩) rest,
      parseFrom_of_ends hrest]
  · rw [get?_insertAll (fun e he => (hm e he).2.1) m.nodupKeys (fun _ _ => AList.notMem_empty _) k]
    exact Option.or_none

end NodeMap

/-! ## The config -/

theorem ClusterConfig.setField_compressionStrategy (hlow : AgreesOnAscii toLowercase Char.toLower)
    (strategy : CompressionStrategy) (cfg : ClusterConfig) :
    cfg.setField toLowercase "compression_strategy" strategy.toStr =
      .ok { cfg with compressionStrategy := strategy } := by
  have hstrategy : CompressionStrategy.fromStr toLowercase strategy.toStr = some strategy := by
    cases strategy
    · simp only [CompressionStrategy.toStr, CompressionStrategy.fromStr,
        hlow.eq_self (s := "disabled") (by decide)]
    · simp only [CompressionStrategy.toStr, CompressionStrategy.fromStr,
        hlow.eq_self (s := "set_get_only") (by decide)]
    · simp only [CompressionStrategy.toStr, CompressionStrategy.fromStr,
        hlow.eq_self (s := "allow_all") (by decide)]
  rw [ClusterConfig.setField]
  simp only [hlow.eq_self (s := "compression_strategy") (by decide), if_true, hstrategy]

/-- A `migration_` field is set in the migration config under the rest of
its name. -/
theorem ClusterConfig.setField_migration (hlow : AgreesOnAscii toLowercase Char.toLower)
    (field f : String)
    (hfield : field.toList.all (fun c => c.toNat < 128) = true ∧
      field.toList.map Char.toLower = field.toList)
    (hne : field.toList ≠ "compression_strategy".toList) (hstarts : field.startsWith "migration_" = true)
    (hdrop : (field.drop ("migration".length + 1)).toString = f) (cfg : ClusterConfig)
    (value : String) :
    cfg.setField toLowercase field value =
      (cfg.migrationConfig.setField toLowercase f value).map fun m => { cfg with migrationConfig := m } := by
  rw [ClusterConfig.setField]
  simp only [hlow.eq_self hfield]
  rw [if_neg fun h => hne (congrArg String.toList h), if_pos hstarts, hdrop]
  cases cfg.migrationConfig.setField toLowercase f value <;> rfl

/-- The pairs of `to_str_map`, set in turn from any config, give back the
config: they set every field, each to its value. -/
theorem ClusterConfig.setFields_toStrMap (hlow : AgreesOnAscii toLowercase Char.toLower)
    {c : ClusterConfig} (hscan : c.migrationConfig.scanCount ≠ 0) (config : ClusterConfig) :
    c.toStrMap.foldlM (fun cfg kv => cfg.setField toLowercase kv.1 kv.2) config = .ok c := by
  obtain ⟨strategy, ⟨maxMigrationTime, maxBlockingTime, scanInterval, scanCount⟩⟩ := c
  dsimp only at hscan
  have h1 := setField_migration hlow "migration_max_migration_time" "max_migration_time"
    (by decide) (by decide) (by simp) (by decide)
  have h2 := setField_migration hlow "migration_max_blocking_time" "max_blocking_time"
    (by decide) (by decide) (by simp) (by decide)
  have h3 := setField_migration hlow "migration_scan_interval" "scan_interval"
    (by decide) (by decide) (by simp) (by decide)
  have h4 := setField_migration hlow "migration_scan_count" "scan_count"
    (by decide) (by decide) (by simp) (by decide)
  simp only [ClusterConfig.toStrMap, List.foldlM_cons, List.foldlM_nil,
    setField_compressionStrategy hlow, h1, h2, h3, h4, MigrationConfig.setField,
    hlow.eq_self (s := "max_migration_time") (by decide),
    hlow.eq_self (s := "max_blocking_time") (by decide),
    hlow.eq_self (s := "scan_interval") (by decide),
    hlow.eq_self (s := "scan_count") (by decide)]
  -- `u64::to_string` is the decimal numeral of the value
  have htoString : ∀ x : UInt64, toString x = toString x.toNat := fun _ => rfl
  simp only [htoString, parseU64_toString_toNat, hscan, if_false]
  rfl

namespace ClusterConfigData

/-- One field and its value, accepted. -/
theorem parseFrom_pair {config config' : ClusterConfig} {field value : String}
    (hend : endsSection toUppercase field = false)
    (hset : config.setField toLowercase field value = .ok config') (rest : List String) :
    parseFrom toUppercase toLowercase config (field :: value :: rest) =
      parseFrom toUppercase toLowercase config' rest := by
  rw [parseFrom.eq_3, if_neg (by simp [hend])]
  simp only [hset]

/-- Pairs that `set_field` accepts in turn. -/
theorem parseFrom_pairs :
    ∀ {kvs : List (String × String)} {config config' : ClusterConfig},
      (∀ kv ∈ kvs, endsSection toUppercase kv.1 = false) →
      kvs.foldlM (fun cfg kv => cfg.setField toLowercase kv.1 kv.2) config = .ok config' →
      ∀ rest, parseFrom toUppercase toLowercase config (kvs.flatMap (fun kv => [kv.1, kv.2]) ++ rest) =
        parseFrom toUppercase toLowercase config' rest
  | [], config, config', _, h, rest => by
      cases h
      rfl
  | kv :: kvs, config, config', hends, h, rest => by
      rw [List.foldlM_cons] at h
      cases hset : config.setField toLowercase kv.1 kv.2 with
      | error e =>
          rw [hset] at h
          cases h
      | ok config'' =>
          rw [hset] at h
          rw [List.flatMap_cons, List.append_assoc, List.cons_append, List.cons_append,
            List.nil_append, parseFrom_pair (hends kv List.mem_cons_self) hset]
          exact parseFrom_pairs (fun kv' h' => hends kv' (List.mem_cons_of_mem kv h')) h rest

theorem parseFrom_of_ends {config : ClusterConfig} {rest : List String}
    (hrest : ∀ t ∈ rest.head?, endsSection toUppercase t = true) :
    parseFrom toUppercase toLowercase config rest = (.ok config, rest) := by
  cases rest with
  | nil => rfl
  | cons t rest =>
      unfold parseFrom
      rw [if_pos (hrest t rfl)]

/-- A config section followed by the end or by a section reads back as the
config. -/
theorem parse_toArgs (hup : AgreesOnAscii toUppercase Char.toUpper)
    (hlow : AgreesOnAscii toLowercase Char.toLower) {c : ClusterConfig}
    (hscan : c.migrationConfig.scanCount ≠ 0) {rest : List String}
    (hrest : ∀ t ∈ rest.head?, endsSection toUppercase t = true) :
    parse toUppercase toLowercase (toArgs c ++ rest) = (.ok c, rest) := by
  -- no field name ends the section
  have hends : ∀ kv ∈ c.toStrMap, endsSection toUppercase kv.1 = false := by
    intro kv hkv
    simp only [ClusterConfig.toStrMap, List.mem_cons, List.not_mem_nil, or_false] at hkv
    rcases hkv with rfl | rfl | rfl | rfl | rfl <;>
      (dsimp only; exact endsSection_of_ascii hup (by decide))
  rw [parse, toArgs, parseFrom_pairs hends (ClusterConfig.setFields_toStrMap hlow hscan _) rest,
    parseFrom_of_ends hrest]

end ClusterConfigData

/-! ## The cluster -/

/-- A node map whose vectors are non-empty writes nothing only when it has no
entry. -/
theorem NodeMap.toArgs_eq_nil {m : OrdMap String (List SlotRange)} (hm : ∀ e ∈ m.entries, e.2 ≠ []) :
    NodeMap.toArgs m = [] ↔ m.entries = [] := by
  rw [NodeMap.toArgs, List.flatMap_eq_nil_iff]
  constructor
  · intro h
    cases hes : m.entries with
    | nil => rfl
    | cons e es =>
        have hmem : e ∈ m.entries := hes ▸ List.mem_cons_self
        obtain ⟨sr, hsr⟩ := List.exists_mem_of_ne_nil _ (hm e hmem)
        have he := List.flatMap_eq_nil_iff.mp (h e hmem) sr hsr
        cases he
  · intro h e he
    rw [h] at he
    cases he

namespace ProxyClusterMeta

theorem ok_bind {α β : Type} (a : α) (f : α → Except CmdParseError β) :
    (Except.ok a >>= f) = f a := rfl

theorem parseSections_peer (hup : AgreesOnAscii toUppercase Char.toUpper)
    {localMap peer peer' : OrdMap String (List SlotRange)} {config : ClusterConfig}
    {ext : Except ParseExtendedMetaError Unit} {it it' : List String}
    (h : NodeMap.parse toUppercase it = .ok (peer', it')) :
    parseSections toUppercase toLowercase localMap peer config ext (peerPrefix :: it) =
      parseSections toUppercase toLowercase localMap peer' config ext it' := by
  rw [parseSections, if_pos (toUppercase_peerPrefix hup)]
  split
  · next heq =>
      rw [h, Except.ok.injEq, Prod.mk.injEq] at heq
      obtain ⟨rfl, rfl⟩ := heq
      rfl
  · next heq =>
      rw [h] at heq
      cases heq

theorem parseSections_config (hup : AgreesOnAscii toUppercase Char.toUpper)
    {localMap peer : OrdMap String (List SlotRange)} {config config' : ClusterConfig}
    {ext : Except ParseExtendedMetaError Unit} {it it' : List String}
    (h : ClusterConfigData.parse toUppercase toLowercase it = (.ok config', it')) :
    parseSections toUppercase toLowercase localMap peer config ext (configPrefix :: it) =
      parseSections toUppercase toLowercase localMap peer config' ext it' := by
  rw [parseSections, toUppercase_configPrefix hup, if_neg configPrefix_ne_peerPrefix, if_pos rfl]
  split
  · next heq =>
      rw [h, Prod.mk.injEq, Except.ok.injEq] at heq
      obtain ⟨rfl, rfl⟩ := heq
      rfl
  · next heq =>
      rw [h, Prod.mk.injEq] at heq
      cases heq.1

/-- The sections after the local map: the peer map when there is one, then
the config, read back whatever the local map. -/
theorem parseSections_toArgs (hup : AgreesOnAscii toUppercase Char.toUpper)
    (hlow : AgreesOnAscii toLowercase Char.toLower) {peer : OrdMap String (List SlotRange)}
    (hpeer : NodeMap.ReadsBack toUppercase peer) {c : ClusterConfig}
    (hscan : c.migrationConfig.scanCount ≠ 0) (localMap : OrdMap String (List SlotRange)) :
    ∃ peer', parseSections toUppercase toLowercase localMap ∅ ClusterConfig.default (.ok ())
        ((if (NodeMap.toArgs peer).isEmpty then [] else peerPrefix :: NodeMap.toArgs peer) ++
          configPrefix :: ClusterConfigData.toArgs c) = .ok (peer', c, .ok ()) ∧
      ∀ k, peer'.get? k = peer.get? k := by
  have hconfig : ClusterConfigData.parse toUppercase toLowercase
      (ClusterConfigData.toArgs c ++ []) = (.ok c, []) :=
    ClusterConfigData.parse_toArgs hup hlow hscan (by simp)
  rw [List.append_nil] at hconfig
  by_cases hempty : (NodeMap.toArgs peer).isEmpty
  · -- no peer section: the peer map stays empty, as `peer` has no entry
    have hentries := (NodeMap.toArgs_eq_nil fun e he => (hpeer e he).2.1).mp
      (List.isEmpty_iff.mp hempty)
    refine ⟨∅, ?_, fun k => ?_⟩
    · rw [if_pos hempty, List.nil_append, parseSections_config hup hconfig, parseSections]
    · have hk : k ∉ peer := fun hk => by
        have hkeys : k ∈ peer.entries.keys := AList.mem_keys.mpr hk
        rw [hentries] at hkeys
        cases hkeys
      rw [OrdMap.get?_eq_none.mpr (AList.notMem_empty k), OrdMap.get?_eq_none.mpr hk]
  · have hrest : ∀ t ∈ (configPrefix :: ClusterConfigData.toArgs c).head?,
        endsSection toUppercase t = true := fun t ht => by
      cases ht
      exact endsSection_configPrefix hup
    obtain ⟨peer', hparse, hget⟩ := NodeMap.parse_toArgs toUppercase hup hpeer hrest
    refine ⟨peer', ?_, hget⟩
    rw [if_neg hempty, List.cons_append, parseSections_peer hup hparse,
      parseSections_config hup hconfig, parseSections]

variable (toUppercase) in
/-- The clusters `to_args` writes so that `parse` reads them back: the
current version, not compressed, node maps that read back, and a
`scan_count` that `set_field` accepts. -/
structure ReadsBack (m : ProxyClusterMeta) : Prop where
  version : m.version = setClusterApiVersion
  notCompressed : m.flags.compress = false
  localMap : NodeMap.ReadsBack toUppercase m.localMap
  peer : NodeMap.ReadsBack toUppercase m.peer
  scanCount : m.clusterConfig.migrationConfig.scanCount ≠ 0

/-- `ProxyClusterMeta::parse` over the strings of `to_args` gives back the
cluster with no error on the side: the same version, epoch, flags and name,
the same node maps as maps, and the same config. -/
theorem setCluster_round_trip (hup : AgreesOnAscii toUppercase Char.toUpper)
    (hlow : AgreesOnAscii toLowercase Char.toLower)
    (fromCompressedData : String → Option (ClusterName × OrdMap String (List SlotRange) ×
      OrdMap String (List SlotRange) × ClusterConfig))
    {m : ProxyClusterMeta} (hm : m.ReadsBack toUppercase) :
    ∃ m', parse toUppercase toLowercase fromCompressedData m.toArgs = .ok (m', .ok ()) ∧
      m'.version = m.version ∧ m'.epoch = m.epoch ∧ m'.flags = m.flags ∧
      m'.clusterName = m.clusterName ∧ (∀ k, m'.localMap.get? k = m.localMap.get? k) ∧
      (∀ k, m'.peer.get? k = m.peer.get? k) ∧ m'.clusterConfig = m.clusterConfig := by
  have hconfig : (ClusterConfigData.toArgs m.clusterConfig).isEmpty = false := rfl
  -- the local map ends where the peer or the config section begins
  have hhead : ∀ t ∈ ((if (NodeMap.toArgs m.peer).isEmpty then [] else
      peerPrefix :: NodeMap.toArgs m.peer) ++
        configPrefix :: ClusterConfigData.toArgs m.clusterConfig).head?,
      endsSection toUppercase t = true := by
    intro t ht
    split at ht
    · cases ht
      exact endsSection_configPrefix hup
    · cases ht
      exact endsSection_peerPrefix hup
  obtain ⟨localMap, hlocal, hlocalEq⟩ := NodeMap.parse_toArgs toUppercase hup hm.localMap hhead
  obtain ⟨peer, hsections, hpeerEq⟩ :=
    parseSections_toArgs hup hlow hm.peer hm.scanCount localMap
  refine ⟨⟨m.version, m.epoch, m.flags, m.clusterName, localMap, peer, m.clusterConfig⟩, ?_,
    rfl, rfl, rfl, rfl, hlocalEq, hpeerEq, rfl⟩
  have hversion : ¬ m.version ≠ setClusterApiVersion := not_not.mpr hm.version
  simp only [toArgs, hconfig, Bool.false_eq_true, if_false, List.cons_append, List.nil_append,
    List.append_assoc]
  simp only [parse, next, ok_bind, hversion, if_false, parseU64_toString_toNat,
    ClusterMapFlags.fromArg_toArg hm.notCompressed, hm.notCompressed, ClusterName.tryFrom_name,
    hlocal, hsections, Bool.false_eq_true]
  rfl

theorem valid_halvesName : ClusterName.valid "c" = true := rfl

/-- A cluster of two proxies: the local node serves the lower half of the
slots, the peer the upper half. -/
def halvesMeta : ProxyClusterMeta :=
  ⟨setClusterApiVersion, 3, ⟨true, false⟩, ⟨"c", valid_halvesName⟩,
    (∅ : OrdMap String (List SlotRange)).insert "127.0.0.1:7001" [⟨⟨[⟨0, 8191⟩]⟩, .none⟩],
    (∅ : OrdMap String (List SlotRange)).insert "127.0.0.1:7002" [⟨⟨[⟨8192, 16383⟩]⟩, .none⟩],
    ClusterConfig.default⟩

theorem setCluster_round_trip_halves :
    ∃ m', parse String.toUpper String.toLower (fun _ => none) halvesMeta.toArgs = .ok (m', .ok ()) ∧
      m'.version = halvesMeta.version ∧ m'.epoch = halvesMeta.epoch ∧
      m'.flags = halvesMeta.flags ∧ m'.clusterName = halvesMeta.clusterName ∧
      (∀ k, m'.localMap.get? k = halvesMeta.localMap.get? k) ∧
      (∀ k, m'.peer.get? k = halvesMeta.peer.get? k) ∧
      m'.clusterConfig = halvesMeta.clusterConfig := by
  -- one stable range, compact and within `usize`
  have hsr : ∀ {a b : Nat}, a ≤ b → b < 2 ^ 64 → SlotRange.ReadsBack ⟨⟨[⟨a, b⟩]⟩, .none⟩ :=
    fun hab hb => ⟨⟨fun r hr => by rw [List.mem_singleton.mp hr]; exact hab,
      List.pairwise_singleton _ _⟩, fun r hr => by
        rw [List.mem_singleton.mp hr]
        exact ⟨Nat.lt_of_le_of_lt hab hb, hb⟩⟩
  have hnode : ∀ {address : String} {a b : Nat}, endsSection String.toUpper address = false →
      a ≤ b → b < 2 ^ 64 → NodeMap.ReadsBack String.toUpper
        ((∅ : OrdMap String (List SlotRange)).insert address [⟨⟨[⟨a, b⟩]⟩, .none⟩]) :=
    fun hend hab hb e he => by
      rw [List.mem_singleton.mp he]
      exact ⟨hend, List.cons_ne_nil _ _, fun sr hs => by
        rw [List.mem_singleton.mp hs]; exact hsr hab hb⟩
  exact setCluster_round_trip (agreesOnAscii_map Char.toUpper) (agreesOnAscii_map Char.toLower)
    (fun _ => none)
    ⟨rfl, rfl, hnode (endsSection_of_ascii (agreesOnAscii_map _) (by decide)) (by decide)
        (by decide),
      hnode (endsSection_of_ascii (agreesOnAscii_map _) (by decide)) (by decide) (by decide),
      by decide⟩

end ProxyClusterMeta

end

end Undermoon
