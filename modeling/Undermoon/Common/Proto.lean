import Undermoon.Migration.SwitchArg
import Undermoon.Lib.OrdMap

/-!
# `UMCTL SETCLUSTER`

The coordinator sends each proxy its cluster as the strings after
`UMCTL SETCLUSTER` (`ProxyClusterMeta::to_args`, `common/proto.rs`): the API
version, the epoch, the flags, the cluster name, the local node map, then
`PEER` and the peer node map when there is one, then `CONFIG` and the
config's field and value pairs. A node map is one address and one slot range
per range the node serves, so a node with several ranges is written once for
each. The proxy reads the strings back with `ProxyClusterMeta::parse`.

The decoders share one iterator; here it is the list of strings not yet
taken, a `peek` is a look at its head, and each decoder returns what it left.
A node map or a config section runs until a string that upper-cases to
`PEER` or `CONFIG`, or to the end. Upper-casing is Rust's `str::to_uppercase`,
which follows the Unicode tables: it is the parameter `toUppercase`, as
lower-casing is `toLowercase` in `ClusterConfig::set_field`. The `HashMap`s
are `OrdMap`s, and `NodeMap::parse` fills its map through
`entry().or_insert_with` (`OrdMap.upsert`). A compressed cluster
(`COMPRESS`) is base64 over gzip over JSON, whose decoding is the parameter
`fromCompressedData`.
-/

namespace Undermoon

/-- `CmdParseError`. -/
inductive CmdParseError where
  | invalidVersion
  | invalidEpoch
  | invalidClusterName
  | invalidSlots
  | invalidConfig
  | invalidRole
  | invalidArgs
deriving DecidableEq, Repr

/-- `ParseExtendedMetaError`: the config section was refused but the node
maps are whole. -/
structure ParseExtendedMetaError where
deriving DecidableEq, Repr

/-! ## Flags -/

/-- `bytes_ascii_case_insensitive_eq`; `b + DELTA` wraps as `u8` addition
does in a release build. -/
def bytesAsciiCaseInsensitiveEq (lhs rhs : List UInt8) : Bool :=
  lhs.length == rhs.length &&
    (lhs.zip rhs).all fun (a, b) =>
      a == b || (decide (97 ≤ a) && decide (a ≤ 122) && a == b + 32) ||
        (decide (65 ≤ a) && decide (a ≤ 90) && a + 32 == b)

/-- `str_ascii_case_insensitive_eq`, on the UTF-8 bytes. -/
def strAsciiCaseInsensitiveEq (lhs rhs : String) : Bool :=
  bytesAsciiCaseInsensitiveEq lhs.toUTF8.toList rhs.toUTF8.toList

/-- `has_flags`: a piece of `s` split at `delimiter` is `flag` up to ASCII
case. -/
def hasFlags (s : String) (delimiter : Char) (flag : String) : Bool :=
  ((s.toList.splitOn delimiter).map String.ofList).any fun p => strAsciiCaseInsensitiveEq p flag

/-- `ClusterMapFlags`. -/
structure ClusterMapFlags where
  force : Bool
  compress : Bool
deriving DecidableEq, Repr

namespace ClusterMapFlags

/-- `ClusterMapFlags::to_arg`. -/
def toArg (f : ClusterMapFlags) : String :=
  let flags := (if f.force then ["FORCE"] else []) ++ (if f.compress then ["COMPRESS"] else [])
  if flags.isEmpty then "NOFLAG" else ",".intercalate flags

/-- `ClusterMapFlags::from_arg`. -/
def fromArg (flagsStr : String) : ClusterMapFlags :=
  ⟨hasFlags flagsStr ',' "FORCE", hasFlags flagsStr ',' "COMPRESS"⟩

end ClusterMapFlags

/-- `PEER_PREFIX`. -/
def peerPrefix : String := "PEER"

/-- `CONFIG_PREFIX`. -/
def configPrefix : String := "CONFIG"

/-- `SET_CLUSTER_API_VERSION`. -/
def setClusterApiVersion : String := "v2"

/-- `ProxyClusterMeta`. `local` is a keyword, so the local node map is
`localMap`. -/
structure ProxyClusterMeta where
  version : String
  epoch : UInt64
  flags : ClusterMapFlags
  clusterName : ClusterName
  localMap : OrdMap String (List SlotRange)
  peer : OrdMap String (List SlotRange)
  clusterConfig : ClusterConfig

/-! ## The decoders leave a suffix

Each decoder of `common/cluster.rs` takes strings off the front, which is
what makes the loops below terminate. -/

theorem MigrationMeta.fromStrings_suffix {l rest : List String} {m : MigrationMeta}
    (h : MigrationMeta.fromStrings l = some (m, rest)) : rest <:+ l := by
  match l, h with
  | e :: a :: b :: c :: d :: it, h =>
      simp only [MigrationMeta.fromStrings, Option.bind_eq_bind] at h
      cases he : parseU64 e with
      | none => simp [he] at h
      | some epoch =>
          simp only [he, Option.bind_some, Option.some.injEq, Prod.mk.injEq] at h
          rw [← h.2]
          exact List.suffix_append [e, a, b, c, d] it

theorem RangeList.parseRanges_suffix :
    ∀ {n : Nat} {l rest : List String} {ranges : List Range},
      RangeList.parseRanges n l = some (ranges, rest) → rest <:+ l
  | 0, l, rest, ranges, h => by
      simp only [RangeList.parseRanges, Option.some.injEq, Prod.mk.injEq] at h
      obtain ⟨-, rfl⟩ := h
      exact List.suffix_refl l
  | _ + 1, [], _, _, h => by simp [RangeList.parseRanges] at h
  | n + 1, s :: it, rest, ranges, h => by
      simp only [RangeList.parseRanges, Option.bind_eq_bind] at h
      cases hr : RangeList.parseSlotRange s with
      | none => simp [hr] at h
      | some r =>
          cases hrs : RangeList.parseRanges n it with
          | none => simp [hr, hrs] at h
          | some p =>
              obtain ⟨ranges', it'⟩ := p
              simp only [hr, hrs, Option.bind_some, Option.some.injEq, Prod.mk.injEq] at h
              rw [← h.2]
              exact (RangeList.parseRanges_suffix hrs).trans (List.suffix_cons s it)

theorem RangeList.parse_suffix {l rest : List String} {rl : RangeList}
    (h : RangeList.parse l = some (rl, rest)) : rest <:+ l := by
  match l, h with
  | s :: it, h =>
      simp only [RangeList.parse, Option.bind_eq_bind] at h
      cases hn : parseUsize s with
      | none => simp [hn] at h
      | some n =>
          cases hrs : RangeList.parseRanges n it with
          | none => simp [hn, hrs] at h
          | some p =>
              obtain ⟨ranges, it'⟩ := p
              simp only [hn, hrs, Option.bind_some, Option.some.injEq, Prod.mk.injEq] at h
              rw [← h.2]
              exact (RangeList.parseRanges_suffix hrs).trans (List.suffix_cons s it)

/-- A tagged slot range is its tag, a range list and the metadata; an
untagged one is a range list alone. -/
theorem SlotRange.fromStrings_suffix {toUppercase : String → String} {l rest : List String}
    {sr : SlotRange} (h : SlotRange.fromStrings toUppercase l = some (sr, rest)) : rest <:+ l := by
  -- the range list and the metadata after a tag
  have htagged : ∀ {s : String} {it : List String} {rl : RangeList} {it' : List String},
      RangeList.parse it = some (rl, it') → ∀ {m : MigrationMeta},
        MigrationMeta.fromStrings it' = some (m, rest) → rest <:+ s :: it :=
    fun hrl _ hm => (MigrationMeta.fromStrings_suffix hm).trans
      ((RangeList.parse_suffix hrl).trans (List.suffix_cons _ _))
  match l, h with
  | s :: it, h =>
      simp only [SlotRange.fromStrings, Option.bind_eq_bind] at h
      split at h
      · cases hrl : RangeList.parse it with
        | none => simp [hrl] at h
        | some p =>
            cases hm : MigrationMeta.fromStrings p.2 with
            | none => simp [hrl, hm] at h
            | some q =>
                obtain ⟨m, it''⟩ := q
                simp only [hrl, hm, Option.bind_some, Option.some.injEq, Prod.mk.injEq] at h
                rw [h.2] at hm
                exact htagged hrl hm
      · split at h
        · cases hrl : RangeList.parse it with
          | none => simp [hrl] at h
          | some p =>
              cases hm : MigrationMeta.fromStrings p.2 with
              | none => simp [hrl, hm] at h
              | some q =>
                  obtain ⟨m, it''⟩ := q
                  simp only [hrl, hm, Option.bind_some, Option.some.injEq, Prod.mk.injEq] at h
                  rw [h.2] at hm
                  exact htagged hrl hm
        · cases hrl : RangeList.parse (s :: it) with
          | none => simp [hrl] at h
          | some p =>
              simp only [hrl, Option.bind_some, Option.some.injEq, Prod.mk.injEq] at h
              rw [← h.2]
              exact RangeList.parse_suffix hrl

/-! ## Node maps and the config -/

section

variable (toUppercase toLowercase : String → String)

/-- The peeked string ends a node map or a config section. -/
def endsSection (token : String) : Bool :=
  toUppercase token == peerPrefix || toUppercase token == configPrefix

namespace NodeMap

/-- `NodeMap::to_args`: the address before each of its slot ranges. -/
def toArgs (nodeMap : OrdMap String (List SlotRange)) : List String :=
  nodeMap.entries.flatMap fun e => e.2.flatMap fun slotRange => e.1 :: slotRange.intoStrings

/-- The loop of `NodeMap::parse`: `parse_node` reads an address and a slot
range, whose failure `try_parse!` turns into `InvalidArgs`, and the range
goes after those of its address already read. -/
def parseFrom (nodeMap : OrdMap String (List SlotRange)) :
    List String → Except CmdParseError (OrdMap String (List SlotRange) × List String)
  | [] => .ok (nodeMap, [])
  | address :: it =>
      if endsSection toUppercase address then .ok (nodeMap, address :: it)
      else
        match h : SlotRange.fromStrings toUppercase it with
        | none => .error .invalidArgs
        | some (slotRange, it') => parseFrom (nodeMap.upsert address [] (· ++ [slotRange])) it'
termination_by it => it.length
decreasing_by
  have := (SlotRange.fromStrings_suffix h).length_le
  simp only [List.length_cons]
  omega

/-- `NodeMap::parse`. -/
def parse (it : List String) : Except CmdParseError (OrdMap String (List SlotRange) × List String) :=
  parseFrom toUppercase ∅ it

end NodeMap

namespace ClusterConfigData

/-- `ClusterConfigData::to_args`: the pairs of `to_str_map`. -/
def toArgs (config : ClusterConfig) : List String :=
  config.toStrMap.flatMap fun kv => [kv.1, kv.2]

/-- The loop of `ClusterConfigData::parse`: a field and its value at a time,
a refused pair being `InvalidConfig`. The strings left are returned on an
error too, since the caller goes on reading after one. -/
def parseFrom (config : ClusterConfig) : List String → Except CmdParseError ClusterConfig × List String
  | [] => (.ok config, [])
  | field :: it =>
      if endsSection toUppercase field then (.ok config, field :: it)
      else
        match it with
        | [] => (.error .invalidArgs, [])
        | value :: it =>
            match config.setField toLowercase field value with
            | .ok config => parseFrom config it
            | .error _ => (.error .invalidConfig, it)

/-- `ClusterConfigData::parse`, from `ClusterConfig::default()`. -/
def parse (it : List String) : Except CmdParseError ClusterConfig × List String :=
  parseFrom toUppercase toLowercase ClusterConfig.default it

end ClusterConfigData

theorem NodeMap.parseFrom_suffix {nodeMap : OrdMap String (List SlotRange)} {it : List String}
    {m : OrdMap String (List SlotRange)} {rest : List String}
    (h : NodeMap.parseFrom toUppercase nodeMap it = .ok (m, rest)) : rest <:+ it := by
  induction nodeMap, it using NodeMap.parseFrom.induct toUppercase with
  | case1 nodeMap =>
      rw [NodeMap.parseFrom] at h
      cases h
      exact List.suffix_refl []
  | case2 nodeMap address it hends =>
      rw [NodeMap.parseFrom, if_pos hends] at h
      cases h
      exact List.suffix_refl _
  | case3 nodeMap address it hends hsr =>
      rw [NodeMap.parseFrom, if_neg hends] at h
      split at h
      · cases h
      · next heq => simp [hsr] at heq
  | case4 nodeMap address it hends slotRange it' hsr ih =>
      rw [NodeMap.parseFrom, if_neg hends] at h
      split at h
      · next heq => simp [hsr] at heq
      · next slotRange' it'' heq =>
          rw [hsr, Option.some.injEq, Prod.mk.injEq] at heq
          obtain ⟨rfl, rfl⟩ := heq
          exact (ih h).trans ((SlotRange.fromStrings_suffix hsr).trans (List.suffix_cons _ _))

theorem ClusterConfigData.parseFrom_suffix :
    ∀ {config : ClusterConfig} {it : List String},
      (ClusterConfigData.parseFrom toUppercase toLowercase config it).2 <:+ it
  | _, [] => List.suffix_refl []
  | config, field :: it => by
      unfold ClusterConfigData.parseFrom
      split
      · exact List.suffix_refl _
      · match it with
        | [] => exact List.nil_suffix
        | value :: it =>
            simp only
            split
            · exact ClusterConfigData.parseFrom_suffix.trans
                ((List.suffix_cons value it).trans (List.suffix_cons field _))
            · exact (List.suffix_cons value it).trans (List.suffix_cons field _)

/-! ## The cluster -/

namespace ProxyClusterMeta

/-- `ProxyClusterMeta::to_args`. The epoch is written by `u64::to_string`. -/
def toArgs (m : ProxyClusterMeta) : List String :=
  let localArgs := NodeMap.toArgs m.localMap
  let peerArgs := NodeMap.toArgs m.peer
  let configArgs := ClusterConfigData.toArgs m.clusterConfig
  [m.version, toString m.epoch.toNat, m.flags.toArg, m.clusterName.name] ++ localArgs ++
    (if peerArgs.isEmpty then [] else peerPrefix :: peerArgs) ++
    (if configArgs.isEmpty then [] else configPrefix :: configArgs)

/-- The `while let Some(token) = it.next()` loop of `ProxyClusterMeta::parse`
after the local map: a `PEER` section replaces the peer map, a `CONFIG`
section the config; a refused config section is an error only when a node map
is empty, and is otherwise reported beside the result. -/
def parseSections (localMap : OrdMap String (List SlotRange)) :
    OrdMap String (List SlotRange) → ClusterConfig → Except ParseExtendedMetaError Unit →
      List String →
      Except CmdParseError
        (OrdMap String (List SlotRange) × ClusterConfig × Except ParseExtendedMetaError Unit)
  | peer, config, extendedMetaResult, [] => .ok (peer, config, extendedMetaResult)
  | peer, config, extendedMetaResult, token :: it =>
      if toUppercase token = peerPrefix then
        match h : NodeMap.parse toUppercase it with
        | .ok (peer, it') => parseSections localMap peer config extendedMetaResult it'
        | .error e => .error e
      else if toUppercase token = configPrefix then
        match h : ClusterConfigData.parse toUppercase toLowercase it with
        | (.ok config, it') => parseSections localMap peer config extendedMetaResult it'
        | (.error _, it') =>
            if localMap.entries.isEmpty || peer.entries.isEmpty then .error .invalidArgs
            else parseSections localMap peer config (.error ⟨⟩) it'
      else .error .invalidArgs
termination_by _ _ _ it => it.length
decreasing_by
  all_goals
    simp only [List.length_cons]
  · have := (NodeMap.parseFrom_suffix toUppercase h).length_le
    omega
  · have := (@ClusterConfigData.parseFrom_suffix toUppercase toLowercase
      ClusterConfig.default it).length_le
    rw [show ClusterConfigData.parseFrom toUppercase toLowercase ClusterConfig.default it =
      (.ok config, it') from h] at this
    simp only at this
    omega
  · have := (@ClusterConfigData.parseFrom_suffix toUppercase toLowercase
      ClusterConfig.default it).length_le
    rw [show ClusterConfigData.parseFrom toUppercase toLowercase ClusterConfig.default it =
      (.error _, it') from h] at this
    simp only at this
    omega

/-- The next string, or `InvalidArgs` (`try_get!(it.next())`). -/
def next : List String → Except CmdParseError (String × List String)
  | [] => .error .invalidArgs
  | s :: it => .ok (s, it)

variable (fromCompressedData :
  String → Option (ClusterName × OrdMap String (List SlotRange) × OrdMap String (List SlotRange) ×
    ClusterConfig))

/-- `ProxyClusterMeta::parse`. A failed epoch parse is `InvalidArgs`
(`try_parse!`). -/
def parse (it : List String) :
    Except CmdParseError (ProxyClusterMeta × Except ParseExtendedMetaError Unit) := do
  let (version, it) ← next it
  if version ≠ setClusterApiVersion then throw .invalidVersion
  let (epochStr, it) ← next it
  let some epoch := parseU64 epochStr | throw .invalidArgs
  let (flagsStr, it) ← next it
  let flags := ClusterMapFlags.fromArg flagsStr
  if flags.compress then
    let (compressedData, _) ← next it
    let some (clusterName, localMap, peer, clusterConfig) := fromCompressedData compressedData
      | throw .invalidArgs
    return (⟨version, epoch, flags, clusterName, localMap, peer, clusterConfig⟩, .ok ())
  let (clusterNameStr, it) ← next it
  let some clusterName := ClusterName.tryFrom clusterNameStr | throw .invalidClusterName
  let (localMap, it) ← NodeMap.parse toUppercase it
  let (peer, clusterConfig, extendedMetaResult) ←
    parseSections toUppercase toLowercase localMap ∅ ClusterConfig.default (.ok ()) it
  return (⟨version, epoch, flags, clusterName, localMap, peer, clusterConfig⟩, extendedMetaResult)

end ProxyClusterMeta

end

end Undermoon
