import Undermoon.Common.Range
import Undermoon.Common.Config

/-!
# Cluster metadata: names, slot ranges and their tags, nodes and proxies

The value types of `common/cluster.rs` that the broker builds and the
coordinator ships to the server proxies. They are plain data; the only one
with an invariant of its own is `ClusterName`, which the source keeps in an
`ArrayString` of 31 bytes behind a character check, and which the model keeps
as a string together with the proof that it passed `ClusterName::try_from`.

Epochs are `u64` in the source and `UInt64` here, so that a bump past the
largest epoch wraps as the release build does.
-/

namespace Undermoon

/-- `MigrationMeta`: the epoch the migration started at, and the source and
destination proxy and node. -/
structure MigrationMeta where
  epoch : UInt64
  srcProxyAddress : String
  srcNodeAddress : String
  dstProxyAddress : String
  dstNodeAddress : String
deriving DecidableEq, Repr

/-- `SlotRangeTag`. -/
inductive SlotRangeTag where
  | migrating (m : MigrationMeta)
  | importing (m : MigrationMeta)
  | none
deriving DecidableEq, Repr

namespace SlotRangeTag

/-- `get_migration_meta`. -/
def getMigrationMeta : SlotRangeTag → Option MigrationMeta
  | .migrating m => some m
  | .importing m => some m
  | .none => Option.none

/-- `is_migrating`. -/
def isMigrating : SlotRangeTag → Bool
  | .migrating _ => true
  | _ => false

end SlotRangeTag

/-- `SlotRange`: a range list and its tag. -/
structure SlotRange where
  rangeList : RangeList
  tag : SlotRangeTag
deriving DecidableEq, Repr

/-- `CLUSTER_NAME_MAX_LENGTH`, in bytes. -/
def clusterNameMaxLength : Nat := 31

/-- The characters `ClusterName::try_from` lets through. -/
def clusterNameChar (c : Char) : Bool :=
  c.isAlphanum || c == '@' || c == '-' || c == '_'

/-- What `ClusterName::try_from` checks: every character allowed, and the
bytes fit the `ArrayString`. -/
def ClusterName.valid (s : String) : Bool :=
  s.toList.all clusterNameChar && decide (s.utf8ByteSize ≤ clusterNameMaxLength)

/-- `ClusterName`: a string that passed `ClusterName::try_from`. -/
structure ClusterName where
  name : String
  isValid : ClusterName.valid name = true
deriving DecidableEq

instance : Repr ClusterName := ⟨fun c _ => repr c.name⟩

namespace ClusterName

/-- `ClusterName::try_from(&str)`. -/
def tryFrom (s : String) : Option ClusterName :=
  if h : ClusterName.valid s = true then some ⟨s, h⟩ else none

/-- `ClusterName::empty()`, the name of no cluster. -/
def empty : ClusterName := ⟨"", by decide⟩

theorem tryFrom_eq_some {s : String} {c : ClusterName} (h : tryFrom s = some c) :
    c.name = s := by
  unfold tryFrom at h
  split at h
  · cases h; rfl
  · cases h

@[simp] theorem tryFrom_name (c : ClusterName) : tryFrom c.name = some c := by
  unfold tryFrom
  rw [dif_pos c.isValid]

end ClusterName

/-- `MigrationTaskMeta`: what a proxy reports when a migration is done. -/
structure MigrationTaskMeta where
  clusterName : ClusterName
  slotRange : SlotRange
deriving DecidableEq

/-- `ReplPeer`. -/
structure ReplPeer where
  nodeAddress : String
  proxyAddress : String
deriving DecidableEq, Repr

/-- `Role`. -/
inductive Role where
  | master
  | replica
deriving DecidableEq, Repr

/-- `ReplMeta`. -/
structure ReplMeta where
  role : Role
  peers : List ReplPeer
deriving DecidableEq, Repr

/-- `ReplMeta::new_free()`. -/
def ReplMeta.newFree : ReplMeta := ⟨.master, []⟩

/-- `Node`. -/
structure Node where
  address : String
  proxyAddress : String
  slots : List SlotRange
  repl : ReplMeta
deriving DecidableEq, Repr

/-- `Cluster`: what the broker hands out for one cluster. -/
structure Cluster where
  name : ClusterName
  epoch : UInt64
  nodes : List Node
  config : ClusterConfig

/-- `PeerProxy`: another proxy of the cluster and the slots of its masters. -/
structure PeerProxy where
  proxyAddress : String
  slots : List SlotRange
deriving DecidableEq, Repr

/-- `Proxy`: what the broker tells one server proxy. -/
structure Proxy where
  clusterName : Option ClusterName
  address : String
  epoch : UInt64
  nodes : List Node
  peers : List PeerProxy
  clusterConfig : Option ClusterConfig
deriving DecidableEq

end Undermoon
