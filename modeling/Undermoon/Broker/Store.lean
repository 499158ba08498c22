import Undermoon.Common.Cluster
import Undermoon.Lib.OrdMap

/-!
# The broker's metadata store

`broker/store.rs`: the proxies the broker knows, the clusters built from them
in chunks of two proxies and four nodes, and the migrations recorded on the
chunks. A chunk keeps, for each of its two halves ("parts"), the stable slots
of that half's master and the migration entries (`MigrationSlotRangeStore`)
that move slots out of it or into it; a migration is stored twice, as a
migrating entry at its source part and as an importing entry at its
destination part, both carrying the same `MigrationMetaStore`.

The fixed-size arrays of a chunk (`[T; 2]` per part, `[String; 4]` for the
nodes) are functions out of `Fin 2` and `Fin 4`. The code indexes them with a
`usize` part read from a migration meta and `expect`s the result, so the
model's accessors take a `Nat` and return `none` where the code panics.

The three `HashMap`s of `MetaStore` are `OrdMap`s: their entry order is the
iteration order, which no operation controls. The `HashSet` of failed proxies
is a `Finset`: the code only inserts, removes and tests it.
-/

namespace Undermoon

/-- The bounds of the part and node indices: every numeral of `Fin 2` and
`Fin 4` below refers to these two facts instead of a proof of its own. -/
instance instNeZeroTwo : NeZero (2 : Nat) := ⟨by decide⟩

instance instNeZeroFour : NeZero (4 : Nat) := ⟨by decide⟩

/-- `CHUNK_NODE_NUM`. -/
def chunkNodeNum : Nat := 4

/-- `ProxyResource`: a server proxy the broker knows, with its two nodes, its
host, its StatefulSet index and the cluster that holds it. -/
structure ProxyResource where
  proxyAddress : String
  nodeAddresses : Fin 2 → String
  host : String
  index : Nat
  cluster : Option ClusterName
deriving DecidableEq

/-- `ChunkRolePosition`: which half of a chunk holds its two masters. -/
inductive ChunkRolePosition where
  | normal
  | firstChunkMaster
  | secondChunkMaster
deriving DecidableEq, Repr

/-- `MigrationMetaStore`: a migration by chunk positions. -/
structure MigrationMetaStore where
  epoch : UInt64
  srcChunkIndex : Nat
  srcChunkPart : Nat
  dstChunkIndex : Nat
  dstChunkPart : Nat
deriving DecidableEq, Repr

/-- `MigrationSlotRangeStore`: one side of a migration. The field `taskMeta`
is the source's `meta`, a keyword here. -/
structure MigrationSlotRangeStore where
  rangeList : RangeList
  isMigrating : Bool
  taskMeta : MigrationMetaStore
deriving DecidableEq, Repr

/-- `ChunkStore`. -/
structure ChunkStore where
  rolePosition : ChunkRolePosition
  stableSlots : Fin 2 → Option SlotRange
  migratingSlots : Fin 2 → List MigrationSlotRangeStore
  proxyAddresses : Fin 2 → String
  hosts : Fin 2 → String
  nodeAddresses : Fin 4 → String
deriving DecidableEq

/-- `ClusterStore`. -/
structure ClusterStore where
  epoch : UInt64
  name : ClusterName
  chunks : List ChunkStore
  config : ClusterConfig
deriving DecidableEq

/-- `MigrationSlots`: a planned migration before it is stored. -/
structure MigrationSlots where
  ranges : RangeList
  taskMeta : MigrationMetaStore
deriving DecidableEq, Repr

/-- `MetaStore`. `failures` maps a failed proxy to its reporters and the time
of each report. -/
structure MetaStore where
  version : String
  globalEpoch : UInt64
  clusters : OrdMap ClusterName ClusterStore
  allProxies : OrdMap String ProxyResource
  failedProxies : Finset String
  failures : OrdMap String (OrdMap String Int)
  enableOrderedProxy : Bool

/-- `MetaStoreError`, without `SyncError`, which only the persistence layer
raises. -/
inductive MetaStoreError where
  | inUse
  | notInUse
  | noAvailableResource
  | resourceNotBalance
  | alreadyExisted
  | clusterNotFound
  | freeNodeNotFound
  | freeNodeFound
  | proxyNotFound
  | invalidNodeNum
  | nodeNumAlreadyEnough
  | invalidClusterName
  | invalidMigrationTask
  | invalidProxyAddress
  | migrationTaskNotFound
  | migrationRunning
  | invalidConfig (key value error : String)
  | slotsAlreadyEven
  | invalidMetaVersion
  | smallEpoch
  | missingIndex
  | proxyResourceOutOfOrder
  | orderedProxyEnabled
  | oneClusterAlreadyExisted
  | proxyNotSync
  | nodeNumberChanging
  | external
  | retry
  | emptyExternalVersion
  | externalTimeout
deriving DecidableEq, Repr

/-! ## Chunks and their parts -/

/-- A part index read from a migration meta, checked the way `get_mut(part)`
checks it. -/
def partIndex? (p : Nat) : Option (Fin 2) := if h : p < 2 then some ⟨p, h⟩ else none

namespace ChunkStore

/-- `stable_slots.get_mut(part)` followed by an update. -/
def updateStable (c : ChunkStore) (p : Fin 2) (f : Option SlotRange → Option SlotRange) :
    ChunkStore :=
  { c with stableSlots := Function.update c.stableSlots p (f (c.stableSlots p)) }

/-- `migrating_slots.get_mut(part)` followed by an update. -/
def updateMigrating (c : ChunkStore) (p : Fin 2)
    (f : List MigrationSlotRangeStore → List MigrationSlotRangeStore) : ChunkStore :=
  { c with migratingSlots := Function.update c.migratingSlots p (f (c.migratingSlots p)) }

/-- A chunk none of whose parts has stable slots or migration entries: what
`auto_delete_free_nodes` removes. -/
def isFree (c : ChunkStore) : Bool :=
  (c.stableSlots 0).isNone && (c.stableSlots 1).isNone &&
    (c.migratingSlots 0).isEmpty && (c.migratingSlots 1).isEmpty

/-- Any migration entry on either part. -/
def hasMigration (c : ChunkStore) : Bool :=
  !(c.migratingSlots 0).isEmpty || !(c.migratingSlots 1).isEmpty

@[simp] theorem updateStable_stableSlots_self (c : ChunkStore) (p : Fin 2) (f) :
    (c.updateStable p f).stableSlots p = f (c.stableSlots p) := by
  simp [updateStable]

@[simp] theorem updateStable_migratingSlots (c : ChunkStore) (p : Fin 2) (f) :
    (c.updateStable p f).migratingSlots = c.migratingSlots := rfl

@[simp] theorem updateStable_proxyAddresses (c : ChunkStore) (p : Fin 2) (f) :
    (c.updateStable p f).proxyAddresses = c.proxyAddresses := rfl

@[simp] theorem updateStable_hosts (c : ChunkStore) (p : Fin 2) (f) :
    (c.updateStable p f).hosts = c.hosts := rfl

@[simp] theorem updateStable_nodeAddresses (c : ChunkStore) (p : Fin 2) (f) :
    (c.updateStable p f).nodeAddresses = c.nodeAddresses := rfl

@[simp] theorem updateStable_rolePosition (c : ChunkStore) (p : Fin 2) (f) :
    (c.updateStable p f).rolePosition = c.rolePosition := rfl

@[simp] theorem updateMigrating_stableSlots (c : ChunkStore) (p : Fin 2) (f) :
    (c.updateMigrating p f).stableSlots = c.stableSlots := rfl

@[simp] theorem updateMigrating_proxyAddresses (c : ChunkStore) (p : Fin 2) (f) :
    (c.updateMigrating p f).proxyAddresses = c.proxyAddresses := rfl

@[simp] theorem updateMigrating_hosts (c : ChunkStore) (p : Fin 2) (f) :
    (c.updateMigrating p f).hosts = c.hosts := rfl

@[simp] theorem updateMigrating_nodeAddresses (c : ChunkStore) (p : Fin 2) (f) :
    (c.updateMigrating p f).nodeAddresses = c.nodeAddresses := rfl

@[simp] theorem updateMigrating_rolePosition (c : ChunkStore) (p : Fin 2) (f) :
    (c.updateMigrating p f).rolePosition = c.rolePosition := rfl

end ChunkStore

/-- `chunks.get_mut(index)` followed by an update; `none` where the code's
`expect` panics. -/
def updateChunk? (chunks : List ChunkStore) (i : Nat) (f : ChunkStore → Option ChunkStore) :
    Option (List ChunkStore) :=
  match chunks[i]? with
  | some c => (f c).map fun c' => chunks.set i c'
  | none => none

/-! ## From chunk positions to addresses -/

namespace MigrationSlotRangeStore

/-- `chunk_part_to_proxy_index`: after a failover both masters sit on one
proxy. -/
def chunkPartToProxyIndex (chunkPart : Nat) (rolePosition : ChunkRolePosition) : Nat :=
  match chunkPart, rolePosition with
  | 0, .secondChunkMaster => 1
  | 1, .firstChunkMaster => 0
  | i, _ => i

/-- `chunk_part_to_node_index`. -/
def chunkPartToNodeIndex (chunkPart : Nat) (rolePosition : ChunkRolePosition) : Nat :=
  match chunkPart, rolePosition with
  | 0, .secondChunkMaster => 3
  | 1, .firstChunkMaster => 1
  | i, _ => 2 * i

/-- The proxy and node address of one end of a migration. -/
def endpoint? (chunks : List ChunkStore) (index part : Nat) : Option (String × String) := do
  let chunk ← chunks[index]?
  let proxyIndex := chunkPartToProxyIndex part chunk.rolePosition
  let nodeIndex := chunkPartToNodeIndex part chunk.rolePosition
  if hp : proxyIndex < 2 then
    if hn : nodeIndex < 4 then
      pure (chunk.proxyAddresses ⟨proxyIndex, hp⟩, chunk.nodeAddresses ⟨nodeIndex, hn⟩)
    else none
  else none

/-- The entry with its meta's epoch set. -/
def withEpoch (s : MigrationSlotRangeStore) (e : UInt64) : MigrationSlotRangeStore :=
  { s with taskMeta := { s.taskMeta with epoch := e } }

/-- `MigrationSlotRangeStore::to_slot_range`: the stored positions resolved to
the addresses the proxies know. -/
def toSlotRange (s : MigrationSlotRangeStore) (chunks : List ChunkStore) : Option SlotRange := do
  let (srcProxy, srcNode) ← endpoint? chunks s.taskMeta.srcChunkIndex s.taskMeta.srcChunkPart
  let (dstProxy, dstNode) ← endpoint? chunks s.taskMeta.dstChunkIndex s.taskMeta.dstChunkPart
  let m : MigrationMeta := ⟨s.taskMeta.epoch, srcProxy, srcNode, dstProxy, dstNode⟩
  pure ⟨s.rangeList, if s.isMigrating then .migrating m else .importing m⟩

end MigrationSlotRangeStore

/-! ## Clusters -/

/-- `MAX_MIGRATING_OUT` of `limit_migration`. -/
def maxMigratingOut : Nat := 1

/-- The loop state of `limit_migration`: the rebuilt chunks, the number of
migrations let through, and how many leave each source part. -/
structure LimitState where
  chunks : List ChunkStore
  migrationNum : Nat
  migratingOut : Nat × Nat → Nat

namespace ClusterStore

/-- `ClusterStore::is_migrating`. -/
def isMigrating (c : ClusterStore) : Bool := c.chunks.any ChunkStore.hasMigration

/-- `get_proxy_addresses`. -/
def getProxyAddresses (c : ClusterStore) : List String :=
  c.chunks.flatMap fun chunk => [chunk.proxyAddresses 0, chunk.proxyAddresses 1]

/-- `get_node_number`. -/
def getNodeNumber (c : ClusterStore) : Nat := c.chunks.length * chunkNodeNum

/-- Every migration entry of the cluster, in the order `limit_migration` and
`commit_migration` visit them: chunk by chunk, part 0 before part 1. -/
def entries (chunks : List ChunkStore) : List MigrationSlotRangeStore :=
  chunks.flatMap fun chunk => chunk.migratingSlots 0 ++ chunk.migratingSlots 1

/-- One entry of the `limit_migration` loop. Importing entries are skipped
(the migrating side recreates them). A migrating entry past the limit, or from
a source part that already sends one, is deferred: its slots go back to the
source part's stable slots. Any other is kept on both sides. -/
def limitStep (limit : UInt64) (st : LimitState) (s : MigrationSlotRangeStore) :
    Option LimitState :=
  if !s.isMigrating then some st
  else
    let m := s.taskMeta
    let key := (m.srcChunkIndex, m.srcChunkPart)
    let count := st.migratingOut key
    if st.migrationNum ≥ limit.toNat ∨ count ≥ maxMigratingOut then do
      let p ← partIndex? m.srcChunkPart
      let chunks ← updateChunk? st.chunks m.srcChunkIndex fun chunk =>
        some (chunk.updateStable p fun stable =>
          let slots := stable.getD ⟨RangeList.new [], .none⟩
          some { slots with rangeList := slots.rangeList.mergeAnother s.rangeList })
      pure { st with chunks }
    else do
      let sp ← partIndex? m.srcChunkPart
      let chunks ← updateChunk? st.chunks m.srcChunkIndex fun chunk =>
        some (chunk.updateMigrating sp (· ++ [s]))
      let dp ← partIndex? m.dstChunkPart
      let chunks ← updateChunk? chunks m.dstChunkIndex fun chunk =>
        some (chunk.updateMigrating dp (· ++ [{ s with isMigrating := false }]))
      pure ⟨chunks, st.migrationNum + 1, Function.update st.migratingOut key (count + 1)⟩

/-- `ClusterStore::limit_migration`: at most `migration_limit` migrations,
and at most one per source part, are shown to the proxies; a limit of zero
shows them all. -/
def limitMigration (c : ClusterStore) (migrationLimit : UInt64) : Option ClusterStore :=
  if migrationLimit = 0 then some c
  else
    let cleared := c.chunks.map fun chunk => { chunk with migratingSlots := fun _ => [] }
    let init : LimitState := ⟨cleared, 0, fun _ => 0⟩
    (entries c.chunks).foldlM (limitStep migrationLimit) init |>.map fun st =>
      { c with chunks := st.chunks }

end ClusterStore

/-! ## The store -/

/-- `UNDERMOON_MEM_BROKER_META_VERSION`. -/
def memBrokerMetaVersion : String := "mem-broker-0.2"

namespace MetaStore

/-- `MetaStore::new`. -/
def new (enableOrderedProxy : Bool) : MetaStore :=
  ⟨memBrokerMetaVersion, 0, ∅, ∅, ∅, ∅, enableOrderedProxy⟩

/-- `bump_global_epoch`: the store with its epoch one higher, and that epoch. -/
def bumpGlobalEpoch (s : MetaStore) : MetaStore × UInt64 :=
  ({ s with globalEpoch := s.globalEpoch + 1 }, s.globalEpoch + 1)

/-- `restore`: take another store wholesale, if it is of this version and not
older. -/
def restore (s other : MetaStore) : MetaStore × Except MetaStoreError Unit :=
  if s.version ≠ other.version then (s, .error .invalidMetaVersion)
  else if s.globalEpoch > other.globalEpoch then (s, .error .smallEpoch)
  else (other, .ok ())

/-- Every cluster's epoch set to `e`, as `values_mut` does. -/
def setAllClusterEpochs (s : MetaStore) (e : UInt64) : MetaStore :=
  { s with clusters := s.clusters.mapValues fun _ c => { c with epoch := e } }

/-- `force_bump_all_epoch`. -/
def forceBumpAllEpoch (s : MetaStore) (newEpoch : UInt64) : MetaStore × Except MetaStoreError Unit :=
  if newEpoch ≤ s.globalEpoch then (s, .error .smallEpoch)
  else ({ s with globalEpoch := newEpoch }.setAllClusterEpochs newEpoch, .ok ())

/-- `recover_epoch`. -/
def recoverEpoch (s : MetaStore) (existingLargestEpoch : UInt64) : MetaStore :=
  let newEpoch := max existingLargestEpoch (s.globalEpoch + 1)
  { s with globalEpoch := newEpoch }.setAllClusterEpochs newEpoch

@[simp] theorem bumpGlobalEpoch_fst_globalEpoch (s : MetaStore) :
    s.bumpGlobalEpoch.1.globalEpoch = s.globalEpoch + 1 := rfl

@[simp] theorem bumpGlobalEpoch_snd (s : MetaStore) : s.bumpGlobalEpoch.2 = s.globalEpoch + 1 :=
  rfl

@[simp] theorem bumpGlobalEpoch_fst_clusters (s : MetaStore) :
    s.bumpGlobalEpoch.1.clusters = s.clusters := rfl

@[simp] theorem bumpGlobalEpoch_fst_allProxies (s : MetaStore) :
    s.bumpGlobalEpoch.1.allProxies = s.allProxies := rfl

@[simp] theorem bumpGlobalEpoch_fst_failedProxies (s : MetaStore) :
    s.bumpGlobalEpoch.1.failedProxies = s.failedProxies := rfl

@[simp] theorem bumpGlobalEpoch_fst_failures (s : MetaStore) :
    s.bumpGlobalEpoch.1.failures = s.failures := rfl

@[simp] theorem bumpGlobalEpoch_fst_enableOrderedProxy (s : MetaStore) :
    s.bumpGlobalEpoch.1.enableOrderedProxy = s.enableOrderedProxy := rfl

end MetaStore

end Undermoon
