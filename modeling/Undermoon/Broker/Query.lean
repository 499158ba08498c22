import Undermoon.Broker.Store

/-!
# Reading the store

`broker/query.rs`: the free proxies, the cluster view a proxy or a client is
handed (`cluster_store_to_cluster` after `limit_migration`), the per-proxy
view `get_proxy_by_address` that the coordinator turns into `UMCTL
SETCLUSTER`, and the consistency check `check_metadata`.

`cluster_store_to_cluster` resolves every migration entry to addresses and
`expect`s the chunk positions it reads to exist; those functions return an
`Option` whose `none` is that panic. A query that completes is `some`.
-/

namespace Undermoon

namespace ChunkStore

/-- Node `j` of half `i` is node `2 * i + j` of the chunk. -/
theorem nodeIndex_lt (i j : Fin 2) : 2 * i.val + j.val < 4 := by omega

/-- Node `j` of a chunk belongs to half `j / 2`. -/
theorem nodeHalf_lt (j : Fin 4) : j.val / 2 < 2 := by omega

/-- The two node addresses of one half of a chunk, as `check_metadata` and
`replace_failed_proxy` read them: nodes 0 and 1 for part 0, 2 and 3 for
part 1. -/
def halfNodes (c : ChunkStore) (i : Fin 2) : Fin 2 → String :=
  fun j => c.nodeAddresses ⟨2 * i.val + j.val, nodeIndex_lt i j⟩

/-- The node indices that carry the slots of part 0 and part 1, by role
position. -/
def slotNodeIndices : ChunkRolePosition → Nat × Nat
  | .normal => (0, 2)
  | .firstChunkMaster => (0, 1)
  | .secondChunkMaster => (3, 2)

/-- The role of node `i` of a chunk. -/
def nodeRole (rolePosition : ChunkRolePosition) (i : Nat) : Role :=
  match rolePosition with
  | .normal => if i % 2 = 1 then .replica else .master
  | .firstChunkMaster => if i ≥ 2 then .replica else .master
  | .secondChunkMaster => if i < 2 then .replica else .master

/-- The replication peer of node `i`. -/
def peerIndex : Fin 4 → Fin 4
  | 0 => 3
  | 1 => 2
  | 2 => 1
  | 3 => 0

/-- The peer of node `j` belongs to half `peerIndex j / 2`. -/
theorem peerHalf_lt (j : Fin 4) : (peerIndex j).val / 2 < 2 := nodeHalf_lt _

end ChunkStore

namespace MetaStoreQuery

/-- The slots node `i` of `chunk` reports: its part's stable slots and then its
part's migration entries, if the role position puts a part's master there. -/
def nodeSlots (chunks : List ChunkStore) (chunk : ChunkStore) (i : Fin 4) :
    Option (List SlotRange) := do
  let (first, second) := ChunkStore.slotNodeIndices chunk.rolePosition
  let partSlots (p : Fin 2) : Option (List SlotRange) := do
    let migrating ← (chunk.migratingSlots p).mapM (·.toSlotRange chunks)
    pure ((chunk.stableSlots p).toList ++ migrating)
  let a ← if i.val = first then partSlots 0 else pure []
  let b ← if i.val = second then partSlots 1 else pure []
  pure (a ++ b)

/-- Node `i` of `chunk` in the cluster view. -/
def chunkNode (chunks : List ChunkStore) (chunk : ChunkStore) (i : Fin 4) : Option Node := do
  let slots ← nodeSlots chunks chunk i
  let p := ChunkStore.peerIndex i
  let peer : ReplPeer :=
    ⟨chunk.nodeAddresses p, chunk.proxyAddresses ⟨p.val / 2, ChunkStore.nodeHalf_lt p⟩⟩
  pure ⟨chunk.nodeAddresses i, chunk.proxyAddresses ⟨i.val / 2, ChunkStore.nodeHalf_lt i⟩, slots,
    ⟨ChunkStore.nodeRole chunk.rolePosition i.val, [peer]⟩⟩

/-- `cluster_store_to_cluster`: four nodes per chunk, in chunk order. -/
def clusterStoreToCluster (c : ClusterStore) : Option Cluster := do
  let nodes ← c.chunks.mapM fun chunk => (List.finRange 4).mapM (chunkNode c.chunks chunk)
  pure ⟨c.name, c.epoch, nodes.flatten, c.config⟩

/-- `get_cluster_store`: the cluster as the proxies are shown it. -/
def getClusterStore (s : MetaStore) (name : ClusterName) (migrationLimit : UInt64) :
    Option (Option ClusterStore) :=
  match s.clusters.get? name with
  | some c => (c.limitMigration migrationLimit).map some
  | none => some none

/-- `group_by(proxy_address)` of itertools: runs of consecutive nodes of one
proxy, each gathered into a `PeerProxy` with all its slots. -/
def groupPeers (nodes : List Node) : List PeerProxy :=
  (nodes.splitBy fun a b => a.proxyAddress == b.proxyAddress).map fun group =>
    ⟨(group.head?.map Node.proxyAddress).getD "", group.flatMap Node.slots⟩

/-- The proxy view of a proxy in a cluster: its own nodes, the masters of
every other proxy as peers, the cluster epoch and config. -/
def proxyInCluster (address : String) (cluster : Cluster) : Proxy :=
  let nodes := cluster.nodes.filter fun n => n.proxyAddress == address
  let peers := groupPeers (cluster.nodes.filter fun n =>
    n.repl.role == .master && n.proxyAddress != address)
  ⟨some cluster.name, address, cluster.epoch, nodes, peers, some cluster.config⟩

/-- The proxy view of a free proxy: its nodes without slots, at the global
epoch. -/
def freeProxy (s : MetaStore) (address : String) (r : ProxyResource) : Proxy :=
  let nodes := [0, 1].map fun (j : Fin 2) => (⟨r.nodeAddresses j, r.proxyAddress, [], ReplMeta.newFree⟩ : Node)
  ⟨none, address, s.globalEpoch, nodes, [], none⟩

/-- `get_proxy_by_address`: `none` for an unknown proxy. -/
def getProxyByAddress (s : MetaStore) (address : String) (migrationLimit : UInt64) :
    Option (Option Proxy) :=
  match s.allProxies.get? address with
  | none => some none
  | some r =>
      let clusterOpt : Option (Option ClusterStore) :=
        match r.cluster with
        | some name => getClusterStore s name migrationLimit
        | none => some none
      match clusterOpt with
      | none => none
      | some none => some (some (freeProxy s address r))
      | some (some c) => (clusterStoreToCluster c).map fun cluster =>
          some (proxyInCluster address cluster)

/-- `get_free_proxy_resource`: proxies in no cluster and not reported failed,
in iteration order. -/
def getFreeProxyResource (s : MetaStore) : List ProxyResource :=
  s.allProxies.values.filter fun r =>
    r.cluster.isNone && !(decide (r.proxyAddress ∈ s.failedProxies)) &&
      !(decide (r.proxyAddress ∈ s.failures))

/-- `get_free_proxies`: the same as host and address pairs (`HostProxy`). -/
def getFreeProxies (s : MetaStore) : List (String × String) :=
  (getFreeProxyResource s).map fun r => (r.host, r.proxyAddress)

/-- The checks `check_metadata` makes on half `i` of a chunk of cluster
`name`, given the addresses already met in that cluster. -/
def checkHalf (s : MetaStore) (name : ClusterName) (chunk : ChunkStore) (i : Fin 2)
    (seen : List String) : Bool × List String :=
  let address := chunk.proxyAddresses i
  match s.allProxies.get? address with
  | none => (false, seen)
  | some r =>
      (r.proxyAddress == address && r.cluster == some name && !seen.contains address &&
        r.host == chunk.hosts i && decide (chunk.halfNodes i = r.nodeAddresses),
       address :: seen)

/-- The first loop of `check_metadata` over one cluster. -/
def checkCluster (s : MetaStore) (name : ClusterName) (c : ClusterStore) : Bool :=
  (c.chunks.foldl (fun (acc : Bool × List String) chunk =>
    let (ok0, seen) := checkHalf s name chunk 0 acc.2
    let (ok1, seen) := checkHalf s name chunk 1 seen
    (acc.1 && ok0 && ok1, seen)) (true, [])).1

/-- The second loop of `check_metadata` over one proxy. -/
def checkProxy (s : MetaStore) (address : String) (r : ProxyResource) : Bool :=
  match r.cluster with
  | none => true
  | some name =>
      match s.clusters.get? name with
      | none => false
      | some c => c.chunks.any fun chunk =>
          chunk.proxyAddresses 0 == address || chunk.proxyAddresses 1 == address

/-- `check_metadata`. -/
def checkMetadata (s : MetaStore) : Bool :=
  s.clusters.entries.all (fun e => checkCluster s e.1 e.2) &&
    s.allProxies.entries.all fun e => checkProxy s e.1 e.2

end MetaStoreQuery

end Undermoon
