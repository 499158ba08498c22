import Undermoon.Broker.Allocate

/-!
# Changing the store

The public methods of `MetaStoreUpdate` in `broker/update.rs`, and the
`MetaStore` wrappers of `broker/store.rs` that compose them. Each takes the
store and gives back the store it leaves and the method's result: a Rust
method on `&mut MetaStore` keeps whatever it wrote before it returns an
error, so the store comes back on the error path too. The outer `Option` is
`none` where the method panics.

The wall clock the failure detector reads (`Utc::now()`) is an argument, in
seconds, as are the report times and the time to live.
-/

namespace Undermoon

namespace MetaStoreUpdate

/-! ## Failures -/

/-- `add_failure`: record a report unless this reporter already reported this
proxy; a new report bumps the global epoch. -/
def addFailure (s : MetaStore) (address reporterId : String) (now : Int) : MetaStore × Bool :=
  let reported := (s.failures.get? address).map fun reporters => decide (reporterId ∈ reporters)
  if reported = some true then (s, false)
  else
    let s' := s.bumpGlobalEpoch.1
    ({ s' with failures := s'.failures.upsert address ∅ fun m => m.insert reporterId now }, true)

/-- `get_failures`: drop the reports older than the time to live and the
proxies left without reports, then name the known proxies with a quorum of
reports. -/
def getFailures (s : MetaStore) (now failureTtl : Int) (failureQuorum : UInt64) :
    MetaStore × List String :=
  let fresh := s.failures.mapValues fun _ reporters =>
    reporters.filter fun _ reportTime => decide (now - reportTime < failureTtl)
  let failures := fresh.filter fun _ reporters => !reporters.entries.isEmpty
  let s := { s with failures }
  (s, (failures.entries.filter fun e =>
      decide (failureQuorum.toNat ≤ e.2.entries.length) && decide (e.1 ∈ s.allProxies)).map
    Sigma.fst)

/-- `cleanup_failures`: whether `get_failures` dropped a proxy. -/
def cleanupFailures (s : MetaStore) (now failureTtl : Int) (failureQuorum : UInt64) :
    MetaStore × Bool :=
  let s' := (getFailures s now failureTtl failureQuorum).1
  (s', s.failures.entries.length != s'.failures.entries.length)

/-! ## Proxies -/

/-- `s.split(':')`: the pieces between the colons, one more than there are
colons. -/
def splitColon (s : String) : List String := (s.toList.splitOn ':').map String.ofList

/-- `add_proxy`. An address must have exactly one colon; the host defaults to
its part before the colon; the index is required in ordered mode. A known
proxy keeps its resource but loses its failure records, and the epoch is
bumped when anything changed. -/
def addProxy (s : MetaStore) (proxyAddress : String) (nodes : Fin 2 → String)
    (host : Option String) (proxyIndex : Option Nat) : MetaStore × Except MetaStoreError Unit :=
  let segs := splitColon proxyAddress
  if segs.length ≠ 2 then (s, .error .invalidProxyAddress)
  else
    let host := host.getD (segs.headD "")
    let index : Except MetaStoreError Nat :=
      match s.enableOrderedProxy, proxyIndex with
      | false, _ => .ok 0
      | true, some index => .ok index
      | true, none => .error .missingIndex
    match index with
    | .error e => (s, .error e)
    | .ok index =>
        let existed := decide (proxyAddress ∈ s.allProxies)
        let cleared := decide (proxyAddress ∈ s.failedProxies) || decide (proxyAddress ∈ s.failures)
        let s := { s with
          allProxies := s.allProxies.insertIfAbsent proxyAddress
            ⟨proxyAddress, nodes, host, index, none⟩
          failedProxies := s.failedProxies.erase proxyAddress
          failures := s.failures.erase proxyAddress }
        let s := if !existed || cleared then s.bumpGlobalEpoch.1 else s
        (s, if existed then .error .alreadyExisted else .ok ())

/-- `remove_proxy`: only a proxy in no cluster. -/
def removeProxy (s : MetaStore) (proxyAddress : String) : MetaStore × Except MetaStoreError Unit :=
  match s.allProxies.get? proxyAddress with
  | none => (s, .error .proxyNotFound)
  | some r =>
      if r.cluster.isSome then (s, .error .inUse)
      else
        ({ s with
          allProxies := s.allProxies.erase proxyAddress
          failedProxies := s.failedProxies.erase proxyAddress
          failures := s.failures.erase proxyAddress }.bumpGlobalEpoch.1, .ok ())

/-- Set the `cluster` of each listed proxy, `expect`ing it to be known. -/
def tagProxies (allProxies : OrdMap String ProxyResource) (addresses : List String)
    (cluster : Option ClusterName) : Option (OrdMap String ProxyResource) :=
  addresses.foldlM (fun m address => do
    let _ ← m.get? address
    pure (m.modify address fun r => { r with cluster })) allProxies

/-- Set the `cluster` of each listed proxy that is known (`if let Some`). -/
def freeProxies (allProxies : OrdMap String ProxyResource) (addresses : List String) :
    OrdMap String ProxyResource :=
  addresses.foldl (fun m address => m.modify address fun r => { r with cluster := none })
    allProxies

/-- The proxy addresses of some chunks, half 0 before half 1. -/
def chunkProxyAddresses (chunks : List ChunkStore) : List String :=
  chunks.flatMap fun chunk => [chunk.proxyAddresses 0, chunk.proxyAddresses 1]

/-! ## Clusters -/

/-- The new chunks of `proxy_num` proxies: by index in ordered mode, by the
allocation algorithm otherwise. -/
def generateChunks (s : MetaStore) (proxyNum firstIndex : Nat) :
    Option (Except MetaStoreError (List (ProxyResource × ProxyResource))) :=
  if s.enableOrderedProxy then some (generateFreeChunksForOrderedProxyIndex s proxyNum firstIndex)
  else generateFreeChunks s proxyNum

/-- `add_cluster`. -/
def addCluster (s : MetaStore) (clusterName : String) (nodeNum : Nat)
    (defaultClusterConfig : ClusterConfig) : Option (MetaStore × Except MetaStoreError Unit) :=
  if s.enableOrderedProxy && !s.clusters.entries.isEmpty then
    some (s, .error .oneClusterAlreadyExisted)
  else match ClusterName.tryFrom clusterName with
  | none => some (s, .error .invalidClusterName)
  | some name =>
      if name ∈ s.clusters then some (s, .error .alreadyExisted)
      else if nodeNum % 4 ≠ 0 then some (s, .error .invalidNodeNum)
      else if nodeNum / 2 = 0 then some (s, .error .invalidNodeNum)
      else match generateChunks s (nodeNum / 2) 0 with
      | none => none
      | some (.error e) => some (s, .error e)
      | some (.ok arr) => do
          let chunks ← proxyResourceToChunkStore arr true
          let (s, epoch) := s.bumpGlobalEpoch
          let allProxies ← tagProxies s.allProxies (chunkProxyAddresses chunks) (some name)
          pure ({ s with
            allProxies
            clusters := s.clusters.insert name ⟨epoch, name, chunks, defaultClusterConfig⟩ },
            .ok ())

/-- `remove_cluster`: the cluster goes and its proxies are free. -/
def removeCluster (s : MetaStore) (clusterName : String) : MetaStore × Except MetaStoreError Unit :=
  match ClusterName.tryFrom clusterName with
  | none => (s, .error .invalidClusterName)
  | some name =>
      match s.clusters.get? name with
      | none => (s, .error .clusterNotFound)
      | some c =>
          ({ s with
            clusters := s.clusters.erase name
            allProxies := freeProxies s.allProxies (chunkProxyAddresses c.chunks) }.bumpGlobalEpoch.1,
            .ok ())

/-- `auto_add_nodes`: append empty chunks of `num / 2` new proxies to a
cluster that is not migrating; the new nodes are returned. -/
def autoAddNodes (s : MetaStore) (clusterName : String) (num : Nat) : Option (MetaStore × Except MetaStoreError (List Node)) :=
  match ClusterName.tryFrom clusterName with
  | none => some (s, .error .invalidClusterName)
  | some name =>
      match s.clusters.get? name with
      | none => some (s, .error .clusterNotFound)
      | some c =>
          if c.isMigrating then some (s, .error .migrationRunning)
          else if num % 4 ≠ 0 then some (s, .error .invalidNodeNum)
          else if num / 2 = 0 then some (s, .error .invalidNodeNum)
          else match generateChunks s (num / 2) (c.chunks.length * 2) with
          | none => none
          | some (.error e) => some (s, .error e)
          | some (.ok arr) => do
              let chunks ← proxyResourceToChunkStore arr false
              let (s, newEpoch) := s.bumpGlobalEpoch
              let c := { c with chunks := c.chunks ++ chunks, epoch := newEpoch }
              let cluster ← MetaStoreQuery.clusterStoreToCluster c
              let allProxies ← tagProxies s.allProxies (cluster.nodes.map Node.proxyAddress)
                (some name)
              -- `nodes.get((nodes.len() - num)..).expect(..)`
              if cluster.nodes.length < num then none
              else pure ({ s with allProxies, clusters := s.clusters.replace name c },
                .ok (cluster.nodes.drop (cluster.nodes.length - num)))

/-- `auto_scale_up_nodes`: add nodes up to `expected_num`. -/
def autoScaleUpNodes (s : MetaStore) (clusterName : String) (expectedNum : Nat) :
    Option (MetaStore × Except MetaStoreError (List Node)) :=
  match ClusterName.tryFrom clusterName with
  | none => some (s, .error .invalidClusterName)
  | some name =>
      match s.clusters.get? name with
      | none => some (s, .error .clusterNotFound)
      | some c =>
          let existing := c.chunks.length * 4
          if expectedNum ≤ existing then some (s, .error .nodeNumAlreadyEnough)
          else autoAddNodes s clusterName (expectedNum - existing)

/-- `auto_delete_free_nodes`: remove the chunks without slots or migrations
from a cluster that is not migrating, and free their proxies. -/
def autoDeleteFreeNodes (s : MetaStore) (clusterName : String) :
    MetaStore × Except MetaStoreError Unit :=
  match ClusterName.tryFrom clusterName with
  | none => (s, .error .invalidClusterName)
  | some name =>
      -- "Will bump epoch later on success."
      let newEpoch := s.globalEpoch + 1
      match s.clusters.get? name with
      | none => (s, .error .clusterNotFound)
      | some c =>
          if c.isMigrating then (s, .error .migrationRunning)
          else
            let removed := c.chunks.filter ChunkStore.isFree
            if removed.isEmpty then (s, .error .freeNodeNotFound)
            else
              let c := { c with chunks := c.chunks.filter (!·.isFree), epoch := newEpoch }
              ({ s with
                clusters := s.clusters.replace name c
                allProxies := freeProxies s.allProxies (chunkProxyAddresses removed) }.bumpGlobalEpoch.1,
                .ok ())

/-- `auto_delete_free_nodes_if_exists`: a cluster that is migrating or has no
free chunk is not an error here. -/
def autoDeleteFreeNodesIfExists (s : MetaStore) (clusterName : String) :
    MetaStore × Except MetaStoreError Unit :=
  match autoDeleteFreeNodes s clusterName with
  | (s, .error .migrationRunning) => (s, .ok ())
  | (s, .error .freeNodeNotFound) => (s, .ok ())
  | r => r

/-- `balance_masters`: every chunk without a failed or reported proxy goes
back to the normal role position. -/
def balanceMasters (s : MetaStore) (clusterName : String) :
    MetaStore × Except MetaStoreError Unit :=
  match ClusterName.tryFrom clusterName with
  | none => (s, .error .invalidClusterName)
  | some name =>
      let newEpoch := s.globalEpoch + 1
      let failedProxyExists (addresses : Fin 2 → String) : Bool :=
        [0, 1].any fun (i : Fin 2) =>
          decide (addresses i ∈ s.failedProxies) || decide (addresses i ∈ s.failures)
      match s.clusters.get? name with
      | none => (s, .error .clusterNotFound)
      | some c =>
          let chunks := c.chunks.map fun chunk =>
            if failedProxyExists chunk.proxyAddresses then chunk
            else { chunk with rolePosition := .normal }
          ({ s with clusters := s.clusters.replace name { c with chunks, epoch := newEpoch } }
            |>.bumpGlobalEpoch.1, .ok ())

section

variable (toLowercase : String → String)

/-- Apply the `(key, value)` pairs of a config change in iteration order; the
first refused pair is the error. -/
def setFields (config : ClusterConfig) : List (String × String) →
    Except MetaStoreError ClusterConfig
  | [] => .ok config
  | (k, v) :: rest =>
      match config.setField toLowercase k v with
      | .ok config => setFields config rest
      | .error err => .error (.invalidConfig k v err.toString)

/-- `change_config`: only while the cluster is not migrating. -/
def changeConfig (s : MetaStore) (clusterName : String) (config : List (String × String)) :
    MetaStore × Except MetaStoreError Unit :=
  match ClusterName.tryFrom clusterName with
  | none => (s, .error .invalidClusterName)
  | some name =>
      -- "Will bump epoch later on success."
      let newEpoch := s.globalEpoch + 1
      match s.clusters.get? name with
      | none => (s, .error .clusterNotFound)
      | some c =>
          if c.isMigrating then (s, .error .migrationRunning)
          else match setFields toLowercase c.config config with
          | .error e => (s, .error e)
          | .ok clusterConfig =>
              let c := { c with config := clusterConfig, epoch := newEpoch }
              ({ s with clusters := s.clusters.replace name c }.bumpGlobalEpoch.1, .ok ())

end

/-! ## Failover -/

/-- The first chunk that holds a proxy, and the half it holds: the loops of
`takeover_master` and `replace_failed_proxy` test half 0 before half 1 and
stop at the first match. -/
def findHalf (chunks : List ChunkStore) (address : String) : Option (Nat × Fin 2) :=
  (chunks.zipIdx.find? fun (chunk, _) =>
      chunk.proxyAddresses 0 == address || chunk.proxyAddresses 1 == address).map
    fun (chunk, i) => (i, if chunk.proxyAddresses 0 == address then 0 else 1)

/-- The role position that puts both masters on the other half than `p`. -/
def takenOverPosition (p : Fin 2) : ChunkRolePosition :=
  if p = 0 then .secondChunkMaster else .firstChunkMaster

/-- The second loop of `takeover_master`: every migration from or to one of
`positions` gets the new epoch. -/
def stampPositions (newEpoch : UInt64) (positions : List (Nat × Nat)) (chunk : ChunkStore) :
    ChunkStore :=
  { chunk with migratingSlots := fun p => (chunk.migratingSlots p).map fun m =>
      if (m.taskMeta.srcChunkIndex, m.taskMeta.srcChunkPart) ∈ positions ∨
          (m.taskMeta.dstChunkIndex, m.taskMeta.dstChunkPart) ∈ positions then
        m.withEpoch newEpoch
      else m }

/-- `takeover_master` on a cluster's chunks: `none` is the early return of a
chunk whose masters already left the failed half. Otherwise the masters move
to the surviving half, the failed half's migrations and every migration that
shares an end with them take the new epoch. -/
def takeoverChunks (newEpoch : UInt64) (failedProxyAddress : String)
    (chunks : List ChunkStore) : Option (List ChunkStore) :=
  match findHalf chunks failedProxyAddress with
  | none => some chunks
  | some (i, p) =>
      match chunks[i]? with
      | none => some chunks
      | some chunk =>
          if chunk.rolePosition = takenOverPosition p then none
          else
            let positions := (chunk.migratingSlots p).flatMap fun m =>
              [(m.taskMeta.srcChunkIndex, m.taskMeta.srcChunkPart),
               (m.taskMeta.dstChunkIndex, m.taskMeta.dstChunkPart)]
            let chunk := { chunk.updateMigrating p (·.map (·.withEpoch newEpoch)) with
              rolePosition := takenOverPosition p }
            some ((chunks.set i chunk).map (stampPositions newEpoch positions))

/-- `takeover_master`. -/
def takeoverMaster (s : MetaStore) (name : ClusterName) (failedProxyAddress : String) :
    MetaStore × Except MetaStoreError Unit :=
  let (s, newEpoch) := s.bumpGlobalEpoch
  match s.clusters.get? name with
  | none => (s, .error .clusterNotFound)
  | some c =>
      match takeoverChunks newEpoch failedProxyAddress c.chunks with
      | none => (s, .ok ())
      | some chunks =>
          ({ s with clusters := s.clusters.replace name { c with chunks, epoch := newEpoch } },
            .ok ())

/-- Half `p` of a chunk handed to another proxy. -/
def replaceHalf (chunk : ChunkStore) (p : Fin 2) (r : ProxyResource) : ChunkStore :=
  { chunk with
    hosts := Function.update chunk.hosts p r.host
    proxyAddresses := Function.update chunk.proxyAddresses p r.proxyAddress
    nodeAddresses := fun n =>
      if n.val = 2 * p.val then r.nodeAddresses 0
      else if n.val = 2 * p.val + 1 then r.nodeAddresses 1
      else chunk.nodeAddresses n }

/-- The chunk loop of `replace_failed_proxy`. -/
def replaceChunks (chunks : List ChunkStore) (failedProxyAddress : String) (r : ProxyResource) :
    List ChunkStore :=
  match findHalf chunks failedProxyAddress with
  | none => chunks
  | some (i, p) => chunks.modify i fun chunk => replaceHalf chunk p r

/-- `replace_failed_proxy`: a free failed proxy is only recorded; one in a
cluster hands its masters to its peer half, and outside ordered mode its half
goes to a fresh proxy, whose new view is returned. -/
def replaceFailedProxy (s : MetaStore) (failedProxyAddress : String) (migrationLimit : UInt64) :
    Option (MetaStore × Except MetaStoreError (Option Proxy)) :=
  match s.allProxies.get? failedProxyAddress with
  | none => some (s, .error .proxyNotFound)
  | some failed =>
      match failed.cluster with
      | none => some ({ s with
          failures := s.failures.erase failedProxyAddress
          failedProxies := insert failedProxyAddress s.failedProxies }, .ok none)
      | some name =>
          match takeoverMaster s name failedProxyAddress with
          | (s, .error e) => some (s, .error e)
          | (s, .ok ()) =>
              if s.enableOrderedProxy then some (s.bumpGlobalEpoch.1, .ok none)
              else
                let s := { s with failedProxies := insert failedProxyAddress s.failedProxies }
                match generateNewFreeProxy s failedProxyAddress with
                | none => none
                | some (.error e) => some (s, .error e)
                | some (.ok r) => do
                    let (s, newEpoch) := s.bumpGlobalEpoch
                    let c ← s.clusters.get? name
                    let c := { c with
                      chunks := replaceChunks c.chunks failedProxyAddress r, epoch := newEpoch }
                    let s := { s with
                      clusters := s.clusters.replace name c
                      allProxies := (s.allProxies.modify failedProxyAddress fun p =>
                          { p with cluster := none }).modify r.proxyAddress fun p =>
                          { p with cluster := some name } }
                    let proxy ← MetaStoreQuery.getProxyByAddress s r.proxyAddress migrationLimit
                    let proxy ← proxy
                    pure (s, .ok (some proxy))

end MetaStoreUpdate

end Undermoon
