import Undermoon.Proofs.Preservation
import Undermoon.Proofs.Epochs
import Undermoon.Proofs.Limit
import Undermoon.Lib.Front

/-!
# Failover replaces exactly the failed half

`replace_failed_proxy` on a proxy of a cluster runs `takeover_master` first:
the masters of the failed proxy's chunk move to the surviving half, and every
migration with an end among the ends of the failed half's migrations takes
the new epoch (`takeoverChunks_spec`). Then, outside ordered mode, the failed
half goes to a free proxy (`replaceChunks`), the failed proxy is freed and
the new one tagged with the cluster.

Over the chunks, the whole call is one equation: every chunk restamped, and
the failed half's chunk with its masters moved and its half replaced. What the proxies are shown follows from
it through the cluster view, whose nodes depend only on a chunk's role
position and addresses (`ChunkStore.viewNodes`), which `limit_migration`
leaves alone.
-/

namespace Undermoon

/-! ## The cluster view, without slots -/

namespace ChunkStore

/-- Node `j` of a chunk as `cluster_store_to_cluster` shows it, without its
slots. -/
def viewNode (chunk : ChunkStore) (j : Fin 4) : Node :=
  ⟨chunk.nodeAddresses j, chunk.proxyAddresses ⟨j.val / 2, nodeHalf_lt j⟩, [],
    ⟨nodeRole chunk.rolePosition j.val,
      [⟨chunk.nodeAddresses (peerIndex j),
        chunk.proxyAddresses ⟨(peerIndex j).val / 2, peerHalf_lt j⟩⟩]⟩⟩

/-- The four nodes of a chunk. -/
def viewNodes (chunk : ChunkStore) : List Node := (List.finRange 4).map chunk.viewNode

@[simp] theorem viewNodes_updateStable (c : ChunkStore) (p : Fin 2) (f) :
    (c.updateStable p f).viewNodes = c.viewNodes := rfl

@[simp] theorem viewNodes_updateMigrating (c : ChunkStore) (p : Fin 2) (f) :
    (c.updateMigrating p f).viewNodes = c.viewNodes := rfl

theorem mem_viewNodes {chunk : ChunkStore} {n : Node} :
    n ∈ chunk.viewNodes ↔ ∃ j, chunk.viewNode j = n := by
  simp [viewNodes]

/-- Only the nodes of a proxy's half carry its address. -/
theorem viewNodes_filter_eq_nil {chunk : ChunkStore} {a : String}
    (h : ∀ q, chunk.proxyAddresses q ≠ a) :
    chunk.viewNodes.filter (·.proxyAddress == a) = [] := by
  refine List.filter_eq_nil_iff.mpr fun n hn => ?_
  obtain ⟨j, rfl⟩ := mem_viewNodes.mp hn
  simpa [viewNode] using h _

theorem viewNodes_filter_half {chunk : ChunkStore} {q : Fin 2} {a : String}
    (ha : chunk.proxyAddresses q = a) (hb : chunk.proxyAddresses q.rev ≠ a) :
    chunk.viewNodes.filter (·.proxyAddress == a) =
      [0, 1].map fun (j : Fin 2) => chunk.viewNode ⟨2 * q.val + j.val, nodeIndex_lt q j⟩ := by
  subst ha
  fin_cases q <;> simp_all [viewNodes, List.finRange_succ, viewNode, Fin.rev]

end ChunkStore

/-- A node without its slots. -/
def Node.withoutSlots (n : Node) : Node := { n with slots := [] }

namespace MetaStoreQuery

theorem chunkNode_withoutSlots {chunks : List ChunkStore} {chunk : ChunkStore} {j : Fin 4}
    {n : Node} (h : chunkNode chunks chunk j = some n) : n.withoutSlots = chunk.viewNode j := by
  unfold chunkNode at h
  obtain ⟨slots, -, h⟩ := Option.bind_eq_some_iff.mp h
  cases h
  rfl

/-- Whatever slots the view resolves, its nodes are the chunks' four nodes
in chunk order. -/
theorem clusterStoreToCluster_nodes {c : ClusterStore} {cl : Cluster}
    (h : clusterStoreToCluster c = some cl) :
    cl.nodes.map Node.withoutSlots = c.chunks.flatMap ChunkStore.viewNodes := by
  unfold clusterStoreToCluster at h
  simp only [Option.bind_eq_bind, Option.bind_eq_some_iff, Option.pure_def, Option.some.injEq] at h
  obtain ⟨nodes, hnodes, rfl⟩ := h
  have hchunk : ∀ chunk ns, (List.finRange 4).mapM (chunkNode c.chunks chunk) = some ns →
      ns.map Node.withoutSlots = chunk.viewNodes :=
    fun chunk ns hns => List.map_of_mapM_eq_some (fun j n hn => chunkNode_withoutSlots hn) hns
  have hall : nodes.map (fun ns => ns.map Node.withoutSlots) = c.chunks.map ChunkStore.viewNodes :=
    List.map_of_mapM_eq_some hchunk hnodes
  rw [List.map_flatten, hall, List.flatMap_def]

/-- A node of the view is a node of one of the chunks. -/
theorem exists_of_mem_nodes {c : ClusterStore} {cl : Cluster} (h : clusterStoreToCluster c = some cl)
    {n : Node} (hn : n ∈ cl.nodes) :
    ∃ (i : Nat) (chunk : ChunkStore) (j : Fin 4), c.chunks[i]? = some chunk ∧
      chunk.viewNode j = n.withoutSlots := by
  have hmem : n.withoutSlots ∈ c.chunks.flatMap ChunkStore.viewNodes := by
    rw [← clusterStoreToCluster_nodes h]
    exact List.mem_map_of_mem hn
  obtain ⟨chunk, hchunk, hv⟩ := List.mem_flatMap.mp hmem
  obtain ⟨i, hi⟩ := List.mem_iff_getElem?.mp hchunk
  obtain ⟨j, hj⟩ := ChunkStore.mem_viewNodes.mp hv
  exact ⟨i, chunk, j, hi, hj⟩

end MetaStoreQuery

namespace ClusterStore

variable {β : Type*} {F : ChunkStore → β}

/-- A step of `limit_migration` rewrites only stable slots and migration
entries. -/
theorem limitStep_map (hs : ∀ x q g, F (x.updateStable q g) = F x)
    (hm : ∀ x q g, F (x.updateMigrating q g) = F x) {limit : UInt64} {st st' : LimitState}
    {a : MigrationSlotRangeStore} (h : limitStep limit st a = some st') :
    st'.chunks.map F = st.chunks.map F := by
  unfold limitStep at h
  split at h
  · cases h
    rfl
  dsimp only at h
  split at h
  · simp only [Option.bind_eq_bind, Option.bind_eq_some_iff, Option.pure_def,
      Option.some.injEq] at h
    obtain ⟨p, -, chunks, hchunks, rfl⟩ := h
    obtain ⟨chunk, hc, rfl⟩ := updateChunk?_some_eq hchunks
    exact List.map_set_of_getElem? hc (hs chunk p _)
  · simp only [Option.bind_eq_bind, Option.bind_eq_some_iff, Option.pure_def,
      Option.some.injEq] at h
    obtain ⟨sp, -, chunks₁, hchunks₁, dp, -, chunks₂, hchunks₂, rfl⟩ := h
    obtain ⟨chunk, hc, rfl⟩ := updateChunk?_some_eq hchunks₁
    obtain ⟨chunk', hc', rfl⟩ := updateChunk?_some_eq hchunks₂
    rw [List.map_set_of_getElem? hc' (hm chunk' dp _), List.map_set_of_getElem? hc (hm chunk sp _)]

/-- What neither the slots nor the migrations of a chunk decide is what
`limit_migration` shows of it. -/
theorem limitMigration_map (hs : ∀ x q g, F (x.updateStable q g) = F x)
    (hm : ∀ x q g, F (x.updateMigrating q g) = F x)
    (hclear : ∀ x : ChunkStore, F { x with migratingSlots := fun _ => [] } = F x) {c c₁ : ClusterStore}
    {limit : UInt64} (h : c.limitMigration limit = some c₁) : c₁.chunks.map F = c.chunks.map F := by
  unfold limitMigration at h
  split at h
  · cases h
    rfl
  · obtain ⟨st, hst, rfl⟩ := Option.map_eq_some_iff.mp h
    refine List.foldlM_preserves (fun st : LimitState => st.chunks.map F = c.chunks.map F)
      (fun st a st' hs' hinv => (limitStep_map hs hm hs').trans hinv) hst ?_
    simp only [List.map_map]
    exact List.map_congr_left fun x _ => hclear x

theorem limitMigration_viewNodes {c c₁ : ClusterStore} {limit : UInt64}
    (h : c.limitMigration limit = some c₁) :
    c₁.chunks.flatMap ChunkStore.viewNodes = c.chunks.flatMap ChunkStore.viewNodes := by
  rw [List.flatMap_def, List.flatMap_def,
    limitMigration_map (fun _ _ _ => rfl) (fun _ _ _ => rfl) (fun _ => rfl) h]

end ClusterStore

/-! ## The takeover -/

namespace MetaStoreUpdate

variable {s s' : MetaStore}

theorem findHalf_congr {chunks chunks' : List ChunkStore} {a : String}
    (h : chunks'.map ChunkStore.proxyAddresses = chunks.map ChunkStore.proxyAddresses) :
    findHalf chunks' a = findHalf chunks a := by
  -- the search reads the chunks' addresses and nothing else
  have key : ∀ l : List ChunkStore, findHalf l a =
      (((l.map ChunkStore.proxyAddresses).zipIdx.find? fun (pa, _) => pa 0 == a || pa 1 == a).map
        fun (pa, i) => (i, if pa 0 == a then (0 : Fin 2) else 1)) := by
    intro l
    simp only [findHalf, List.zipIdx_map, List.find?_map, Option.map_map]
    rfl
  rw [key, key, h]

theorem getElem?_chunkProxyAddresses {chunks : List ChunkStore} {j : Nat} {x : ChunkStore}
    (h : chunks[j]? = some x) (q : Fin 2) :
    (chunkProxyAddresses chunks)[2 * j + q.val]? = some (x.proxyAddresses q) := by
  induction chunks generalizing j with
  | nil => cases h
  | cons y l ih =>
      cases j with
      | zero =>
          cases h
          fin_cases q <;> rfl
      | succ j =>
          rw [chunkProxyAddresses, List.flatMap_cons,
            show 2 * (j + 1) + q.val = 2 * j + q.val + 2 by omega]
          simp only [List.cons_append, List.nil_append, List.getElem?_cons_succ]
          exact ih h

/-- No address is held twice: a half with the address of another is that
half. -/
theorem eq_of_proxyAddresses_eq {chunks : List ChunkStore}
    (hnd : (chunkProxyAddresses chunks).Nodup) {i j : Nat} {x y : ChunkStore} {q q' : Fin 2}
    (hx : chunks[i]? = some x) (hy : chunks[j]? = some y)
    (h : y.proxyAddresses q' = x.proxyAddresses q) : j = i ∧ q' = q := by
  obtain ⟨hi₁, he₁⟩ := List.getElem?_eq_some_iff.mp (getElem?_chunkProxyAddresses hx q)
  obtain ⟨hi₂, he₂⟩ := List.getElem?_eq_some_iff.mp (getElem?_chunkProxyAddresses hy q')
  have hidx : 2 * j + q'.val = 2 * i + q.val :=
    hnd.getElem_inj_iff.mp (he₂.trans (h.trans he₁.symm))
  have hq := q.isLt
  have hq' := q'.isLt
  exact ⟨by omega, Fin.ext (by omega)⟩

/-- The chunk positions at either end of the migrations of half `p`: the set
`peer_position` of `takeover_master`. -/
def peerPositions (chunk : ChunkStore) (p : Fin 2) : List (Nat × Nat) :=
  (chunk.migratingSlots p).flatMap fun m =>
    [(m.taskMeta.srcChunkIndex, m.taskMeta.srcChunkPart),
     (m.taskMeta.dstChunkIndex, m.taskMeta.dstChunkPart)]

theorem mem_peerPositions {chunk : ChunkStore} {p : Fin 2} {pos : Nat × Nat} :
    pos ∈ peerPositions chunk p ↔ ∃ m ∈ chunk.migratingSlots p,
      pos = (m.taskMeta.srcChunkIndex, m.taskMeta.srcChunkPart) ∨
      pos = (m.taskMeta.dstChunkIndex, m.taskMeta.dstChunkPart) := by
  simp [peerPositions, List.mem_flatMap]

@[simp] theorem stampPositions_nil (e : UInt64) : stampPositions e [] = id := by
  funext chunk
  simp [stampPositions]

@[simp] theorem stampPositions_proxyAddresses (e : UInt64) (P : List (Nat × Nat)) (x : ChunkStore) :
    (stampPositions e P x).proxyAddresses = x.proxyAddresses := rfl

@[simp] theorem stampPositions_nodeAddresses (e : UInt64) (P : List (Nat × Nat)) (x : ChunkStore) :
    (stampPositions e P x).nodeAddresses = x.nodeAddresses := rfl

/-- The first loop of `takeover_master` stamps the failed half's migrations,
which the second loop stamps anyway. -/
theorem stampPositions_takenOver (e : UInt64) (chunk : ChunkStore) (q : Fin 2)
    (rp : ChunkRolePosition) :
    stampPositions e (peerPositions chunk q)
        { chunk.updateMigrating q (·.map (·.withEpoch e)) with rolePosition := rp } =
      { stampPositions e (peerPositions chunk q) chunk with rolePosition := rp } := by
  simp only [stampPositions, ChunkStore.updateMigrating, ChunkStore.mk.injEq, true_and, and_true]
  funext p
  by_cases hp : p = q
  · subst hp
    rw [Function.update_self, List.map_map]
    refine List.map_congr_left fun m hm => ?_
    have hsrc : (m.taskMeta.srcChunkIndex, m.taskMeta.srcChunkPart) ∈ peerPositions chunk p :=
      mem_peerPositions.mpr ⟨m, hm, .inl rfl⟩
    simp [MigrationSlotRangeStore.withEpoch, hsrc]
  · rw [Function.update_of_ne hp]

/-- `takeover_master` on the chunks, when the failed proxy holds half `q` of
chunk `i`: the early return of a chunk already taken over, or every chunk
restamped and the masters moved off half `q`. -/
theorem takeoverChunks_spec {e : UInt64} {f : String} {chunks : List ChunkStore} {i : Nat}
    {q : Fin 2} {chunk : ChunkStore} (hfind : findHalf chunks f = some (i, q))
    (hc : chunks[i]? = some chunk) :
    (takeoverChunks e f chunks = none ∧ chunk.rolePosition = takenOverPosition q) ∨
    takeoverChunks e f chunks = some ((chunks.map (stampPositions e (peerPositions chunk q))).modify i
      fun x => { x with rolePosition := takenOverPosition q }) := by
  unfold takeoverChunks
  rw [hfind]
  dsimp only
  rw [hc]
  dsimp only
  split
  · next hrole => exact .inl ⟨rfl, hrole⟩
  · right
    rw [List.modify_eq_set_of_getElem? (by rw [List.getElem?_map, hc]; rfl), List.map_set,
      ← stampPositions_takenOver]
    rfl

/-- The cluster `takeover_master` leaves, in both of its cases: restamped at
the bumped epoch for some ends `P` (none on the early return), with the
masters off the failed half. -/
theorem takeoverMaster_chunks {t : MetaStore} {name : ClusterName} {f : String} {c : ClusterStore}
    {i : Nat} {q : Fin 2} {chunk : ChunkStore} (h : takeoverMaster s name f = (t, .ok ()))
    (hc : s.clusters.get? name = some c) (hfind : findHalf c.chunks f = some (i, q))
    (hchunk : c.chunks[i]? = some chunk) :
    ∃ cT P, t.clusters.get? name = some cT ∧ (P = [] ∨ P = peerPositions chunk q) ∧
      cT.chunks = (c.chunks.map (stampPositions (s.globalEpoch + 1) P)).modify i
        fun x => { x with rolePosition := takenOverPosition q } := by
  unfold takeoverMaster at h
  simp only [MetaStore.bumpGlobalEpoch_fst_clusters, MetaStore.bumpGlobalEpoch_snd, hc] at h
  rcases @takeoverChunks_spec (s.globalEpoch + 1) _ _ _ _ _ hfind hchunk with ⟨hnone, hrole⟩ | hsome
  · -- the early return: the masters already left the failed half
    rw [hnone] at h
    cases h
    refine ⟨c, [], hc, .inl rfl, ?_⟩
    rw [stampPositions_nil, List.map_id, List.modify_eq_set_of_getElem? hchunk, ← hrole]
    obtain ⟨hi, rfl⟩ := List.getElem?_eq_some_iff.mp hchunk
    exact (List.set_getElem_self hi).symm
  · rw [hsome] at h
    cases h
    have hget := OrdMap.get?_replace s.clusters name name
      { c with
        chunks := (c.chunks.map (stampPositions (s.globalEpoch + 1) (peerPositions chunk q))).modify i
          (fun x => { x with rolePosition := takenOverPosition q })
        epoch := s.globalEpoch + 1 }
      (OrdMap.mem_of_get?_eq_some hc)
    rw [if_pos rfl] at hget
    exact ⟨_, _, hget, .inr rfl, rfl⟩

/-- `replace_failed_proxy`'s chunk loop after the takeover: both rewrite
the failed half's chunk, found in the same place. -/
theorem replaceChunks_takeover {chunks chunksT : List ChunkStore} {f : String} {i : Nat} {q : Fin 2}
    {e : UInt64} {P : List (Nat × Nat)} (r : ProxyResource) (hfind : findHalf chunks f = some (i, q))
    (hT : chunksT = (chunks.map (stampPositions e P)).modify i
      fun x => { x with rolePosition := takenOverPosition q }) :
    replaceChunks chunksT f r = (chunks.map (stampPositions e P)).modify i
      fun x => replaceHalf { x with rolePosition := takenOverPosition q } q r := by
  have hkeep : ∀ x : ChunkStore,
      ({ x with rolePosition := takenOverPosition q } : ChunkStore).proxyAddresses = x.proxyAddresses :=
    fun _ => rfl
  have hpa : chunksT.map ChunkStore.proxyAddresses = chunks.map ChunkStore.proxyAddresses := by
    rw [hT, List.map_modify_of_eq hkeep, List.map_map]
    rfl
  unfold replaceChunks
  rw [findHalf_congr hpa, hfind]
  dsimp only
  rw [hT, List.modify_modify_eq]
  rfl

/-- The failed half of the chunk after a failover: the new proxy's nodes,
replicas of the surviving half's nodes. -/
theorem viewNode_failedHalf (y : ChunkStore) (q : Fin 2) (r : ProxyResource) (j : Fin 2) :
    (replaceHalf { y with rolePosition := takenOverPosition q } q r).viewNode
        ⟨2 * q.val + j.val, ChunkStore.nodeIndex_lt q j⟩ =
      ⟨r.nodeAddresses j, r.proxyAddress, [],
        ⟨.replica, [⟨y.halfNodes q.rev j.rev, y.proxyAddresses q.rev⟩]⟩⟩ := by
  fin_cases q <;> fin_cases j <;> rfl

/-- Every node of the failed half is a replica of a node of the surviving
half, and every node of the surviving half is a master. -/
theorem viewNode_takenOver (y : ChunkStore) (q : Fin 2) (r : ProxyResource) (k : Fin 4) :
    (k.val / 2 = q.rev.val →
      ((replaceHalf { y with rolePosition := takenOverPosition q } q r).viewNode k).repl.role =
        .master) ∧
    (k.val / 2 = q.val →
      ((replaceHalf { y with rolePosition := takenOverPosition q } q r).viewNode k).repl.role =
        .replica ∧ ∃ j, ((replaceHalf { y with rolePosition := takenOverPosition q } q r).viewNode
          k).repl.peers = [⟨y.halfNodes q.rev j, y.proxyAddresses q.rev⟩]) := by
  fin_cases q <;> fin_cases k <;> refine ⟨fun h => ?_, fun h => ?_⟩
  all_goals first
    | rfl
    | exact ⟨rfl, 0, rfl⟩
    | exact ⟨rfl, 1, rfl⟩
    | simp [Fin.rev] at h

theorem rev_ne (q : Fin 2) : q.rev ≠ q := by
  fin_cases q <;> decide

/-- Restamping keeps every range list. -/
theorem stampPositions_rangeLists (e : UInt64) (P : List (Nat × Nat)) (x : ChunkStore) (p : Fin 2) :
    ((stampPositions e P x).migratingSlots p).map (·.rangeList) = (x.migratingSlots p).map (·.rangeList) := by
  simp only [stampPositions, List.map_map]
  exact List.map_congr_left fun m _ => by
    simp only [Function.comp_apply]
    split_ifs <;> rfl

/-- In a consistent store, a proxy tagged with a cluster holds a half of one
of its chunks, and `findHalf` finds the first. -/
theorem findHalf_of_tag {s : MetaStore} (hs : s.Consistent) {f : String} {failed : ProxyResource}
    {name : ClusterName} (hfailed : s.allProxies.get? f = some failed)
    (hfcl : failed.cluster = some name) :
    ∃ c i q chunk, s.clusters.get? name = some c ∧ findHalf c.chunks f = some (i, q) ∧
      c.chunks[i]? = some chunk ∧ chunk.proxyAddresses q = f := by
  obtain ⟨c, hc, hmem⟩ := hs.tagged f failed name hfailed hfcl
  obtain ⟨⟨i, q⟩, hfind⟩ := findHalf_isSome hmem
  obtain ⟨chunk, hchunk, hpa⟩ := findHalf_spec hfind
  exact ⟨c, i, q, chunk, hc, hfind, hchunk, hpa⟩

/-! ## The whole call -/

/-- Failover outside ordered mode, from any store the broker reaches, when it
returns the new proxy `p`: the failed proxy `f` held half `q` of chunk `i`
of cluster `name`; it leaves the cluster, untagged and recorded as failed;
the new proxy's resource `r`, tagged with the cluster, takes exactly that
half, and the chunks are the old ones restamped, with that chunk's masters
moved to the surviving half. Only migrations with an end among the ends `P`
of the failed half's migrations take the new epoch, all the same one, and no
range list changes. In the cluster view the surviving half's nodes are
masters and the new proxy's nodes replicas of them, and the view handed to
`p` is its two nodes as such. -/
theorem replaceFailedProxy_replaces_half {cfg : ServiceConfig} {s s' : MetaStore} {f : String}
    {migrationLimit : UInt64} {p : Proxy} (hreach : Reachable cfg false s)
    (h : replaceFailedProxy s f migrationLimit = some (s', .ok (some p))) :
    ∃ (name : ClusterName) (c c' : ClusterStore) (i : Nat) (q : Fin 2) (chunk : ChunkStore)
      (r : ProxyResource) (P : List (Nat × Nat)),
      s.clusters.get? name = some c ∧ s'.clusters.get? name = some c' ∧
      c.chunks[i]? = some chunk ∧ chunk.proxyAddresses q = f ∧
      f ∉ c'.getProxyAddresses ∧
      (∃ failed, s'.allProxies.get? f = some failed ∧ failed.cluster = none) ∧
      f ∈ s'.failedProxies ∧
      p.address = r.proxyAddress ∧ s'.allProxies.get? r.proxyAddress = some r ∧
      r.cluster = some name ∧
      c'.chunks = (c.chunks.map (stampPositions (s.globalEpoch + 1) P)).modify i
        (fun x => replaceHalf { x with rolePosition := takenOverPosition q } q r) ∧
      (∀ pos ∈ P, ∃ m ∈ chunk.migratingSlots q,
        pos = (m.taskMeta.srcChunkIndex, m.taskMeta.srcChunkPart) ∨
        pos = (m.taskMeta.dstChunkIndex, m.taskMeta.dstChunkPart)) ∧
      (∀ (j : Nat) (x x' : ChunkStore), c.chunks[j]? = some x → c'.chunks[j]? = some x' →
        x'.stableSlots = x.stableSlots ∧
        ∀ p', (x'.migratingSlots p').map (·.rangeList) = (x.migratingSlots p').map (·.rangeList)) ∧
      (∀ cl, MetaStoreQuery.clusterStoreToCluster c' = some cl → ∀ n ∈ cl.nodes,
        (n.proxyAddress = chunk.proxyAddresses q.rev → n.repl.role = .master) ∧
        (n.proxyAddress = r.proxyAddress → n.repl.role = .replica ∧
          ∃ j, n.repl.peers = [⟨chunk.halfNodes q.rev j, chunk.proxyAddresses q.rev⟩])) ∧
      p.nodes.map Node.withoutSlots = [0, 1].map fun (j : Fin 2) =>
        ⟨r.nodeAddresses j, r.proxyAddress, [],
          ⟨.replica, [⟨chunk.halfNodes q.rev j.rev, chunk.proxyAddresses q.rev⟩]⟩⟩ := by
  have hs := reachable_consistent hreach
  have hs' := replaceFailedProxy_consistent hs h
  obtain ⟨failed, name, t, r₀, cT, hfailed, hfcl, ht, -, hr₀, hcT, rfl, hp⟩ :=
    replaceFailedProxy_some_proxy h
  obtain ⟨c, i, q, chunk, hc, hfind, hchunk, hpa⟩ := findHalf_of_tag hs hfailed hfcl
  obtain ⟨cT', P, hcT', hP, hchunksT⟩ := takeoverMaster_chunks ht hc hfind hchunk
  obtain rfl : cT' = cT := Option.some.inj (hcT'.symm.trans hcT)
  have hlay := takeoverMaster_sameLayout ht
  have hfail : t.allProxies.get? f = some failed := hlay.allProxies ▸ hfailed
  have hk : MetaStore.Keyed { t with failedProxies := insert f t.failedProxies } :=
    (hs.of_sameLayout hlay).keyed
  have hfree : t.FreeProxy r₀ := generateNewFreeProxy_free hk hr₀
  have hne := replaceHalf_ne hfail hfcl hfree
  -- the cluster after the call, and the failed half's chunk in it
  have hc' := (OrdMap.get?_replace t.clusters name name
    { cT' with chunks := replaceChunks cT'.chunks f r₀, epoch := t.globalEpoch + 1 }
    (OrdMap.mem_of_get?_eq_some hcT')).trans (if_pos rfl)
  have hchunks' := replaceChunks_takeover r₀ hfind hchunksT
  have hchunk' : (replaceChunks cT'.chunks f r₀)[i]? = some (replaceHalf
      { stampPositions (s.globalEpoch + 1) P chunk with rolePosition := takenOverPosition q } q r₀) := by
    rw [hchunks', List.getElem?_modify, List.getElem?_map, hchunk]
    simp
  have hnd := hs'.nodup name _ hc'
  have hpa' : (replaceHalf { stampPositions (s.globalEpoch + 1) P chunk with
      rolePosition := takenOverPosition q } q r₀).proxyAddresses q = r₀.proxyAddress := by
    rw [replaceHalf_proxyAddresses, Function.update_self]
  have hrev : (replaceHalf { stampPositions (s.globalEpoch + 1) P chunk with
      rolePosition := takenOverPosition q } q r₀).proxyAddresses q.rev = chunk.proxyAddresses q.rev := by
    rw [replaceHalf_proxyAddresses, Function.update_of_ne (rev_ne q)]
    rfl
  -- the proxy table: the failed proxy freed, then the new one tagged
  have hpf : ((t.allProxies.modify f fun p => { p with cluster := none }).modify r₀.proxyAddress
      fun p => { p with cluster := some name }).get? f = some { failed with cluster := none } := by
    rw [OrdMap.get?_modify_ne _ _ (Ne.symm hne), OrdMap.get?_modify_self, hfail]
    rfl
  have hpr : ((t.allProxies.modify f fun p => { p with cluster := none }).modify r₀.proxyAddress
      fun p => { p with cluster := some name }).get? r₀.proxyAddress =
        some { r₀ with cluster := some name } := by
    rw [OrdMap.get?_modify_self, OrdMap.get?_modify_ne _ _ hne, hfree.1]
    rfl
  -- the view handed back is the new proxy's part of the limited cluster
  rw [MetaStoreQuery.getProxyByAddress_cluster _ hpr rfl hc'] at hp
  obtain ⟨c₁, hc₁, hp⟩ := Option.bind_eq_some_iff.mp hp
  obtain ⟨cl, hcl, hp⟩ := Option.map_eq_some_iff.mp hp
  cases hp
  refine ⟨name, c, _, i, q, chunk, { r₀ with cluster := some name }, P, hc, hc', hchunk, hpa,
    fun hmem => ?_, ⟨_, hpf, rfl⟩, Finset.mem_insert_self _ _, rfl, hpr, rfl, hchunks', ?_,
    fun j x x' hx hx' => ?_, fun cl' hcl' n hn => ?_, ?_⟩
  · -- a proxy of the cluster is tagged with it, and the failed one no longer is
    obtain ⟨r', hr', hcl'⟩ := hs'.tag_of_mem hc' hmem
    rw [hpf] at hr'
    cases hr'
    cases hcl'
  · rcases hP with rfl | rfl
    · exact fun pos hpos => absurd hpos List.not_mem_nil
    · exact fun pos hpos => mem_peerPositions.mp hpos
  · rw [hchunks', List.getElem?_modify, List.getElem?_map, hx] at hx'
    by_cases hij : i = j
    · simp only [hij, if_true, Option.map_eq_map, Option.map_some, Option.some.injEq] at hx'
      subst hx'
      exact ⟨rfl, stampPositions_rangeLists _ P x⟩
    · simp only [hij, if_false, Option.map_eq_map, Option.map_some, Option.some.injEq] at hx'
      subst hx'
      exact ⟨rfl, stampPositions_rangeLists _ P x⟩
  · obtain ⟨j, x, k, hx, hv⟩ := MetaStoreQuery.exists_of_mem_nodes hcl' hn
    have hxpa : n.proxyAddress = x.proxyAddresses ⟨k.val / 2, by omega⟩ := by
      rw [show n.proxyAddress = n.withoutSlots.proxyAddress from rfl, ← hv]
      rfl
    have hrepl : n.repl = (x.viewNode k).repl := by
      rw [show n.repl = n.withoutSlots.repl from rfl, ← hv]
    constructor
    · intro hn'
      obtain ⟨rfl, hk⟩ := eq_of_proxyAddresses_eq hnd hchunk' hx (hxpa.symm.trans (hn'.trans hrev.symm))
      rw [hchunk'] at hx
      cases hx
      rw [hrepl]
      exact (viewNode_takenOver _ q r₀ k).1 (congrArg Fin.val hk)
    · intro hn'
      obtain ⟨rfl, hk⟩ := eq_of_proxyAddresses_eq hnd hchunk' hx (hxpa.symm.trans (hn'.trans hpa'.symm))
      rw [hchunk'] at hx
      cases hx
      rw [hrepl]
      exact (viewNode_takenOver _ q r₀ k).2 (congrArg Fin.val hk)
  · -- only the failed half's chunk has nodes on the new proxy
    have hothers : ∀ j x, (replaceChunks cT'.chunks f r₀)[j]? = some x → j ≠ i →
        x.viewNodes.filter (·.proxyAddress == r₀.proxyAddress) = [] :=
      fun j x hx hji => ChunkStore.viewNodes_filter_eq_nil fun q' hq' =>
        hji (eq_of_proxyAddresses_eq hnd hchunk' hx (hq'.trans hpa'.symm)).1
    have hsurv : (replaceHalf { stampPositions (s.globalEpoch + 1) P chunk with
        rolePosition := takenOverPosition q } q r₀).proxyAddresses q.rev ≠ r₀.proxyAddress :=
      fun h' => rev_ne q (eq_of_proxyAddresses_eq hnd hchunk' hchunk' (h'.trans hpa'.symm)).2
    have hfilter : (MetaStoreQuery.proxyInCluster r₀.proxyAddress cl).nodes.map Node.withoutSlots =
        (cl.nodes.map Node.withoutSlots).filter (·.proxyAddress == r₀.proxyAddress) := by
      rw [List.filter_map]
      rfl
    rw [hfilter, MetaStoreQuery.clusterStoreToCluster_nodes hcl, ClusterStore.limitMigration_viewNodes hc₁,
      List.filter_flatMap, List.flatMap_eq_of_getElem? hchunk' hothers,
      ChunkStore.viewNodes_filter_half hpa' hsurv]
    exact List.map_congr_left fun j _ => viewNode_failedHalf _ q r₀ j

/-- Three proxies on three hosts and a cluster of one chunk. -/
def failoverSetup : List Op :=
  [.addProxy "a1:6000" !["a1:7000", "a1:7001"] (some "A") none,
   .addProxy "b1:6000" !["b1:7000", "b1:7001"] (some "B") none,
   .addProxy "c1:6000" !["c1:7000", "c1:7001"] (some "C") none,
   .addCluster "c" 4]

/-- The store `failoverSetup` reaches. -/
def failoverStore : MetaStore :=
  (Machine.run (Op.apply (ServiceConfig.default id)) failoverSetup (MetaStore.new false)).getD
    (MetaStore.new false)

theorem replaceFailedProxy_replaces_half_failoverStore :
    Reachable (ServiceConfig.default id) false failoverStore ∧
      ∃ s' p, replaceFailedProxy failoverStore "a1:6000" 0 = some (s', .ok (some p)) ∧
        "a1:6000" ∈ s'.failedProxies ∧
        ∃ name c', s'.clusters.get? name = some c' ∧ "a1:6000" ∉ c'.getProxyAddresses := by
  have hsome : (Machine.run (Op.apply (ServiceConfig.default id)) failoverSetup
      (MetaStore.new false)).isSome = true := by
    decide +kernel
  have hreach : Reachable (ServiceConfig.default id) false failoverStore := by
    obtain ⟨s, hs⟩ := Option.isSome_iff_exists.mp hsome
    have hstore : failoverStore = s := by
      unfold failoverStore
      rw [hs]
      rfl
    rw [hstore]
    exact Machine.reachable_of_run hs
  have hret : (replaceFailedProxy failoverStore "a1:6000" 0).map
      (fun x => x.2.toOption.join.isSome) = some true := by
    decide +kernel
  obtain ⟨⟨s', res⟩, hrep, hres⟩ := Option.map_eq_some_iff.mp hret
  rcases res with _ | _ | p
  · cases hres
  · cases hres
  obtain ⟨name, c, c', i, q, chunk, r, P, -, hc', -, -, hnot, -, hmem, -⟩ :=
    replaceFailedProxy_replaces_half hreach hrep
  exact ⟨hreach, s', p, hrep, hmem, name, c', hc', hnot⟩

end MetaStoreUpdate

end Undermoon
