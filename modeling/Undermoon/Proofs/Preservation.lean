import Undermoon.Proofs.Consistency
import Undermoon.Broker.Service

/-!
# Every call keeps the store consistent

`MetaStore.Consistent` holds of `MetaStore::new`, and each store-writing
call of the broker keeps it, on its failure paths too: a call that changes
no chunk list keeps the layout (`Proofs.Layout`), and each of the others is
one of the moves of `Proofs.Consistency`, found by its inversion lemma of
`Proofs.Steps`. So `check_metadata` passes on every store the broker
reaches, whatever the calls and their order.
-/

namespace Undermoon

namespace MetaStoreQuery

theorem chunkNode_proxyAddress {chunks : List ChunkStore} {chunk : ChunkStore} {i : Fin 4}
    {n : Node} (h : chunkNode chunks chunk i = some n) :
    n.proxyAddress = chunk.proxyAddresses ⟨i.val / 2, ChunkStore.nodeHalf_lt i⟩ := by
  unfold chunkNode at h
  simp only [Option.bind_eq_bind, Option.bind_eq_some_iff, Option.pure_def,
    Option.some.injEq] at h
  obtain ⟨_, _, rfl⟩ := h
  rfl

/-- The cluster view puts two nodes on each proxy of the cluster, in chunk
order. -/
theorem clusterStoreToCluster_proxyAddresses {c : ClusterStore} {cluster : Cluster}
    (h : clusterStoreToCluster c = some cluster) :
    cluster.nodes.map Node.proxyAddress = c.chunks.flatMap fun chunk =>
      [chunk.proxyAddresses 0, chunk.proxyAddresses 0, chunk.proxyAddresses 1,
        chunk.proxyAddresses 1] := by
  unfold clusterStoreToCluster at h
  simp only [Option.bind_eq_bind, Option.bind_eq_some_iff, Option.pure_def,
    Option.some.injEq] at h
  obtain ⟨nodes, hnodes, rfl⟩ := h
  have hchunk : ∀ chunk ns, (List.finRange 4).mapM (chunkNode c.chunks chunk) = some ns →
      ns.map Node.proxyAddress = [chunk.proxyAddresses 0, chunk.proxyAddresses 0,
        chunk.proxyAddresses 1, chunk.proxyAddresses 1] := by
    intro chunk ns hns
    rw [List.map_of_mapM_eq_some (fun _ _ hn => chunkNode_proxyAddress hn) hns]
    rfl
  rw [List.map_flatten, List.map_of_mapM_eq_some hchunk hnodes]
  rfl

theorem mem_clusterStoreToCluster {c : ClusterStore} {cluster : Cluster}
    (h : clusterStoreToCluster c = some cluster) (a : String) :
    a ∈ cluster.nodes.map Node.proxyAddress ↔ a ∈ c.getProxyAddresses := by
  rw [clusterStoreToCluster_proxyAddresses h, ClusterStore.getProxyAddresses]
  simp only [List.mem_flatMap, List.mem_cons, List.not_mem_nil, or_false, ← or_assoc, or_self]

end MetaStoreQuery

namespace MetaStoreUpdate

variable {s : MetaStore}

theorem addProxy_consistent (hs : s.Consistent) {a : String} {nodes : Fin 2 → String}
    {host : Option String} {index : Option Nat} {s' : MetaStore}
    {res : Except MetaStoreError Unit} (h : addProxy s a nodes host index = (s', res)) :
    s'.Consistent := by
  rcases addProxy_cases h with rfl | ⟨r, hra, hfree, hp, hc, -⟩
  · exact hs
  · exact hs.insertFree hra hfree hp hc

theorem removeProxy_consistent (hs : s.Consistent) {a : String} {s' : MetaStore}
    {res : Except MetaStoreError Unit} (h : removeProxy s a = (s', res)) : s'.Consistent := by
  rcases removeProxy_cases h with rfl | ⟨r, hr, hfree, rfl⟩
  · exact hs
  · refine MetaStore.Consistent.bump ?_
    exact hs.eraseFree hr hfree rfl rfl

theorem addCluster_consistent (hs : s.Consistent) {clusterName : String} {nodeNum : Nat}
    {config : ClusterConfig} {s' : MetaStore} {res : Except MetaStoreError Unit}
    (h : addCluster s clusterName nodeNum config = some (s', res)) : s'.Consistent := by
  rcases addCluster_cases h with rfl | ⟨name, arr, chunks, allProxies, -, hnew, -, harr, hchunks,
    htag, rfl⟩
  · exact hs
  have hnone : s.clusters.get? name = none := OrdMap.get?_eq_none.mpr hnew
  obtain ⟨hmade, haddr⟩ := proxyResourceToChunkStore_spec hchunks
  -- a new cluster: it had no chunks, and all its proxies are the new ones
  refine MetaStore.Consistent.addChunks hs (fun c hc => ?_) (fun _ => rfl)
    ⟨_, (OrdMap.get?_insert _ _ _ _).trans (if_pos rfl), rfl⟩
    (fun n hn => (OrdMap.get?_insert _ _ _ _).trans (if_neg hn))
    (get?_tagProxies htag) (fun _ => Iff.rfl) (generateChunks_freePairs hs.keyed harr)
    hmade haddr
  rw [hnone] at hc
  cases hc

theorem removeCluster_consistent (hs : s.Consistent) {clusterName : String} {s' : MetaStore}
    {res : Except MetaStoreError Unit} (h : removeCluster s clusterName = (s', res)) :
    s'.Consistent := by
  rcases removeCluster_cases h with rfl | ⟨name, c, hc, rfl⟩
  · exact hs
  refine MetaStore.Consistent.bump ?_
  exact hs.removeCluster hc (fun _ => OrdMap.get?_erase _ _ _) (get?_freeProxies _ _)

theorem autoAddNodes_consistent (hs : s.Consistent) {clusterName : String} {num : Nat}
    {s' : MetaStore} {res : Except MetaStoreError (List Node)}
    (h : autoAddNodes s clusterName num = some (s', res)) : s'.Consistent := by
  rcases autoAddNodes_cases h with rfl | ⟨name, c, arr, chunks, cluster, allProxies, hc, -, harr,
    hchunks, hcluster, htag, rfl⟩
  · exact hs
  have hmem : name ∈ s.clusters := OrdMap.mem_of_get?_eq_some hc
  obtain ⟨hmade, haddr⟩ := proxyResourceToChunkStore_spec hchunks
  -- the cluster keeps its chunks and gains the new ones; its view lists them all
  refine MetaStore.Consistent.addChunks hs (fun c' hc' => ?_) (fun hn => ?_)
    ⟨_, (OrdMap.get?_replace _ _ _ _ hmem).trans (if_pos rfl), rfl⟩
    (fun n hn => (OrdMap.get?_replace _ _ _ _ hmem).trans (if_neg hn))
    (get?_tagProxies htag) (MetaStoreQuery.mem_clusterStoreToCluster hcluster)
    (generateChunks_freePairs hs.keyed harr) hmade haddr
  · rw [hc] at hc'
    cases hc'
    rfl
  · rw [hc] at hn
    cases hn

theorem autoScaleUpNodes_consistent (hs : s.Consistent) {clusterName : String} {num : Nat}
    {s' : MetaStore} {res : Except MetaStoreError (List Node)}
    (h : autoScaleUpNodes s clusterName num = some (s', res)) : s'.Consistent := by
  unfold autoScaleUpNodes at h
  dsimp only at h
  repeat' split at h
  all_goals first
    | (cases h; exact hs)
    | exact autoAddNodes_consistent hs h

theorem autoDeleteFreeNodes_consistent (hs : s.Consistent) {clusterName : String}
    {s' : MetaStore} {res : Except MetaStoreError Unit}
    (h : autoDeleteFreeNodes s clusterName = (s', res)) : s'.Consistent := by
  rcases autoDeleteFreeNodes_cases h with rfl | ⟨name, c, hc, -, rfl⟩
  · exact hs
  have hmem : name ∈ s.clusters := OrdMap.mem_of_get?_eq_some hc
  refine MetaStore.Consistent.bump ?_
  exact hs.dropChunks hc ⟨_, (OrdMap.get?_replace _ _ _ _ hmem).trans (if_pos rfl), rfl⟩
    (fun n hn => (OrdMap.get?_replace _ _ _ _ hmem).trans (if_neg hn)) (get?_freeProxies _ _)

theorem autoDeleteFreeNodesIfExists_consistent (hs : s.Consistent) {clusterName : String}
    {s' : MetaStore} {res : Except MetaStoreError Unit}
    (h : autoDeleteFreeNodesIfExists s clusterName = (s', res)) : s'.Consistent := by
  have hfst := autoDeleteFreeNodesIfExists_fst s clusterName
  rcases hd : autoDeleteFreeNodes s clusterName with ⟨s₂, r₂⟩
  rw [h, hd] at hfst
  obtain rfl : s' = s₂ := hfst
  exact autoDeleteFreeNodes_consistent hs hd

theorem replaceFailedProxy_consistent (hs : s.Consistent) {f : String} {migrationLimit : UInt64}
    {s' : MetaStore} {res : Except MetaStoreError (Option Proxy)}
    (h : replaceFailedProxy s f migrationLimit = some (s', res)) : s'.Consistent := by
  rcases replaceFailedProxy_cases h with rfl | ⟨-, -, -, rfl⟩ |
    ⟨failed, name, t, tr, hfailed, hfcl, ht, hcases⟩
  · exact hs
  · exact hs.of_eq rfl rfl
  -- the takeover only moves roles; every later step starts from its store
  have hlay := takeoverMaster_sameLayout ht
  have ht' := hs.of_sameLayout hlay
  rcases hcases with rfl | rfl | rfl | ⟨r, c, -, hr, hc, rfl⟩
  · exact ht'
  · exact ht'.bump
  · exact ht'.of_eq rfl rfl
  have hfail : t.allProxies.get? f = some failed := hlay.allProxies ▸ hfailed
  have hk : MetaStore.Keyed { t with failedProxies := insert f t.failedProxies } := ht'.keyed
  have hfree : t.FreeProxy r := generateNewFreeProxy_free hk hr
  have hne := replaceHalf_ne hfail hfcl hfree
  have hmem : name ∈ t.clusters := OrdMap.mem_of_get?_eq_some hc
  refine ht'.replaceHalf hfail hfcl hfree hc
    ⟨_, (OrdMap.get?_replace _ _ _ _ hmem).trans (if_pos rfl), rfl⟩
    (fun n hn => (OrdMap.get?_replace _ _ _ _ hmem).trans (if_neg hn)) (fun a => ?_)
  -- the failed proxy is freed first, then the replacement tagged
  dsimp only
  by_cases har : a = r.proxyAddress
  · subst har
    rw [OrdMap.get?_modify_self, OrdMap.get?_modify_ne _ _ hne, if_pos rfl]
  · rw [OrdMap.get?_modify_ne _ _ har, if_neg har]
    by_cases haf : a = f
    · subst haf
      rw [OrdMap.get?_modify_self, if_pos rfl]
    · rw [OrdMap.get?_modify_ne _ _ haf, if_neg haf]

end MetaStoreUpdate

namespace MetaStore

variable {s : MetaStore}

theorem commitMigration_consistent (hs : s.Consistent) {task : MigrationTaskMeta}
    {clearFreeNodes : Bool} {s' : MetaStore} {res : Except MetaStoreError Unit}
    (h : commitMigration s task clearFreeNodes = (s', res)) : s'.Consistent := by
  unfold commitMigration at h
  rcases hc : MetaStoreMigrate.commitMigration s task with ⟨s₁, r₁⟩
  have h₁ := hs.of_sameLayout (MetaStoreMigrate.commitMigration_sameLayout hc)
  rw [hc] at h
  cases r₁ with
  | error e =>
      cases h
      exact h₁
  | ok u =>
      dsimp only at h
      cases clearFreeNodes
      · cases h
        exact h₁
      · exact MetaStoreUpdate.autoDeleteFreeNodesIfExists_consistent h₁ h

theorem scaleResult_consistent (hs : s.Consistent) {name : ClusterName} {op : ScaleOp}
    {s' : MetaStore} {res : Except MetaStoreError (ScaleOp × List String × UInt64)}
    (h : scaleResult s name op = (s', res)) : s'.Consistent := by
  unfold scaleResult at h
  split at h <;> cases h <;> exact hs

theorem scaleNodeNumber_consistent (hs : s.Consistent) {name : ClusterName} {clusterName : String}
    {expectedNum : Nat} {s' : MetaStore}
    {res : Except MetaStoreError (ScaleOp × List String × UInt64)}
    (h : scaleNodeNumber s name clusterName expectedNum = some (s', res)) : s'.Consistent := by
  unfold scaleNodeNumber at h
  dsimp only at h
  split at h
  · cases h
    exact hs
  split at h
  · exact scaleResult_consistent hs (Option.some.inj h)
  split at h
  -- scaling up adds chunks; scaling down only plans a migration
  · split at h
    · cases h
    · next s₁ e hup =>
        cases h
        exact MetaStoreUpdate.autoScaleUpNodes_consistent hs hup
    · next s₁ _ hup =>
        exact scaleResult_consistent (MetaStoreUpdate.autoScaleUpNodes_consistent hs hup)
          (Option.some.inj h)
  · split at h
    · cases h
    · next s₁ e hdown =>
        cases h
        exact hs.of_sameLayout (MetaStoreMigrate.migrateSlotsToScaleDown_sameLayout hdown)
    · next s₁ hdown =>
        exact scaleResult_consistent
          (hs.of_sameLayout (MetaStoreMigrate.migrateSlotsToScaleDown_sameLayout hdown))
          (Option.some.inj h)

theorem autoChangeNodeNumber_consistent (hs : s.Consistent) {clusterName : String}
    {expectedNum : Nat} {s' : MetaStore}
    {res : Except MetaStoreError (ScaleOp × List String × UInt64)}
    (h : autoChangeNodeNumber s clusterName expectedNum = some (s', res)) : s'.Consistent := by
  unfold autoChangeNodeNumber at h
  repeat' split at h
  all_goals first
    | (cases h; exact hs)
    | skip
  -- the rest starts from the store that dropping the free chunks left
  · rename_i hd _
    cases h
    exact MetaStoreUpdate.autoDeleteFreeNodes_consistent hs hd
  · rename_i hd _
    exact scaleNodeNumber_consistent (MetaStoreUpdate.autoDeleteFreeNodes_consistent hs hd) h
  · rename_i hd
    exact scaleNodeNumber_consistent (MetaStoreUpdate.autoDeleteFreeNodes_consistent hs hd) h

theorem autoScaleOutNodeNumber_consistent (hs : s.Consistent) {clusterName : String}
    {expectedNum : Nat} {s' : MetaStore} {res : Except MetaStoreError Unit}
    (h : autoScaleOutNodeNumber s clusterName expectedNum = some (s', res)) : s'.Consistent := by
  unfold autoScaleOutNodeNumber at h
  repeat' split at h
  all_goals first
    | (cases h; exact hs)
    | exact hs.of_sameLayout (MetaStoreMigrate.migrateSlots_sameLayout h)

end MetaStore

namespace MetaStore

/-- No proxy is in two clusters. -/
theorem Consistent.eq_of_mem {s : MetaStore} (hs : s.Consistent) {n₁ n₂ : ClusterName}
    {c₁ c₂ : ClusterStore} (hc₁ : s.clusters.get? n₁ = some c₁) (hc₂ : s.clusters.get? n₂ = some c₂)
    {a : String} (h₁ : a ∈ c₁.getProxyAddresses) (h₂ : a ∈ c₂.getProxyAddresses) : n₁ = n₂ := by
  obtain ⟨r₁, hr₁, hcl₁⟩ := hs.tag_of_mem hc₁ h₁
  obtain ⟨r₂, hr₂, hcl₂⟩ := hs.tag_of_mem hc₂ h₂
  rw [hr₁] at hr₂
  cases hr₂
  rw [hcl₁] at hcl₂
  exact Option.some.inj hcl₂

end MetaStore

namespace Op

variable {cfg : ServiceConfig} {s s' : MetaStore}

/-- A property of the store a call returns beside its reply. -/
theorem of_fst {P : MetaStore → Prop} {α : Type} {p : MetaStore × α}
    (h : ∀ s' r, p = (s', r) → P s') : P p.1 :=
  h p.1 p.2 rfl

/-- A property of the store a call that may panic returns beside its reply. -/
theorem of_map_fst {P : MetaStore → Prop} {α : Type} {o : Option (MetaStore × α)}
    (h : ∀ s' r, o = some (s', r) → P s') (ho : o.map (·.1) = some s') : P s' := by
  obtain ⟨⟨s₁, r⟩, h₁, rfl⟩ := Option.map_eq_some_iff.mp ho
  exact h s₁ r h₁

/-- Every call keeps the store consistent. -/
theorem apply_consistent (hs : s.Consistent) {op : Op} (h : op.apply cfg s = some s') :
    s'.Consistent := by
  cases op <;> simp only [apply] at h
  -- the calls that move proxies, one move each
  case addProxy =>
    cases h
    exact of_fst fun _ _ => MetaStoreUpdate.addProxy_consistent hs
  case addCluster => exact of_map_fst (fun _ _ => MetaStoreUpdate.addCluster_consistent hs) h
  case removeCluster =>
    cases h
    exact of_fst fun _ _ => MetaStoreUpdate.removeCluster_consistent hs
  case autoAddNodes =>
    exact of_map_fst (fun _ _ => MetaStoreUpdate.autoAddNodes_consistent hs) h
  case autoScaleUpNodes =>
    exact of_map_fst (fun _ _ => MetaStoreUpdate.autoScaleUpNodes_consistent hs) h
  case autoDeleteFreeNodes =>
    cases h
    exact of_fst fun _ _ => MetaStoreUpdate.autoDeleteFreeNodes_consistent hs
  case removeProxy =>
    cases h
    exact of_fst fun _ _ => MetaStoreUpdate.removeProxy_consistent hs
  case autoChangeNodeNumber =>
    exact of_map_fst (fun _ _ => MetaStore.autoChangeNodeNumber_consistent hs) h
  case autoScaleOutNodeNumber =>
    exact of_map_fst (fun _ _ => MetaStore.autoScaleOutNodeNumber_consistent hs) h
  case commitMigration =>
    cases h
    exact of_fst fun _ _ => MetaStore.commitMigration_consistent hs
  case replaceFailedProxy =>
    exact of_map_fst (fun _ _ => MetaStoreUpdate.replaceFailedProxy_consistent hs) h
  -- the others keep every chunk list
  case changeConfig =>
    cases h
    exact of_fst fun _ _ hp => hs.of_sameLayout (MetaStoreUpdate.changeConfig_sameLayout hp)
  case balanceMasters =>
    cases h
    exact of_fst fun _ _ hp =>
      hs.of_sameLayout (MetaStoreUpdate.balanceMasters_sameLayout hp)
  case migrateSlots =>
    exact of_map_fst
      (fun _ _ hp => hs.of_sameLayout (MetaStoreMigrate.migrateSlots_sameLayout hp)) h
  case migrateSlotsToScaleDown =>
    exact of_map_fst
      (fun _ _ hp => hs.of_sameLayout (MetaStoreMigrate.migrateSlotsToScaleDown_sameLayout hp)) h
  case getFailures =>
    cases h
    exact hs.of_sameLayout (MetaStoreUpdate.getFailures_sameLayout _ _ _ _)
  case addFailure =>
    cases h
    exact hs.of_sameLayout (MetaStoreUpdate.addFailure_sameLayout _ _ _ _)
  case forceBumpAllEpoch =>
    cases h
    exact hs.of_sameLayout (MetaStore.forceBumpAllEpoch_sameLayout _ _)
  case recoverEpoch =>
    cases h
    exact hs.of_sameLayout (MetaStore.recoverEpoch_sameLayout _ _)

end Op

/-- Every store the broker reaches is consistent. -/
theorem reachable_consistent {cfg : ServiceConfig} {b : Bool} {s : MetaStore}
    (h : Reachable cfg b s) : s.Consistent :=
  Machine.Reachable.invariant _ (MetaStore.consistent_new b)
    (fun _ _ _ hs hstep => Op.apply_consistent hs hstep) h

/-- `check_metadata` passes on every store the broker reaches, and no proxy
is in two clusters. -/
theorem reachable_checkMetadata {cfg : ServiceConfig} {b : Bool} {s : MetaStore}
    (h : Reachable cfg b s) :
    MetaStoreQuery.checkMetadata s = true ∧
      ∀ n₁ n₂ c₁ c₂ a, s.clusters.get? n₁ = some c₁ → s.clusters.get? n₂ = some c₂ →
        a ∈ c₁.getProxyAddresses → a ∈ c₂.getProxyAddresses → n₁ = n₂ := by
  have hs := reachable_consistent h
  exact ⟨MetaStoreQuery.checkMetadata_of_consistent hs,
    fun _ _ _ _ _ hc₁ hc₂ h₁ h₂ => hs.eq_of_mem hc₁ hc₂ h₁ h₂⟩

theorem reachable_checkMetadata_addProxy :
    MetaStoreQuery.checkMetadata
        (MetaStoreUpdate.addProxy (MetaStore.new false) "a:1" ![ "a:6000", "a:6001"] none none).1 =
      true ∧
    ∀ n₁ n₂ c₁ c₂ a,
      (MetaStoreUpdate.addProxy (MetaStore.new false) "a:1" ![ "a:6000", "a:6001"] none
        none).1.clusters.get? n₁ = some c₁ →
      (MetaStoreUpdate.addProxy (MetaStore.new false) "a:1" ![ "a:6000", "a:6001"] none
        none).1.clusters.get? n₂ = some c₂ →
      a ∈ c₁.getProxyAddresses → a ∈ c₂.getProxyAddresses → n₁ = n₂ := by
  have h : Reachable (ServiceConfig.default id) false
      (MetaStoreUpdate.addProxy (MetaStore.new false) "a:1" ![ "a:6000", "a:6001"] none none).1 :=
    .step (.addProxy "a:1" ![ "a:6000", "a:6001"] none none) .init rfl
  exact reachable_checkMetadata h

end Undermoon
