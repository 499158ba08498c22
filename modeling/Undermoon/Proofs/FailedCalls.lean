import Undermoon.Broker.Service

/-!
# What a failed call leaves in the store

The store methods write in place and return early on an error, so what a
failed call leaves is decided by the order of its checks and its writes.
Eight of the ten methods that change clusters check everything they can
refuse before they write: a call that fails leaves the store as it was
("Will bump epoch later on success", as `auto_delete_free_nodes` and
`change_config` put it). The two migration planners do not: both bump the
global epoch first, so every refusal after the name check comes back with
the epoch one higher.

Each lemma is a case analysis over the branches of one method: the branches
that fail return the store they were given, and the others end in `.ok`.
-/

namespace Undermoon

theorem MetaStore.bumpGlobalEpoch_ne (s : MetaStore) : s.bumpGlobalEpoch.1 ≠ s := by
  intro h
  have h' := congrArg MetaStore.globalEpoch h
  rw [MetaStore.bumpGlobalEpoch_fst_globalEpoch] at h'
  simp at h'

/-- A call that refuses hands back the store it was given. -/
theorem MetaStore.eq_of_refused {α : Type} {s s' : MetaStore} {e e' : MetaStoreError}
    (h : ((s, .error e) : MetaStore × Except MetaStoreError α) = (s', .error e')) : s' = s :=
  (Prod.mk.inj h).1.symm

theorem MetaStore.eq_of_refused_some {α : Type} {s s' : MetaStore} {e e' : MetaStoreError}
    (h : some ((s, .error e) : MetaStore × Except MetaStoreError α) = some (s', .error e')) : s' = s :=
  MetaStore.eq_of_refused (Option.some.inj h)

namespace MetaStoreUpdate

open MetaStore (eq_of_refused eq_of_refused_some)

theorem addCluster_error {s s' : MetaStore} {clusterName : String} {nodeNum : Nat}
    {config : ClusterConfig} {e : MetaStoreError}
    (h : addCluster s clusterName nodeNum config = some (s', .error e)) : s' = s := by
  unfold addCluster at h
  split at h
  · -- `OneClusterAlreadyExisted`, in ordered mode
    exact eq_of_refused_some h
  rcases hname : ClusterName.tryFrom clusterName with _ | name <;> simp only [hname] at h
  · -- `InvalidClusterName`
    exact eq_of_refused_some h
  split at h
  · -- `AlreadyExisted`
    exact eq_of_refused_some h
  split at h
  · -- `InvalidNodeNum`: not a multiple of four
    exact eq_of_refused_some h
  split at h
  · -- `InvalidNodeNum`: no chunk at all
    exact eq_of_refused_some h
  rcases hgen : generateChunks s (nodeNum / 2) 0 with _ | (e' | arr) <;> simp only [hgen] at h
  · -- the allocation panicked
    cases h
  · -- the allocation refused
    exact eq_of_refused_some h
  · -- the cluster is written and the call ends in `Ok`
    simp [Option.bind_eq_some_iff] at h

theorem removeCluster_error {s s' : MetaStore} {clusterName : String} {e : MetaStoreError}
    (h : removeCluster s clusterName = (s', .error e)) : s' = s := by
  unfold removeCluster at h
  rcases hname : ClusterName.tryFrom clusterName with _ | name <;> simp only [hname] at h
  · -- `InvalidClusterName`
    exact eq_of_refused h
  rcases hc : s.clusters.get? name with _ | c <;> simp only [hc] at h
  · -- `ClusterNotFound`
    exact eq_of_refused h
  · -- the cluster is removed and the call ends in `Ok`
    cases h

theorem autoAddNodes_error {s s' : MetaStore} {clusterName : String} {num : Nat}
    {e : MetaStoreError}
    (h : autoAddNodes s clusterName num = some (s', .error e)) : s' = s := by
  unfold autoAddNodes at h
  rcases hname : ClusterName.tryFrom clusterName with _ | name <;> simp only [hname] at h
  · -- `InvalidClusterName`
    exact eq_of_refused_some h
  rcases hc : s.clusters.get? name with _ | c <;> simp only [hc] at h
  · -- `ClusterNotFound`
    exact eq_of_refused_some h
  split at h
  · -- `MigrationRunning`
    exact eq_of_refused_some h
  split at h
  · -- `InvalidNodeNum`: not a multiple of four
    exact eq_of_refused_some h
  split at h
  · -- `InvalidNodeNum`: no chunk at all
    exact eq_of_refused_some h
  rcases hgen : generateChunks s (num / 2) (c.chunks.length * 2) with _ | (e' | arr) <;>
    simp only [hgen] at h
  · -- the allocation panicked
    cases h
  · -- the allocation refused
    exact eq_of_refused_some h
  · -- the chunks are appended and the call ends in `Ok`, or it panics
    simp [Option.bind_eq_some_iff] at h

theorem autoDeleteFreeNodes_error {s s' : MetaStore} {clusterName : String} {e : MetaStoreError}
    (h : autoDeleteFreeNodes s clusterName = (s', .error e)) : s' = s := by
  unfold autoDeleteFreeNodes at h
  rcases hname : ClusterName.tryFrom clusterName with _ | name <;> simp only [hname] at h
  · -- `InvalidClusterName`
    exact eq_of_refused h
  rcases hc : s.clusters.get? name with _ | c <;> simp only [hc] at h
  · -- `ClusterNotFound`
    exact eq_of_refused h
  split at h
  · -- `MigrationRunning`
    exact eq_of_refused h
  split at h
  · -- `FreeNodeNotFound`
    exact eq_of_refused h
  · -- the free chunks are removed and the call ends in `Ok`
    cases h

/-- On a cluster the store has, `auto_delete_free_nodes` can only refuse
because of a migration or for want of a free chunk. -/
theorem autoDeleteFreeNodes_error_of_mem {s s' : MetaStore} {name : ClusterName}
    {e : MetaStoreError} (hc : name ∈ s.clusters)
    (h : autoDeleteFreeNodes s name.name = (s', .error e)) :
    e = .migrationRunning ∨ e = .freeNodeNotFound := by
  obtain ⟨c, hget⟩ := Option.isSome_iff_exists.mp (AList.lookup_isSome.mpr hc)
  unfold autoDeleteFreeNodes at h
  simp only [ClusterName.tryFrom_name, show s.clusters.get? name = some c from hget] at h
  split at h
  · cases h; exact .inl rfl
  · split at h
    · cases h; exact .inr rfl
    · cases h

theorem removeProxy_error {s s' : MetaStore} {proxyAddress : String} {e : MetaStoreError}
    (h : removeProxy s proxyAddress = (s', .error e)) : s' = s := by
  unfold removeProxy at h
  rcases hr : s.allProxies.get? proxyAddress with _ | r <;> simp only [hr] at h
  · -- `ProxyNotFound`
    exact eq_of_refused h
  split at h
  · -- `InUse`: the proxy is in a cluster
    exact eq_of_refused h
  · -- the proxy is removed and the call ends in `Ok`
    cases h

theorem changeConfig_error {toLowercase : String → String} {s s' : MetaStore}
    {clusterName : String} {config : List (String × String)} {e : MetaStoreError}
    (h : changeConfig toLowercase s clusterName config = (s', .error e)) : s' = s := by
  unfold changeConfig at h
  rcases hname : ClusterName.tryFrom clusterName with _ | name <;> simp only [hname] at h
  · -- `InvalidClusterName`
    exact eq_of_refused h
  rcases hc : s.clusters.get? name with _ | c <;> simp only [hc] at h
  · -- `ClusterNotFound`
    exact eq_of_refused h
  split at h
  · -- `MigrationRunning`
    exact eq_of_refused h
  rcases hset : setFields toLowercase c.config config with e' | clusterConfig <;> simp only [hset] at h
  · -- `InvalidConfig`: the first pair refused
    exact eq_of_refused h
  · -- the config is written and the call ends in `Ok`
    cases h

theorem balanceMasters_error {s s' : MetaStore} {clusterName : String} {e : MetaStoreError}
    (h : balanceMasters s clusterName = (s', .error e)) : s' = s := by
  unfold balanceMasters at h
  rcases hname : ClusterName.tryFrom clusterName with _ | name <;> simp only [hname] at h
  · -- `InvalidClusterName`
    exact eq_of_refused h
  rcases hc : s.clusters.get? name with _ | c <;> simp only [hc] at h
  · -- `ClusterNotFound`
    exact eq_of_refused h
  · -- the role positions are reset and the call ends in `Ok`
    cases h

end MetaStoreUpdate

namespace MetaStoreMigrate

open MetaStore (eq_of_refused eq_of_refused_some)

theorem commitMigration_error {s s' : MetaStore} {task : MigrationTaskMeta} {e : MetaStoreError}
    (h : commitMigration s task = (s', .error e)) : s' = s := by
  unfold commitMigration at h
  rcases hc : s.clusters.get? task.clusterName with _ | c <;> simp only [hc] at h
  · -- `ClusterNotFound`
    exact eq_of_refused h
  rcases hm : task.slotRange.tag.getMigrationMeta with _ | m <;> simp only [hm] at h
  · -- `InvalidMigrationTask`: the range is not migrating
    exact eq_of_refused h
  split at h
  · -- both entries found: the task is committed and the call ends in `Ok`
    cases h
  · -- `MigrationTaskNotFound`
    exact eq_of_refused h

/-- A committed task's cluster is still in the store. -/
theorem commitMigration_ok_mem {s s' : MetaStore} {task : MigrationTaskMeta}
    (h : commitMigration s task = (s', .ok ())) : task.clusterName ∈ s'.clusters := by
  unfold commitMigration at h
  dsimp only at h
  split at h
  · cases h
  · next c hget =>
      split at h
      · cases h
      · split at h
        · cases h
          exact AList.mem_replace.mpr (AList.lookup_isSome.mp (by rw [← OrdMap.get?, hget]; rfl))
        · cases h

/-- The planners refuse only after the bump, except for an invalid name. -/
theorem migrateSlots_error {s s' : MetaStore} {clusterName : String} {e : MetaStoreError}
    (h : migrateSlots s clusterName = some (s', .error e)) :
    s' = s ∨ s' = s.bumpGlobalEpoch.1 := by
  unfold migrateSlots at h
  rcases hname : ClusterName.tryFrom clusterName with _ | name <;> simp only [hname] at h
  · -- `InvalidClusterName`, the only check before the bump
    exact .inl (eq_of_refused_some h)
  -- every later refusal hands back the bumped store
  right
  rcases hc : s.bumpGlobalEpoch.1.clusters.get? name with _ | c <;> simp only [hc] at h
  · -- `ClusterNotFound`
    exact eq_of_refused_some h
  split at h
  · -- `SlotsAlreadyEven`: every chunk has slots on both halves
    exact eq_of_refused_some h
  rcases hrun : checkRunningTasks c with e' | _ <;> simp only [hrun] at h
  · -- `MigrationRunning`
    exact eq_of_refused_some h
  · -- the plan is written and the call ends in `Ok`, or it panics
    simp [Option.bind_eq_some_iff] at h

theorem migrateSlotsToScaleDown_error {s s' : MetaStore} {clusterName : String} {n : Nat}
    {e : MetaStoreError} (h : migrateSlotsToScaleDown s clusterName n = some (s', .error e)) :
    s' = s ∨ s' = s.bumpGlobalEpoch.1 := by
  unfold migrateSlotsToScaleDown at h
  rcases hname : ClusterName.tryFrom clusterName with _ | name <;> simp only [hname] at h
  · -- `InvalidClusterName`, the only check before the bump
    exact .inl (eq_of_refused_some h)
  -- every later refusal hands back the bumped store
  right
  rcases hc : s.bumpGlobalEpoch.1.clusters.get? name with _ | c <;> simp only [hc] at h
  · -- `ClusterNotFound`
    exact eq_of_refused_some h
  split at h
  · -- `FreeNodeFound`: a chunk has a half without slots
    exact eq_of_refused_some h
  rcases hrun : checkRunningTasks c with e' | _ <;> simp only [hrun] at h
  · -- `MigrationRunning`
    exact eq_of_refused_some h
  split at h
  · -- `InvalidNodeNum`
    exact eq_of_refused_some h
  · -- the plan is written and the call ends in `Ok`, or it panics
    simp [Option.bind_eq_some_iff] at h

/-- Both planners, asked for a cluster the store does not have, refuse with
`ClusterNotFound` and leave the store with its global epoch bumped. -/
theorem migrate_error_bumps_epoch (s : MetaStore) (name : ClusterName) (newNodeNum : Nat)
    (h : name ∉ s.clusters) :
    migrateSlots s name.name = some (s.bumpGlobalEpoch.1, .error .clusterNotFound) ∧
      migrateSlotsToScaleDown s name.name newNodeNum =
        some (s.bumpGlobalEpoch.1, .error .clusterNotFound) ∧
      s.bumpGlobalEpoch.1 ≠ s := by
  have hnone : s.bumpGlobalEpoch.1.clusters.get? name = none := OrdMap.get?_eq_none.mpr h
  refine ⟨?_, ?_, MetaStore.bumpGlobalEpoch_ne s⟩
  · unfold migrateSlots
    rw [ClusterName.tryFrom_name]
    dsimp only
    rw [hnone]
  · unfold migrateSlotsToScaleDown
    rw [ClusterName.tryFrom_name]
    dsimp only
    rw [hnone]

/-- The smallest case: a new store asked to migrate a cluster `c` it has
never had. -/
theorem migrate_error_bumps_epoch_new :
    (⟨"c", by decide⟩ : ClusterName) ∉ (MetaStore.new false).clusters ∧
      (migrateSlots (MetaStore.new false) "c" =
          some ((MetaStore.new false).bumpGlobalEpoch.1, .error .clusterNotFound) ∧
        migrateSlotsToScaleDown (MetaStore.new false) "c" 4 =
          some ((MetaStore.new false).bumpGlobalEpoch.1, .error .clusterNotFound) ∧
        (MetaStore.new false).bumpGlobalEpoch.1 ≠ MetaStore.new false) :=
  ⟨by decide, migrate_error_bumps_epoch (MetaStore.new false) ⟨"c", by decide⟩ 4 (by decide)⟩

end MetaStoreMigrate

/-- `MetaStore::commit_migration` with or without clearing the free chunks:
a commit that is refused writes nothing, and once it succeeded the clearing
cannot fail. -/
theorem MetaStore.commitMigration_error {s s' : MetaStore} {task : MigrationTaskMeta}
    {clearFreeNodes : Bool} {e : MetaStoreError}
    (h : MetaStore.commitMigration s task clearFreeNodes = (s', .error e)) : s' = s := by
  unfold MetaStore.commitMigration at h
  rcases hc : MetaStoreMigrate.commitMigration s task with ⟨s₁, _ | ⟨⟨⟩⟩⟩
  · rw [hc] at h
    cases h
    exact MetaStoreMigrate.commitMigration_error hc
  · rw [hc] at h
    have hmem := MetaStoreMigrate.commitMigration_ok_mem hc
    cases clearFreeNodes with
    | false => cases h
    | true =>
        unfold MetaStoreUpdate.autoDeleteFreeNodesIfExists at h
        rcases hdel : MetaStoreUpdate.autoDeleteFreeNodes s₁ task.clusterName.name with
          ⟨s₂, e₂ | ⟨⟩⟩
        · -- the only errors left are the two the wrapper turns into `Ok`
          rcases MetaStoreUpdate.autoDeleteFreeNodes_error_of_mem hmem hdel with rfl | rfl
          all_goals simp [hdel] at h
        · simp [hdel] at h

end Undermoon
