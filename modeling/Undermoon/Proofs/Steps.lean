import Undermoon.Broker.Migrate

/-!
# What each call that moves proxies can do

The calls that change the proxy table or a cluster's chunk list, each
inverted once: a call either changes nothing, or makes the one change its
success path makes, under the guards that path passed. The invariants over
runs take these lemmas instead of unfolding the calls again.

A failed call that writes before it fails (`add_proxy` on a known proxy,
`replace_failed_proxy` after the takeover) has its partial write as a case
of its own.
-/

namespace Undermoon

namespace MetaStoreUpdate

variable {s s' : MetaStore}

/-- `add_proxy`: nothing, or the proxy enters the table if it is new, and the
epoch is bumped unless nothing changed. -/
theorem addProxy_cases {a : String} {nodes : Fin 2 → String} {host : Option String}
    {index : Option Nat} {res : Except MetaStoreError Unit}
    (h : addProxy s a nodes host index = (s', res)) :
    s' = s ∨ ∃ r : ProxyResource, r.proxyAddress = a ∧ r.cluster = none ∧
      s'.allProxies = s.allProxies.insertIfAbsent a r ∧ s'.clusters = s.clusters ∧
      (s'.globalEpoch = s.globalEpoch + 1 ∨ (s'.globalEpoch = s.globalEpoch ∧ a ∈ s.allProxies)) := by
  unfold addProxy at h
  dsimp only at h
  split at h
  · cases h; exact .inl rfl
  · split at h
    · cases h; exact .inl rfl
    · next idx _ =>
        refine .inr ⟨⟨a, nodes, host.getD ((splitColon a).headD ""), idx, none⟩, rfl, rfl, ?_⟩
        split at h
        · next hbump =>
            cases h
            exact ⟨rfl, rfl, .inl rfl⟩
        · next hbump =>
            cases h
            refine ⟨rfl, rfl, .inr ⟨rfl, ?_⟩⟩
            simp only [Bool.or_eq_true, Bool.not_eq_eq_eq_not, Bool.not_true, not_or,
              decide_eq_false_iff_not, Decidable.not_not] at hbump
            exact hbump.1

/-- `remove_proxy`: nothing, or a proxy in no cluster leaves the table. -/
theorem removeProxy_cases {a : String} {res : Except MetaStoreError Unit}
    (h : removeProxy s a = (s', res)) :
    s' = s ∨ ∃ r, s.allProxies.get? a = some r ∧ r.cluster = none ∧
      s' = { s with
        allProxies := s.allProxies.erase a
        failedProxies := s.failedProxies.erase a
        failures := s.failures.erase a }.bumpGlobalEpoch.1 := by
  unfold removeProxy at h
  split at h
  · cases h; exact .inl rfl
  · next r hr =>
      split at h
      · cases h; exact .inl rfl
      · next hcl =>
          cases h
          exact .inr ⟨r, hr, Option.not_isSome_iff_eq_none.mp hcl, rfl⟩

/-- `add_cluster`: nothing, or a new cluster of fresh chunks at the bumped
epoch, its proxies tagged. -/
theorem addCluster_cases {clusterName : String} {nodeNum : Nat} {config : ClusterConfig}
    {res : Except MetaStoreError Unit}
    (h : addCluster s clusterName nodeNum config = some (s', res)) :
    s' = s ∨ ∃ name arr chunks allProxies,
      ClusterName.tryFrom clusterName = some name ∧ name ∉ s.clusters ∧
      (s.enableOrderedProxy = true → s.clusters.entries = []) ∧
      generateChunks s (nodeNum / 2) 0 = some (.ok arr) ∧
      proxyResourceToChunkStore arr true = some chunks ∧
      tagProxies s.allProxies (chunkProxyAddresses chunks) (some name) = some allProxies ∧
      s' = { s.bumpGlobalEpoch.1 with
        allProxies
        clusters := s.clusters.insert name ⟨s.globalEpoch + 1, name, chunks, config⟩ } := by
  unfold addCluster at h
  repeat' split at h
  all_goals first
    | (cases h <;> exact .inl rfl)
    | skip
  rename_i hordered _ name hname hnew _ _ _ arr harr _ s₁ epoch hbump
  simp only [MetaStore.bumpGlobalEpoch, Prod.mk.injEq] at hbump
  obtain ⟨rfl, rfl⟩ := hbump
  simp only [Option.bind_eq_bind, Option.bind_eq_some_iff, Option.pure_def, Option.some.injEq,
    Prod.mk.injEq] at h
  obtain ⟨chunks, hchunks, allProxies, htag, rfl, -⟩ := h
  refine .inr ⟨name, arr, chunks, allProxies, hname, hnew, fun ho => ?_, harr, hchunks, htag, rfl⟩
  simp only [ho, Bool.true_and, Bool.not_eq_eq_eq_not, Bool.not_true, Bool.not_eq_false,
    List.isEmpty_iff] at hordered
  exact hordered

/-- `remove_cluster`: nothing, or the cluster goes and its proxies are free. -/
theorem removeCluster_cases {clusterName : String} {res : Except MetaStoreError Unit}
    (h : removeCluster s clusterName = (s', res)) :
    s' = s ∨ ∃ name c, s.clusters.get? name = some c ∧
      s' = { s with
        clusters := s.clusters.erase name
        allProxies := freeProxies s.allProxies (chunkProxyAddresses c.chunks) }.bumpGlobalEpoch.1 := by
  unfold removeCluster at h
  split at h
  · cases h; exact .inl rfl
  · next name _ =>
      split at h
      · cases h; exact .inl rfl
      · next c hc =>
          cases h
          exact .inr ⟨name, c, hc, rfl⟩

/-- `auto_add_nodes`: nothing, or chunks of fresh proxies appended to a
cluster that is not migrating, at the bumped epoch, and the cluster's
proxies tagged. -/
theorem autoAddNodes_cases {clusterName : String} {num : Nat}
    {res : Except MetaStoreError (List Node)}
    (h : autoAddNodes s clusterName num = some (s', res)) :
    s' = s ∨ ∃ name c arr chunks cluster allProxies,
      s.clusters.get? name = some c ∧ c.isMigrating = false ∧
      generateChunks s (num / 2) (c.chunks.length * 2) = some (.ok arr) ∧
      proxyResourceToChunkStore arr false = some chunks ∧
      MetaStoreQuery.clusterStoreToCluster
        { c with chunks := c.chunks ++ chunks, epoch := s.globalEpoch + 1 } = some cluster ∧
      tagProxies s.allProxies (cluster.nodes.map Node.proxyAddress) (some name) = some allProxies ∧
      s' = { s.bumpGlobalEpoch.1 with
        allProxies
        clusters := s.clusters.replace name
          { c with chunks := c.chunks ++ chunks, epoch := s.globalEpoch + 1 } } := by
  unfold autoAddNodes at h
  repeat' split at h
  all_goals first
    | (cases h <;> exact .inl rfl)
    | skip
  rename_i name _ _ c hc hmig _ _ _ arr harr _ s₁ epoch hbump
  simp only [MetaStore.bumpGlobalEpoch, Prod.mk.injEq] at hbump
  obtain ⟨rfl, rfl⟩ := hbump
  simp only [Option.bind_eq_bind, Option.bind_eq_some_iff] at h
  obtain ⟨chunks, hchunks, cluster, hcluster, allProxies, htag, h⟩ := h
  split at h
  · cases h
  · simp only [Option.pure_def, Option.some.injEq, Prod.mk.injEq] at h
    obtain ⟨rfl, -⟩ := h
    exact .inr ⟨name, c, arr, chunks, cluster, allProxies, hc, Bool.eq_false_iff.mpr hmig, harr,
      hchunks, hcluster, htag, rfl⟩

/-- `auto_delete_free_nodes`: nothing, or the free chunks of a cluster that
is not migrating go, their proxies are freed, and the epoch is bumped. -/
theorem autoDeleteFreeNodes_cases {clusterName : String} {res : Except MetaStoreError Unit}
    (h : autoDeleteFreeNodes s clusterName = (s', res)) :
    s' = s ∨ ∃ name c, s.clusters.get? name = some c ∧ c.isMigrating = false ∧
      s' = { s with
        clusters := s.clusters.replace name
          { c with chunks := c.chunks.filter (!·.isFree), epoch := s.globalEpoch + 1 }
        allProxies := freeProxies s.allProxies
          (chunkProxyAddresses (c.chunks.filter ChunkStore.isFree)) }.bumpGlobalEpoch.1 := by
  unfold autoDeleteFreeNodes at h
  dsimp only at h
  repeat' split at h
  all_goals first
    | (cases h; exact .inl rfl)
    | skip
  rename_i name _ _ c hc hmig _
  cases h
  exact .inr ⟨name, c, hc, Bool.eq_false_iff.mpr hmig, rfl⟩

theorem autoDeleteFreeNodesIfExists_fst (s : MetaStore) (clusterName : String) :
    (autoDeleteFreeNodesIfExists s clusterName).1 = (autoDeleteFreeNodes s clusterName).1 := by
  unfold autoDeleteFreeNodesIfExists
  split
  -- the two refusals it turns into `Ok` keep the store they were given
  · next h => rw [h]
  · next h => rw [h]
  · rfl

/-- `replace_failed_proxy`: nothing for an unknown proxy; a free proxy is
only recorded as failed; a proxy in a cluster has its masters taken over,
after which the call stops (refused, or in ordered mode with one more bump,
or for want of a free proxy, with the failure recorded), or hands the failed
half to a free proxy at the bumped epoch. -/
theorem replaceFailedProxy_cases {f : String} {migrationLimit : UInt64}
    {res : Except MetaStoreError (Option Proxy)}
    (h : replaceFailedProxy s f migrationLimit = some (s', res)) :
    s' = s ∨
    (∃ failed, s.allProxies.get? f = some failed ∧ failed.cluster = none ∧
      s' = { s with failures := s.failures.erase f, failedProxies := insert f s.failedProxies }) ∨
    ∃ failed name t tr, s.allProxies.get? f = some failed ∧ failed.cluster = some name ∧
      takeoverMaster s name f = (t, tr) ∧
      (s' = t ∨ s' = t.bumpGlobalEpoch.1 ∨ s' = { t with failedProxies := insert f t.failedProxies } ∨
        ∃ r c, t.enableOrderedProxy = false ∧
          generateNewFreeProxy { t with failedProxies := insert f t.failedProxies } f = some (.ok r) ∧
          t.clusters.get? name = some c ∧
          s' = { ({ t with failedProxies := insert f t.failedProxies }.bumpGlobalEpoch.1) with
            clusters := t.clusters.replace name
              { c with chunks := replaceChunks c.chunks f r, epoch := t.globalEpoch + 1 }
            allProxies := (t.allProxies.modify f fun p => { p with cluster := none }).modify
              r.proxyAddress fun p => { p with cluster := some name } }) := by
  unfold replaceFailedProxy at h
  dsimp only at h
  split at h
  · cases h; exact .inl rfl
  · next failed hfailed =>
      split at h
      · next hcl =>
          cases h
          exact .inr (.inl ⟨failed, hfailed, hcl, rfl⟩)
      · next name hcl =>
          refine .inr (.inr ?_)
          split at h
          · next t e ht =>
              simp only [Option.some.injEq, Prod.mk.injEq] at h
              obtain ⟨rfl, -⟩ := h
              exact ⟨failed, name, _, _, hfailed, hcl, ht, .inl rfl⟩
          · next t ht =>
              refine ⟨failed, name, t, _, hfailed, hcl, ht, ?_⟩
              split at h
              · cases h
                exact .inr (.inl rfl)
              · next hord =>
                  split at h
                  · cases h
                  · cases h
                    exact .inr (.inr (.inl rfl))
                  · next r hr =>
                      simp only [MetaStore.bumpGlobalEpoch, Option.bind_eq_bind,
                        Option.bind_eq_some_iff] at h
                      obtain ⟨c, hc, _, _, _, _, h⟩ := h
                      simp only [Option.pure_def, Option.some.injEq, Prod.mk.injEq] at h
                      obtain ⟨rfl, -⟩ := h
                      exact .inr (.inr (.inr ⟨r, c, Bool.eq_false_iff.mpr hord, hr, hc, rfl⟩))

/-- A failover that returns a proxy took the last path of
`replaceFailedProxy_cases`, and the proxy is the new one's view. -/
theorem replaceFailedProxy_some_proxy {f : String} {migrationLimit : UInt64} {p : Proxy}
    (h : replaceFailedProxy s f migrationLimit = some (s', .ok (some p))) :
    ∃ failed name t r c, s.allProxies.get? f = some failed ∧ failed.cluster = some name ∧
      takeoverMaster s name f = (t, .ok ()) ∧ t.enableOrderedProxy = false ∧
      generateNewFreeProxy { t with failedProxies := insert f t.failedProxies } f = some (.ok r) ∧
      t.clusters.get? name = some c ∧
      s' = { ({ t with failedProxies := insert f t.failedProxies }.bumpGlobalEpoch.1) with
        clusters := t.clusters.replace name
          { c with chunks := replaceChunks c.chunks f r, epoch := t.globalEpoch + 1 }
        allProxies := (t.allProxies.modify f fun p => { p with cluster := none }).modify
          r.proxyAddress fun p => { p with cluster := some name } } ∧
      MetaStoreQuery.getProxyByAddress s' r.proxyAddress migrationLimit = some (some p) := by
  unfold replaceFailedProxy at h
  dsimp only at h
  split at h
  · cases h
  · next failed hfailed =>
      split at h
      · cases h
      · next name hcl =>
          split at h
          · cases h
          · next t ht =>
              split at h
              · cases h
              · next hord =>
                  split at h
                  · cases h
                  · cases h
                  · next r hr =>
                      simp only [MetaStore.bumpGlobalEpoch, Option.bind_eq_bind,
                        Option.bind_eq_some_iff] at h
                      obtain ⟨c, hc, po, hpo, p₀, rfl, h⟩ := h
                      simp only [Option.pure_def, Option.some.injEq, Prod.mk.injEq,
                        Except.ok.injEq] at h
                      obtain ⟨rfl, rfl⟩ := h
                      exact ⟨failed, name, t, r, c, hfailed, hcl, ht, Bool.eq_false_iff.mpr hord, hr,
                        hc, rfl, hpo⟩

end MetaStoreUpdate

/-! ## The calls that rewrite one cluster

The other calls that change a cluster rewrite one, at the bumped epoch, and
touch no proxy; some bump on a failure path too. -/

/-- The store `s` with at most one cluster rewritten, stamped with the
bumped epoch, and the epoch bumped or not. -/
def MetaStore.Restamp (s s' : MetaStore) : Prop :=
  s' = s ∨ s' = s.bumpGlobalEpoch.1 ∨ ∃ name c, name ∈ s.clusters ∧ c.epoch = s.globalEpoch + 1 ∧
    s' = { s.bumpGlobalEpoch.1 with clusters := s.clusters.replace name c }

namespace MetaStoreUpdate

variable {s s' : MetaStore}

theorem changeConfig_restamp {toLowercase : String → String} {clusterName : String}
    {config : List (String × String)} {r : Except MetaStoreError Unit}
    (h : changeConfig toLowercase s clusterName config = (s', r)) : s.Restamp s' := by
  unfold changeConfig at h
  dsimp only at h
  repeat' split at h
  all_goals first
    | (cases h; exact .inl rfl)
    | skip
  rename_i name _ _ c hc _ _ _ _
  cases h
  exact .inr (.inr ⟨name, _, OrdMap.mem_of_get?_eq_some hc, rfl, rfl⟩)

theorem balanceMasters_restamp {clusterName : String} {r : Except MetaStoreError Unit}
    (h : balanceMasters s clusterName = (s', r)) : s.Restamp s' := by
  unfold balanceMasters at h
  dsimp only at h
  repeat' split at h
  all_goals first
    | (cases h; exact .inl rfl)
    | skip
  rename_i name _ _ c hc
  cases h
  exact .inr (.inr ⟨name, _, OrdMap.mem_of_get?_eq_some hc, rfl, rfl⟩)

theorem takeoverMaster_restamp {name : ClusterName} {a : String} {r : Except MetaStoreError Unit}
    (h : takeoverMaster s name a = (s', r)) : s.Restamp s' := by
  unfold takeoverMaster at h
  dsimp only at h
  repeat' split at h
  all_goals first
    | (cases h; exact .inr (.inl rfl))
    | skip
  rename_i c hc _ _ _
  cases h
  exact .inr (.inr ⟨name, _, OrdMap.mem_of_get?_eq_some hc, rfl, rfl⟩)

end MetaStoreUpdate

namespace MetaStoreMigrate

variable {s s' : MetaStore}

theorem checkRunningTasks_ok {c : ClusterStore} (h : checkRunningTasks c = .ok ()) :
    c.isMigrating = false := by
  unfold checkRunningTasks at h
  split at h
  · cases h
  · next hm => exact Bool.eq_false_iff.mpr hm

/-- `migrate_slots`: nothing, the bump alone (every refusal after the name
check), or a planned scale-out of a cluster that is not migrating, stored at
the bumped epoch. -/
theorem migrateSlots_cases {clusterName : String} {r : Except MetaStoreError Unit}
    (h : migrateSlots s clusterName = some (s', r)) :
    s' = s ∨ s' = s.bumpGlobalEpoch.1 ∨ ∃ name c chunks ms final,
      s.clusters.get? name = some c ∧ c.isMigrating = false ∧
      removeSlotsFromSrc c (s.globalEpoch + 1) = some (chunks, ms) ∧
      assignDstSlots chunks ms = some final ∧
      s' = { s.bumpGlobalEpoch.1 with
        clusters := s.clusters.replace name { c with chunks := final, epoch := s.globalEpoch + 1 } } := by
  unfold migrateSlots at h
  dsimp only at h
  repeat' split at h
  all_goals first
    | (cases h; exact .inl rfl)
    | (cases h; exact .inr (.inl rfl))
    | skip
  rename_i name _ _ c hc _ _ hrun
  simp only [Option.bind_eq_bind, Option.bind_eq_some_iff, Option.pure_def,
    Option.some.injEq] at h
  obtain ⟨⟨chunks, ms⟩, hplan, final, hassign, _, _, h⟩ := h
  cases h
  exact .inr (.inr ⟨name, c, chunks, ms, final, hc, checkRunningTasks_ok hrun, hplan, hassign, rfl⟩)

/-- `migrate_slots_to_scale_down`: nothing, the bump alone, or a planned
scale-down of a cluster that is not migrating and whose every part has stable
slots, stored at the bumped epoch. -/
theorem migrateSlotsToScaleDown_cases {clusterName : String} {n : Nat}
    {r : Except MetaStoreError Unit} (h : migrateSlotsToScaleDown s clusterName n = some (s', r)) :
    s' = s ∨ s' = s.bumpGlobalEpoch.1 ∨ ∃ name c chunks ms final,
      s.clusters.get? name = some c ∧ c.isMigrating = false ∧
      (∀ chunk ∈ c.chunks, (chunk.stableSlots 0).isSome ∧ (chunk.stableSlots 1).isSome) ∧
      removeSlotsFromSrcToScaleDown c (s.globalEpoch + 1) (n / 4) = some (chunks, ms) ∧
      assignDstSlots chunks ms = some final ∧
      s' = { s.bumpGlobalEpoch.1 with
        clusters := s.clusters.replace name { c with chunks := final, epoch := s.globalEpoch + 1 } } := by
  unfold migrateSlotsToScaleDown at h
  dsimp only at h
  repeat' split at h
  all_goals first
    | (cases h; exact .inl rfl)
    | (cases h; exact .inr (.inl rfl))
    | skip
  rename_i name _ _ c hc hempty _ hrun _
  simp only [Option.bind_eq_bind, Option.bind_eq_some_iff, Option.pure_def,
    Option.some.injEq] at h
  obtain ⟨⟨chunks, ms⟩, hplan, final, hassign, _, _, h⟩ := h
  cases h
  -- no part lacks stable slots
  have hfull : ∀ chunk ∈ c.chunks, (chunk.stableSlots 0).isSome ∧ (chunk.stableSlots 1).isSome := by
    intro chunk hchunk
    simp only [List.any_eq_true, Bool.or_eq_true, not_exists, not_and] at hempty
    have hn := hempty chunk hchunk
    simp only [Option.isNone_iff_eq_none, not_or] at hn
    exact ⟨Option.isSome_iff_ne_none.mpr hn.1, Option.isSome_iff_ne_none.mpr hn.2⟩
  exact .inr (.inr ⟨name, c, chunks, ms, final, hc, checkRunningTasks_ok hrun, hfull, hplan,
    hassign, rfl⟩)

theorem migrateSlots_restamp {clusterName : String} {r : Except MetaStoreError Unit}
    (h : migrateSlots s clusterName = some (s', r)) : s.Restamp s' := by
  rcases migrateSlots_cases h with rfl | rfl | ⟨name, c, -, -, -, hc, -, -, -, rfl⟩
  · exact .inl rfl
  · exact .inr (.inl rfl)
  · exact .inr (.inr ⟨name, _, OrdMap.mem_of_get?_eq_some hc, rfl, rfl⟩)

theorem migrateSlotsToScaleDown_restamp {clusterName : String} {n : Nat}
    {r : Except MetaStoreError Unit} (h : migrateSlotsToScaleDown s clusterName n = some (s', r)) :
    s.Restamp s' := by
  rcases migrateSlotsToScaleDown_cases h with rfl | rfl | ⟨name, c, -, -, -, hc, -, -, -, -, rfl⟩
  · exact .inl rfl
  · exact .inr (.inl rfl)
  · exact .inr (.inr ⟨name, _, OrdMap.mem_of_get?_eq_some hc, rfl, rfl⟩)

theorem commitMigration_restamp {task : MigrationTaskMeta} {r : Except MetaStoreError Unit}
    (h : commitMigration s task = (s', r)) : s.Restamp s' := by
  unfold commitMigration at h
  dsimp only at h
  repeat' split at h
  all_goals first
    | (cases h; exact .inl rfl)
    | skip
  rename_i c hc _ _ _ _ _ _ _ _ _ _ _
  cases h
  exact .inr (.inr ⟨task.clusterName, _, OrdMap.mem_of_get?_eq_some hc, rfl, rfl⟩)

end MetaStoreMigrate

/-! ## The composite calls

`auto_scale_up_nodes`, `auto_delete_free_nodes_if_exists`,
`MetaStore::commit_migration`, `auto_change_node_number` and
`auto_scale_out_node_number` only chain other calls, so they keep any property
of stores that the calls they chain keep. -/

section Composite

variable (P : MetaStore → Prop) {s s' : MetaStore}

theorem MetaStoreUpdate.autoScaleUpNodes_preserves
    (hadd : ∀ {t t' : MetaStore} {name : String} {num : Nat} {r : Except MetaStoreError (List Node)},
      P t → MetaStoreUpdate.autoAddNodes t name num = some (t', r) → P t')
    {clusterName : String} {num : Nat} {res : Except MetaStoreError (List Node)} (hs : P s)
    (h : MetaStoreUpdate.autoScaleUpNodes s clusterName num = some (s', res)) : P s' := by
  unfold MetaStoreUpdate.autoScaleUpNodes at h
  dsimp only at h
  repeat' split at h
  all_goals first
    | (cases h; exact hs)
    | exact hadd hs h

theorem MetaStoreUpdate.autoDeleteFreeNodesIfExists_preserves
    (hdel : ∀ {t t' : MetaStore} {name : String} {r : Except MetaStoreError Unit},
      P t → MetaStoreUpdate.autoDeleteFreeNodes t name = (t', r) → P t')
    {clusterName : String} {res : Except MetaStoreError Unit} (hs : P s)
    (h : MetaStoreUpdate.autoDeleteFreeNodesIfExists s clusterName = (s', res)) : P s' := by
  have hfst := MetaStoreUpdate.autoDeleteFreeNodesIfExists_fst s clusterName
  rcases hd : MetaStoreUpdate.autoDeleteFreeNodes s clusterName with ⟨s₂, r₂⟩
  rw [h, hd] at hfst
  obtain rfl : s' = s₂ := hfst
  exact hdel hs hd

theorem MetaStore.commitMigration_preserves
    (hcommit : ∀ {t t' : MetaStore} {task : MigrationTaskMeta} {r : Except MetaStoreError Unit},
      P t → MetaStoreMigrate.commitMigration t task = (t', r) → P t')
    (hdel : ∀ {t t' : MetaStore} {name : String} {r : Except MetaStoreError Unit},
      P t → MetaStoreUpdate.autoDeleteFreeNodes t name = (t', r) → P t')
    {task : MigrationTaskMeta} {clearFreeNodes : Bool} {res : Except MetaStoreError Unit}
    (hs : P s) (h : MetaStore.commitMigration s task clearFreeNodes = (s', res)) : P s' := by
  unfold MetaStore.commitMigration at h
  rcases hc : MetaStoreMigrate.commitMigration s task with ⟨s₁, r₁⟩
  have h₁ := hcommit hs hc
  rw [hc] at h
  cases r₁ with
  | error e =>
      cases h
      exact h₁
  | ok u =>
      dsimp only at h
      cases clearFreeNodes
      · cases h
        exact h₁
      · exact MetaStoreUpdate.autoDeleteFreeNodesIfExists_preserves P hdel h₁ h

theorem MetaStore.scaleNodeNumber_preserves
    (hadd : ∀ {t t' : MetaStore} {name : String} {num : Nat} {r : Except MetaStoreError (List Node)},
      P t → MetaStoreUpdate.autoAddNodes t name num = some (t', r) → P t')
    (hdown : ∀ {t t' : MetaStore} {name : String} {n : Nat} {r : Except MetaStoreError Unit},
      P t → MetaStoreMigrate.migrateSlotsToScaleDown t name n = some (t', r) → P t')
    {name : ClusterName} {clusterName : String} {expectedNum : Nat}
    {res : Except MetaStoreError (ScaleOp × List String × UInt64)} (hs : P s)
    (h : MetaStore.scaleNodeNumber s name clusterName expectedNum = some (s', res)) : P s' := by
  -- `scale_result` hands back the store it is given
  have hresult : ∀ {t t' : MetaStore} {op : ScaleOp}
      {r : Except MetaStoreError (ScaleOp × List String × UInt64)},
      MetaStore.scaleResult t name op = (t', r) → t' = t := by
    intro t t' op r hr
    unfold MetaStore.scaleResult at hr
    split at hr <;> cases hr <;> rfl
  unfold MetaStore.scaleNodeNumber at h
  dsimp only at h
  split at h
  · cases h
    exact hs
  split at h
  · rw [hresult (Option.some.inj h)]
    exact hs
  split at h
  · split at h
    · cases h
    · next s₁ e hup =>
        cases h
        exact MetaStoreUpdate.autoScaleUpNodes_preserves P hadd hs hup
    · next s₁ _ hup =>
        rw [hresult (Option.some.inj h)]
        exact MetaStoreUpdate.autoScaleUpNodes_preserves P hadd hs hup
  · split at h
    · cases h
    · next s₁ e hd =>
        cases h
        exact hdown hs hd
    · next s₁ hd =>
        rw [hresult (Option.some.inj h)]
        exact hdown hs hd

theorem MetaStore.autoChangeNodeNumber_preserves
    (hadd : ∀ {t t' : MetaStore} {name : String} {num : Nat} {r : Except MetaStoreError (List Node)},
      P t → MetaStoreUpdate.autoAddNodes t name num = some (t', r) → P t')
    (hdel : ∀ {t t' : MetaStore} {name : String} {r : Except MetaStoreError Unit},
      P t → MetaStoreUpdate.autoDeleteFreeNodes t name = (t', r) → P t')
    (hdown : ∀ {t t' : MetaStore} {name : String} {n : Nat} {r : Except MetaStoreError Unit},
      P t → MetaStoreMigrate.migrateSlotsToScaleDown t name n = some (t', r) → P t')
    {clusterName : String} {expectedNum : Nat}
    {res : Except MetaStoreError (ScaleOp × List String × UInt64)} (hs : P s)
    (h : MetaStore.autoChangeNodeNumber s clusterName expectedNum = some (s', res)) : P s' := by
  unfold MetaStore.autoChangeNodeNumber at h
  repeat' split at h
  all_goals first
    | (cases h; exact hs)
    | skip
  -- the rest starts from the store that dropping the free chunks left
  · rename_i hd _
    cases h
    exact hdel hs hd
  · rename_i hd _
    exact MetaStore.scaleNodeNumber_preserves P hadd hdown (hdel hs hd) h
  · rename_i hd
    exact MetaStore.scaleNodeNumber_preserves P hadd hdown (hdel hs hd) h

theorem MetaStore.autoScaleOutNodeNumber_preserves
    (hmig : ∀ {t t' : MetaStore} {name : String} {r : Except MetaStoreError Unit},
      P t → MetaStoreMigrate.migrateSlots t name = some (t', r) → P t')
    {clusterName : String} {expectedNum : Nat} {res : Except MetaStoreError Unit} (hs : P s)
    (h : MetaStore.autoScaleOutNodeNumber s clusterName expectedNum = some (s', res)) : P s' := by
  unfold MetaStore.autoScaleOutNodeNumber at h
  repeat' split at h
  all_goals first
    | (cases h; exact hs)
    | exact hmig hs h

end Composite

end Undermoon
