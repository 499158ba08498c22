import Undermoon.Proofs.Fresh
import Undermoon.Proofs.Ownership

/-!
# A scale-down that moves slots twice

`remove_slots_from_src_to_scale_down` gives destination master `i` the
`need_num = dst_final_num - curr_slots_num - dst_existing` slots it lacks,
and closes its task as soon as `curr_slots_num + dst_existing` reaches the
target. A master that already holds its target has `need_num = 0`; the cut
`Range(start, remove_num + start - 1)` is then `Range(start, start - 1)`,
the task is closed at once, and `RangeList::new` reads the inverted range as
the two slots `start - 1` and `start`.

That needs a destination that holds exactly its final share before the
scale-down, which the layout of `proxy_resource_to_chunk_store` gives first
for 92 chunks scaled down to 91: the 184 masters hold 90 or 89 slots, the
182 that stay end with 91 or 90, so masters 4 to 7 already hold their 90.
Master 182 gives its first four slots to masters 0 to 3; masters 4 to 7 then
each get the task `[16209, 16210]`, and master 8 gets slot 16210 again.

The store is reached by `run_orderedClusterRun`; the planner and the call
are run by the kernel on the cluster alone.
-/

namespace Undermoon

open MetaStoreMigrate MetaStoreUpdate

/-- The cluster of the runs below. -/
def scaleName : ClusterName := ⟨"c", rfl⟩

theorem tryFrom_scaleName : ClusterName.tryFrom "c" = some scaleName := rfl

/-- The cluster `add_cluster("c", 368)` makes over 184 proxies in ordered
mode: 92 chunks, masters `0` to `7` with 90 slots and the others with 89. -/
def bigCluster : ClusterStore :=
  ⟨UInt64.ofNat 184 + 1, scaleName,
    chunkStores (slotNum / 184) (slotNum - slotNum / 184 * 184) true 0 0 (pairOff (orderedProxies 184)),
    ClusterConfig.default⟩

/-- The store holding `bigCluster`, but for its proxy table. -/
def bigClusterStore : MetaStore := orderedClusterStore 184 scaleName ClusterConfig.default

theorem get?_bigClusterStore : bigClusterStore.clusters.get? scaleName = some bigCluster := by
  rw [bigClusterStore, orderedClusterStore]
  exact (OrdMap.get?_insert _ _ _ _).trans (if_pos rfl)

theorem reachable_bigClusterStore (toLowercase : String → String) :
    ∃ allProxies, Reachable (ServiceConfig.default toLowercase) true
      { bigClusterStore with allProxies } := by
  obtain ⟨allProxies, hrun⟩ := run_orderedClusterRun (ServiceConfig.default toLowercase) (n := 184)
    (by decide) (by decide) tryFrom_scaleName
  exact ⟨allProxies, Machine.reachable_of_run hrun⟩

/-- The kernel's run of `migrate_slots_to_scale_down("c", 364)` on
`bigClusterStore`: it succeeds, and slot 16209 then has five owners. -/
theorem migrateSlotsToScaleDown_bigClusterStore :
    (migrateSlotsToScaleDown bigClusterStore "c" 364).map (fun r => (r.2,
      (r.1.clusters.get? scaleName).map fun c =>
        (allOwnedRanges c.chunks).countP fun x => decide (x.contains 16209))) =
      some (.ok (), some 5) := by
  decide +kernel

/-- The kernel's run of the planner inside that call: the targets of the 182
masters that stay, what masters 4 to 7 hold already, the tasks they get, and
how many tasks move slots 16209 and 16210. -/
theorem removeSlotsFromSrcToScaleDown_bigCluster :
    (removeSlotsFromSrcToScaleDown bigCluster (bigClusterStore.globalEpoch + 1) 91).map (fun r =>
      (((r.2.filter fun t => 4 ≤ 2 * t.taskMeta.dstChunkIndex + t.taskMeta.dstChunkPart ∧
          2 * t.taskMeta.dstChunkIndex + t.taskMeta.dstChunkPart < 8).map MigrationSlots.ranges),
        r.2.countP (fun t => decide (t.ranges.contains 16209)),
        r.2.countP (fun t => decide (t.ranges.contains 16210)))) =
      some (List.replicate 4 ⟨[⟨16209, 16210⟩]⟩, 5, 5) := by
  decide +kernel

theorem dstExistingSlotsNum_bigCluster :
    ((dstExistingSlotsNum bigCluster.chunks 91).drop 4).take 4 = [90, 90, 90, 90] := by
  decide +kernel

/-- `migrate_slots_to_scale_down("c", 364)` succeeds on a reachable store,
and its plan gives each of masters 4 to 7, which already hold their target of
90 slots, a task moving slots 16209 and 16210: each of the two slots is moved
by five tasks. -/
theorem scaleDown_plans_task_without_need (toLowercase : String → String) :
    ∃ s, Reachable (ServiceConfig.default toLowercase) true s ∧
      ∃ c, s.clusters.get? scaleName = some c ∧
        (∃ s', migrateSlotsToScaleDown s "c" 364 = some (s', .ok ())) ∧
        ((dstExistingSlotsNum c.chunks 91).drop 4).take 4 = [90, 90, 90, 90] ∧
        slotNum / (91 * 2) = 90 ∧ slotNum - slotNum / (91 * 2) * (91 * 2) = 4 ∧
        ∃ chunks tasks, removeSlotsFromSrcToScaleDown c (s.globalEpoch + 1) 91 = some (chunks, tasks) ∧
          (tasks.filter fun t => 4 ≤ 2 * t.taskMeta.dstChunkIndex + t.taskMeta.dstChunkPart ∧
              2 * t.taskMeta.dstChunkIndex + t.taskMeta.dstChunkPart < 8).map MigrationSlots.ranges =
            List.replicate 4 ⟨[⟨16209, 16210⟩]⟩ ∧
          tasks.countP (fun t => decide (t.ranges.contains 16209)) = 5 ∧
          tasks.countP (fun t => decide (t.ranges.contains 16210)) = 5 := by
  obtain ⟨allProxies, hreach⟩ := reachable_bigClusterStore toLowercase
  refine ⟨{ bigClusterStore with allProxies }, hreach, bigCluster, get?_bigClusterStore, ?_,
    dstExistingSlotsNum_bigCluster, by decide, by decide, ?_⟩
  · -- the call succeeds whatever the proxy table
    obtain ⟨r, hr, hres⟩ := Option.map_eq_some_iff.mp migrateSlotsToScaleDown_bigClusterStore
    refine ⟨{ r.1 with allProxies }, ?_⟩
    rw [migrateSlotsToScaleDown_allProxies, hr, ← (Prod.mk.inj hres).1]
    rfl
  · obtain ⟨⟨chunks, tasks⟩, hplan, hfacts⟩ :=
      Option.map_eq_some_iff.mp removeSlotsFromSrcToScaleDown_bigCluster
    have hdst := Prod.mk.inj hfacts
    have hcounts := Prod.mk.inj hdst.2
    exact ⟨chunks, tasks, hplan, hdst.1, hcounts.1, hcounts.2⟩

/-- After `migrate_slots_to_scale_down("c", 364)` on a reachable store, slot
16209 is owned five times in the cluster, so the cluster breaks the
slot-ownership invariant. -/
theorem scaleDown_slot_owned_five_times (toLowercase : String → String) :
    ∃ s, Reachable (ServiceConfig.default toLowercase) true s ∧
      ∃ c, s.clusters.get? scaleName = some c ∧
        (allOwnedRanges c.chunks).countP (fun r => decide (r.contains 16209)) = 5 ∧
        ¬ c.SlotInvariant := by
  obtain ⟨allProxies, hreach⟩ := reachable_bigClusterStore toLowercase
  obtain ⟨r, hr, hres⟩ := Option.map_eq_some_iff.mp migrateSlotsToScaleDown_bigClusterStore
  have hstep : Op.apply (ServiceConfig.default toLowercase) (.migrateSlotsToScaleDown "c" 364)
      { bigClusterStore with allProxies } = some { r.1 with allProxies } := by
    show (migrateSlotsToScaleDown { bigClusterStore with allProxies } "c" 364).map (·.1) = _
    rw [migrateSlotsToScaleDown_allProxies, hr]
    rfl
  obtain ⟨c, hc, hcount⟩ := Option.map_eq_some_iff.mp (Prod.mk.inj hres).2
  refine ⟨{ r.1 with allProxies }, Machine.Reachable.step _ hreach hstep, c, hc, hcount,
    fun hinv => ?_⟩
  have honce := hinv.once 16209 (by decide)
  omega

end Undermoon
