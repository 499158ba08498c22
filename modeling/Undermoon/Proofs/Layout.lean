import Undermoon.Broker.Service

/-!
# Where the chunks run

A chunk's layout is what it says about where it runs: its two proxy
addresses, their hosts and its four node addresses. Most of the broker's
work leaves every layout alone: the two migration planners, the commit of a
task, the takeover of a failed master, the rebalancing of roles and a config
change only rewrite roles, stable slots, migration entries, epochs and
config; adding and reading failures and the two epoch resets touch no chunk
at all.

`MetaStore.SameLayout s s'` says that `s'` has the proxy table of `s` and
every cluster of `s` with its chunks in the same layout. Every property of
the store that reads only the proxy table and the layouts (the cross
references `check_metadata` checks, the proxy order of ordered mode) passes
from `s` to `s'` along it, so the calls above are dealt with once, here.
-/

namespace Undermoon

namespace ChunkStore

/-- The proxies, hosts and nodes of a chunk. -/
def layout (c : ChunkStore) : (Fin 2 → String) × (Fin 2 → String) × (Fin 4 → String) :=
  (c.proxyAddresses, c.hosts, c.nodeAddresses)

@[simp] theorem layout_updateStable (c : ChunkStore) (p : Fin 2) (f) :
    (c.updateStable p f).layout = c.layout := rfl

@[simp] theorem layout_updateMigrating (c : ChunkStore) (p : Fin 2) (f) :
    (c.updateMigrating p f).layout = c.layout := rfl

end ChunkStore

/-- The layouts of a cluster's chunks, in order. -/
def ClusterStore.layout (c : ClusterStore) : List ((Fin 2 → String) × (Fin 2 → String) × (Fin 4 → String)) :=
  c.chunks.map ChunkStore.layout

/-- `s'` has the proxy table of `s` and the same clusters, each with its
chunks in the same layout. -/
structure MetaStore.SameLayout (s s' : MetaStore) : Prop where
  allProxies : s'.allProxies = s.allProxies
  clusters : ∀ name, (s'.clusters.get? name).map ClusterStore.layout =
    (s.clusters.get? name).map ClusterStore.layout

namespace MetaStore.SameLayout

variable {s s' s'' : MetaStore}

theorem refl (s : MetaStore) : SameLayout s s := ⟨rfl, fun _ => rfl⟩

theorem trans (h : SameLayout s s') (h' : SameLayout s' s'') : SameLayout s s'' :=
  ⟨h'.allProxies.trans h.allProxies, fun name => (h'.clusters name).trans (h.clusters name)⟩

theorem bump (h : SameLayout s s') : SameLayout s s'.bumpGlobalEpoch.1 :=
  ⟨h.allProxies, h.clusters⟩

/-- Any change of the epochs and failure records alone. -/
theorem of_eq (hp : s'.allProxies = s.allProxies) (hc : s'.clusters = s.clusters) :
    SameLayout s s' :=
  ⟨hp, fun name => by rw [hc]⟩

/-- Cluster `name` rewritten in place with chunks of the same layout. -/
theorem replace {name : ClusterName} {c c' : ClusterStore} (hget : s.clusters.get? name = some c)
    (hl : c'.layout = c.layout) : SameLayout s { s with clusters := s.clusters.replace name c' } := by
  refine ⟨rfl, fun name' => ?_⟩
  show (OrdMap.get? (s.clusters.replace name c') name').map _ = _
  rw [OrdMap.get?_replace _ _ _ _ (OrdMap.mem_of_get?_eq_some hget)]
  by_cases hn : name' = name
  · rw [if_pos hn, hn, hget]
    exact congrArg some hl
  · rw [if_neg hn]

end MetaStore.SameLayout

/-! ## Chunk edits that keep the layout -/

/-- One chunk replaced by a chunk of the same layout. -/
theorem map_set_layout {chunks : List ChunkStore} {i : Nat} {c c' : ChunkStore}
    (hc : chunks[i]? = some c) (hl : c'.layout = c.layout) :
    (chunks.set i c').map ChunkStore.layout = chunks.map ChunkStore.layout := by
  obtain ⟨hi, hget⟩ := List.getElem?_eq_some_iff.mp hc
  have hi' : i < (chunks.map ChunkStore.layout).length := by rw [List.length_map]; exact hi
  have hl' : (chunks.map ChunkStore.layout)[i] = c.layout := by
    rw [List.getElem_map, hget]
  rw [List.map_set, hl, ← hl', List.set_getElem_self]

theorem updateChunk?_layout {chunks chunks' : List ChunkStore} {i : Nat}
    {f : ChunkStore → Option ChunkStore} (hf : ∀ c c', f c = some c' → c'.layout = c.layout)
    (h : updateChunk? chunks i f = some chunks') :
    chunks'.map ChunkStore.layout = chunks.map ChunkStore.layout := by
  unfold updateChunk? at h
  split at h
  · next c hc =>
      obtain ⟨c', hfc, rfl⟩ := Option.map_eq_some_iff.mp h
      exact map_set_layout hc (hf c c' hfc)
  · cases h

namespace MetaStoreMigrate

theorem planChunk_layout {loop : Nat → Nat → PlanState → RangeList → Option (PlanState × RangeList)}
    {clear : Bool} {i : Nat} {st st' : PlanState} {chunk chunk' : ChunkStore}
    (h : planChunk loop clear i st chunk = some (st', chunk')) : chunk'.layout = chunk.layout := by
  unfold planChunk at h
  simp only [Option.bind_eq_bind, Option.bind_eq_some_iff, Option.pure_def, Option.some.injEq] at h
  obtain ⟨_, _, _, _, h⟩ := h
  rw [← (Prod.mk.inj h).2]
  rfl

theorem planChunks_layout {loop : Nat → Nat → PlanState → RangeList → Option (PlanState × RangeList)}
    {clear : Bool} {first : Nat} :
    ∀ {i : Nat} {st st' : PlanState} {chunks chunks' : List ChunkStore},
      planChunks loop clear first i st chunks = some (st', chunks') →
      chunks'.map ChunkStore.layout = chunks.map ChunkStore.layout
  | _, _, _, [], _, h => by
      cases h
      rfl
  | i, st, _, chunk :: rest, _, h => by
      unfold planChunks at h
      simp only [Option.bind_eq_bind, Option.pure_def] at h
      -- the head is either skipped or planned
      split at h
      · simp only [Option.bind_some] at h
        obtain ⟨⟨st₂, rest₂⟩, hrest, h⟩ := Option.bind_eq_some_iff.mp h
        cases h
        rw [List.map_cons, List.map_cons, planChunks_layout hrest]
      · obtain ⟨⟨st₁, chunk₁⟩, h₁, h⟩ := Option.bind_eq_some_iff.mp h
        obtain ⟨⟨st₂, rest₂⟩, hrest, h⟩ := Option.bind_eq_some_iff.mp h
        cases h
        rw [List.map_cons, List.map_cons, planChunks_layout hrest, planChunk_layout h₁]

theorem removeSlotsFromSrc_layout {c : ClusterStore} {epoch : UInt64}
    {chunks : List ChunkStore} {ms : List MigrationSlots}
    (h : removeSlotsFromSrc c epoch = some (chunks, ms)) :
    chunks.map ChunkStore.layout = c.chunks.map ChunkStore.layout := by
  unfold removeSlotsFromSrc at h
  dsimp only at h
  split at h
  · cases h
  · obtain ⟨⟨st, chunks'⟩, hplan, hres⟩ := Option.map_eq_some_iff.mp h
    cases hres
    exact planChunks_layout hplan

theorem removeSlotsFromSrcToScaleDown_layout {c : ClusterStore} {epoch : UInt64} {n : Nat}
    {chunks : List ChunkStore} {ms : List MigrationSlots}
    (h : removeSlotsFromSrcToScaleDown c epoch n = some (chunks, ms)) :
    chunks.map ChunkStore.layout = c.chunks.map ChunkStore.layout := by
  unfold removeSlotsFromSrcToScaleDown at h
  dsimp only at h
  split at h
  · cases h
  · obtain ⟨⟨st, chunks'⟩, hplan, hres⟩ := Option.map_eq_some_iff.mp h
    cases hres
    exact planChunks_layout hplan

@[simp] theorem compactSlots_layout (chunks : List ChunkStore) :
    (compactSlots chunks).map ChunkStore.layout = chunks.map ChunkStore.layout := by
  unfold compactSlots
  rw [List.map_map]
  rfl

theorem assignTask_layout {chunks chunks' : List ChunkStore} {ms : MigrationSlots}
    (h : assignTask chunks ms = some chunks') :
    chunks'.map ChunkStore.layout = chunks.map ChunkStore.layout := by
  unfold assignTask at h
  simp only [Option.bind_eq_bind, Option.bind_eq_some_iff] at h
  obtain ⟨_, _, chunks₁, h₁, _, _, h₂⟩ := h
  have hkeep : ∀ (p : Fin 2) (e : MigrationSlotRangeStore) (c c' : ChunkStore),
      some (c.updateMigrating p (· ++ [e])) = some c' → c'.layout = c.layout := by
    intro p e c c' hc
    cases hc
    rfl
  rw [updateChunk?_layout (hkeep _ _) h₂, updateChunk?_layout (hkeep _ _) h₁]

theorem assignDstSlots_layout {chunks chunks' : List ChunkStore} {ms : List MigrationSlots}
    (h : assignDstSlots chunks ms = some chunks') :
    chunks'.map ChunkStore.layout = chunks.map ChunkStore.layout := by
  unfold assignDstSlots at h
  obtain ⟨chunks₁, hfold, rfl⟩ := Option.map_eq_some_iff.mp h
  clear h
  rw [compactSlots_layout]
  -- one task at a time
  induction ms generalizing chunks with
  | nil => cases hfold; rfl
  | cons m ms ih =>
      simp only [List.foldlM_cons, Option.bind_eq_bind, Option.bind_eq_some_iff] at hfold
      obtain ⟨chunks₂, h₂, hrest⟩ := hfold
      rw [ih hrest, assignTask_layout h₂]

theorem settleImporting_layout (tm : MigrationMetaStore) (rl : RangeList) :
    ∀ chunks : List ChunkStore,
      (settleImporting tm rl chunks).map ChunkStore.layout = chunks.map ChunkStore.layout
  | [] => rfl
  | chunk :: rest => by
      unfold settleImporting
      split
      · rw [List.map_cons, List.map_cons, settleImporting_layout tm rl rest]
      · rfl

/-- The chunks of a commit: the task's migrating entries filtered out, its
importing entry settled, everything compacted. -/
theorem commitChunks_layout (tm : MigrationMetaStore) (rl : RangeList) (chunks : List ChunkStore) :
    (compactSlots (settleImporting tm rl (chunks.map fun chunk => { chunk with
      migratingSlots := fun p => (chunk.migratingSlots p).filter fun e =>
        !(e.isMigrating && e.rangeList == rl && e.taskMeta == tm) }))).map ChunkStore.layout =
      chunks.map ChunkStore.layout := by
  rw [compactSlots_layout, settleImporting_layout, List.map_map]
  rfl

end MetaStoreMigrate

theorem MetaStoreUpdate.takeoverChunks_layout {e : UInt64} {a : String}
    {chunks chunks' : List ChunkStore} (h : MetaStoreUpdate.takeoverChunks e a chunks = some chunks') :
    chunks'.map ChunkStore.layout = chunks.map ChunkStore.layout := by
  unfold MetaStoreUpdate.takeoverChunks at h
  split at h
  · cases h; rfl
  · next _ i p _ =>
      split at h
      · cases h; rfl
      · next _ chunk hchunk =>
          split at h
          · cases h
          · cases h
            -- stamping epochs keeps every layout, and the taken-over chunk keeps its own
            rw [List.map_map]
            exact map_set_layout hchunk rfl

/-! ## The calls that keep every layout -/

namespace MetaStoreMigrate

theorem migrateSlots_sameLayout {s s' : MetaStore} {clusterName : String}
    {r : Except MetaStoreError Unit} (h : migrateSlots s clusterName = some (s', r)) :
    s.SameLayout s' := by
  unfold migrateSlots at h
  dsimp only at h
  split at h
  · cases h; exact .refl s
  · split at h
    · cases h; exact (MetaStore.SameLayout.refl s).bump
    · next c hget =>
        split at h
        · cases h; exact (MetaStore.SameLayout.refl s).bump
        · split at h
          · cases h; exact (MetaStore.SameLayout.refl s).bump
          · simp only [Option.bind_eq_bind, Option.bind_eq_some_iff, Option.pure_def,
              Option.some.injEq] at h
            obtain ⟨⟨chunks₁, ms⟩, hplan, chunks₂, hassign, _, _, h⟩ := h
            cases h
            exact (MetaStore.SameLayout.refl s).bump.trans (.replace hget
              (by rw [ClusterStore.layout, assignDstSlots_layout hassign,
                removeSlotsFromSrc_layout hplan]; rfl))

theorem migrateSlotsToScaleDown_sameLayout {s s' : MetaStore} {clusterName : String} {n : Nat}
    {r : Except MetaStoreError Unit} (h : migrateSlotsToScaleDown s clusterName n = some (s', r)) :
    s.SameLayout s' := by
  unfold migrateSlotsToScaleDown at h
  dsimp only at h
  split at h
  · cases h; exact .refl s
  · split at h
    · cases h; exact (MetaStore.SameLayout.refl s).bump
    · next c hget =>
        split at h
        · cases h; exact (MetaStore.SameLayout.refl s).bump
        · split at h
          · cases h; exact (MetaStore.SameLayout.refl s).bump
          · split at h
            · cases h; exact (MetaStore.SameLayout.refl s).bump
            · simp only [Option.bind_eq_bind, Option.bind_eq_some_iff, Option.pure_def,
                Option.some.injEq] at h
              obtain ⟨⟨chunks₁, ms⟩, hplan, chunks₂, hassign, _, _, h⟩ := h
              cases h
              exact (MetaStore.SameLayout.refl s).bump.trans (.replace hget
                (by rw [ClusterStore.layout, assignDstSlots_layout hassign,
                  removeSlotsFromSrcToScaleDown_layout hplan]; rfl))

theorem commitMigration_sameLayout {s s' : MetaStore} {task : MigrationTaskMeta}
    {r : Except MetaStoreError Unit} (h : commitMigration s task = (s', r)) : s.SameLayout s' := by
  unfold commitMigration at h
  dsimp only at h
  split at h
  · cases h; exact .refl s
  · next c hget =>
      split at h
      · cases h; exact .refl s
      · split at h
        · cases h
          exact (MetaStore.SameLayout.replace hget
            (by unfold ClusterStore.layout; exact commitChunks_layout _ _ _)).bump
        · cases h; exact .refl s

end MetaStoreMigrate

namespace MetaStoreUpdate

theorem balanceMasters_sameLayout {s s' : MetaStore} {clusterName : String}
    {r : Except MetaStoreError Unit} (h : balanceMasters s clusterName = (s', r)) :
    s.SameLayout s' := by
  unfold balanceMasters at h
  dsimp only at h
  split at h
  · cases h; exact .refl s
  · split at h
    · cases h; exact .refl s
    · next c hget =>
        cases h
        refine (MetaStore.SameLayout.replace hget ?_).bump
        rw [ClusterStore.layout, ClusterStore.layout, List.map_map]
        congr 1
        funext chunk
        simp only [Function.comp_apply]
        split <;> rfl

theorem changeConfig_sameLayout {toLowercase : String → String} {s s' : MetaStore}
    {clusterName : String} {config : List (String × String)} {r : Except MetaStoreError Unit}
    (h : changeConfig toLowercase s clusterName config = (s', r)) : s.SameLayout s' := by
  unfold changeConfig at h
  dsimp only at h
  split at h
  · cases h; exact .refl s
  · split at h
    · cases h; exact .refl s
    · next c hget =>
        split at h
        · cases h; exact .refl s
        · split at h
          · cases h; exact .refl s
          · cases h
            exact (MetaStore.SameLayout.replace hget (by rfl)).bump

theorem takeoverMaster_sameLayout {s s' : MetaStore} {name : ClusterName} {a : String}
    {r : Except MetaStoreError Unit} (h : takeoverMaster s name a = (s', r)) : s.SameLayout s' := by
  unfold takeoverMaster at h
  dsimp only at h
  split at h
  · cases h; exact (MetaStore.SameLayout.refl s).bump
  · next c hget =>
      split at h
      · cases h; exact (MetaStore.SameLayout.refl s).bump
      · next chunks hchunks =>
          cases h
          exact (MetaStore.SameLayout.refl s).bump.trans
            (.replace hget (by rw [ClusterStore.layout, ClusterStore.layout,
              takeoverChunks_layout hchunks]))

theorem addFailure_sameLayout (s : MetaStore) (address reporterId : String) (now : Int) :
    s.SameLayout (addFailure s address reporterId now).1 := by
  unfold addFailure
  dsimp only
  split
  · exact .refl s
  · exact ⟨rfl, fun _ => rfl⟩

theorem getFailures_sameLayout (s : MetaStore) (now failureTtl : Int) (failureQuorum : UInt64) :
    s.SameLayout (getFailures s now failureTtl failureQuorum).1 :=
  ⟨rfl, fun _ => rfl⟩

end MetaStoreUpdate

theorem MetaStore.setAllClusterEpochs_sameLayout (s : MetaStore) (e : UInt64) :
    s.SameLayout (s.setAllClusterEpochs e) := by
  refine ⟨rfl, fun name => ?_⟩
  unfold MetaStore.setAllClusterEpochs
  rw [OrdMap.get?_mapValues, Option.map_map]
  rfl

theorem MetaStore.forceBumpAllEpoch_sameLayout (s : MetaStore) (e : UInt64) :
    s.SameLayout (s.forceBumpAllEpoch e).1 := by
  unfold MetaStore.forceBumpAllEpoch
  split
  · exact .refl s
  · have h₁ : s.SameLayout { s with globalEpoch := e } := .of_eq rfl rfl
    exact h₁.trans (MetaStore.setAllClusterEpochs_sameLayout _ e)

theorem MetaStore.recoverEpoch_sameLayout (s : MetaStore) (e : UInt64) :
    s.SameLayout (s.recoverEpoch e) := by
  have h₁ : s.SameLayout { s with globalEpoch := max e (s.globalEpoch + 1) } := .of_eq rfl rfl
  exact h₁.trans (MetaStore.setAllClusterEpochs_sameLayout _ _)

end Undermoon
