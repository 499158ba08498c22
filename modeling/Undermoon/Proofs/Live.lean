import Undermoon.Proofs.Planner
import Undermoon.Proofs.Layout
import Undermoon.Lib.Front

/-!
# Which chunks hold slots

A chunk is live when it serves slots or is about to: a part has stable
slots, or the chunk holds an importing entry. `auto_delete_free_nodes`
removes the chunks that are not live (on a cluster that is not migrating
these are its free chunks), and the scale-out planner fills the chunks
without stable slots, taken to be the last ones. Both are right only while
the live chunks of a cluster come first, which is what this module proves
every call keeps (`List.FrontLoaded ChunkStore.isLive`).

Most calls keep the liveness of every chunk (`MetaStore.SameLiveness`); a
commit moves an importing entry into the stable slots of the same chunk. The
two planners change it: scaling out keeps every source live and makes live
the destination chunks that get a task, which are the first ones
(`PlanState.Dests`); scaling down clears every chunk past the new size, and
only chunks before it get a task.
-/

namespace Undermoon

namespace ChunkStore

/-- Some part of the chunk has stable slots. -/
def hasStable (c : ChunkStore) : Bool := (c.stableSlots 0).isSome || (c.stableSlots 1).isSome

/-- Some part of the chunk imports slots. -/
def isImporting (c : ChunkStore) : Bool :=
  (c.migratingSlots 0).any (!·.isMigrating) || (c.migratingSlots 1).any (!·.isMigrating)

/-- The chunk serves slots or is receiving some. -/
def isLive (c : ChunkStore) : Bool := c.hasStable || c.isImporting

variable {c : ChunkStore}

theorem isImporting_of_hasMigration (h : c.hasMigration = false) : c.isImporting = false := by
  unfold hasMigration at h
  simp only [Bool.or_eq_false_iff, Bool.not_eq_false', List.isEmpty_iff] at h
  unfold isImporting
  rw [h.1, h.2]
  rfl

/-- Without migration entries a chunk is live when it has stable slots. -/
theorem isLive_of_hasMigration (h : c.hasMigration = false) : c.isLive = c.hasStable := by
  rw [isLive, isImporting_of_hasMigration h, Bool.or_false]

/-- Without migration entries a chunk is free when it has no stable slots. -/
theorem isFree_of_hasMigration (h : c.hasMigration = false) : c.isFree = !c.hasStable := by
  unfold hasMigration at h
  simp only [Bool.or_eq_false_iff, Bool.not_eq_false'] at h
  unfold isFree hasStable
  rw [h.1, h.2]
  cases (c.stableSlots 0) <;> cases (c.stableSlots 1) <;> rfl

@[simp] theorem updateStable_isImporting (p : Fin 2) (f) :
    (c.updateStable p f).isImporting = c.isImporting := rfl

@[simp] theorem updateMigrating_hasStable (p : Fin 2) (f) :
    (c.updateMigrating p f).hasStable = c.hasStable := rfl

/-- A stored entry makes the chunk importing when it is the importing side. -/
theorem updateMigrating_append_isImporting (p : Fin 2) (e : MigrationSlotRangeStore) :
    (c.updateMigrating p (· ++ [e])).isImporting = (c.isImporting || !e.isMigrating) := by
  unfold isImporting updateMigrating
  fin_cases p <;> simp [List.any_append] <;> cases e.isMigrating <;> simp

/-- Stable slots written into a part make the chunk have some. -/
theorem updateStable_hasStable {p : Fin 2} {f : Option SlotRange → Option SlotRange}
    (hf : (f (c.stableSlots p)).isSome) : (c.updateStable p f).hasStable = true := by
  unfold hasStable
  fin_cases p
  · simp only [Fin.zero_eta, Fin.isValue, updateStable_stableSlots_self] at hf ⊢
    rw [hf, Bool.true_or]
  · simp only [Fin.mk_one, Fin.isValue, updateStable_stableSlots_self] at hf ⊢
    rw [hf, Bool.or_true]

end ChunkStore

theorem ClusterStore.hasMigration_of_isMigrating {c : ClusterStore} (h : c.isMigrating = false) :
    ∀ chunk ∈ c.chunks, chunk.hasMigration = false := fun chunk hc =>
  Bool.eq_false_iff.mpr (List.any_eq_false.mp h chunk hc)

/-! ## Positions under an edit

The chunk edits of the planners and of `assign_dst_slots` rewrite chunks in
place; what they keep is stated position by position. -/

theorem updateChunk?_eq_some {chunks chunks' : List ChunkStore} {i : Nat}
    {f : ChunkStore → Option ChunkStore} (h : updateChunk? chunks i f = some chunks') :
    ∃ c c', chunks[i]? = some c ∧ f c = some c' ∧ chunks' = chunks.set i c' := by
  unfold updateChunk? at h
  split at h
  · next c hc =>
      obtain ⟨c', hfc, rfl⟩ := Option.map_eq_some_iff.mp h
      exact ⟨c, c', hc, hfc, rfl⟩
  · cases h

namespace MetaStoreMigrate

theorem compactSlots_length (chunks : List ChunkStore) :
    (compactSlots chunks).length = chunks.length := List.length_map _

theorem compactSlots_getElem {chunks : List ChunkStore} {j : Nat}
    (hj : j < (compactSlots chunks).length) (hj' : j < chunks.length) :
    (compactSlots chunks)[j].hasStable = chunks[j].hasStable ∧
      (compactSlots chunks)[j].isImporting = chunks[j].isImporting := by
  constructor
  · simp [compactSlots, ChunkStore.hasStable]
  · simp [compactSlots, ChunkStore.isImporting, Function.comp_def]

/-- One stored task: the stable slots stay, and its destination chunk
imports. -/
theorem assignTask_spec {chunks chunks' : List ChunkStore} {ms : MigrationSlots}
    (h : assignTask chunks ms = some chunks') :
    chunks'.length = chunks.length ∧ ∀ j (hj : j < chunks'.length) (hj' : j < chunks.length),
      chunks'[j].hasStable = chunks[j].hasStable ∧
        chunks'[j].isImporting = (chunks[j].isImporting || j == ms.taskMeta.dstChunkIndex) := by
  unfold assignTask at h
  simp only [Option.bind_eq_bind, Option.bind_eq_some_iff] at h
  obtain ⟨sp, -, chunks₁, h₁, dp, -, h₂⟩ := h
  obtain ⟨c₁, c₁', hc₁, hf₁, rfl⟩ := updateChunk?_eq_some h₁
  obtain ⟨c₂, c₂', hc₂, hf₂, rfl⟩ := updateChunk?_eq_some h₂
  cases hf₁
  cases hf₂
  refine ⟨by rw [List.length_set, List.length_set], fun j hj hj' => ?_⟩
  rw [List.getElem_set, List.getElem_set]
  -- the migrating side leaves the source as importing as it was
  have h₁ : ∀ (k : Nat) (hk : k < chunks.length),
      (if ms.taskMeta.srcChunkIndex = k then c₁.updateMigrating sp (· ++ [⟨ms.ranges, true, ms.taskMeta⟩])
        else chunks[k]).isImporting = chunks[k].isImporting ∧
      (if ms.taskMeta.srcChunkIndex = k then c₁.updateMigrating sp (· ++ [⟨ms.ranges, true, ms.taskMeta⟩])
        else chunks[k]).hasStable = chunks[k].hasStable := by
    intro k hk
    split
    · next hk' =>
        subst hk'
        have hc : chunks[ms.taskMeta.srcChunkIndex] = c₁ := (List.getElem?_eq_some_iff.mp hc₁).2
        rw [ChunkStore.updateMigrating_append_isImporting, ChunkStore.updateMigrating_hasStable, hc]
        exact ⟨Bool.or_false _, rfl⟩
    · exact ⟨rfl, rfl⟩
  have hc₂' : ∀ (hk : ms.taskMeta.dstChunkIndex < chunks.length),
      c₂ = if ms.taskMeta.srcChunkIndex = ms.taskMeta.dstChunkIndex then
        c₁.updateMigrating sp (· ++ [⟨ms.ranges, true, ms.taskMeta⟩]) else chunks[ms.taskMeta.dstChunkIndex] := by
    intro hk
    have := (List.getElem?_eq_some_iff.mp hc₂).2
    rw [List.getElem_set] at this
    exact this.symm
  split
  · next hd =>
      subst hd
      rw [ChunkStore.updateMigrating_append_isImporting, ChunkStore.updateMigrating_hasStable,
        hc₂' hj', (h₁ _ hj').1, (h₁ _ hj').2]
      simp
  · next hd =>
      rw [(h₁ j hj').1, (h₁ j hj').2]
      have : (j == ms.taskMeta.dstChunkIndex) = false := by
        simp only [beq_eq_false_iff_ne]
        exact fun h => hd h.symm
      rw [this, Bool.or_false]
      exact ⟨rfl, rfl⟩

/-- All tasks stored: the stable slots stay, and every destination chunk
imports. -/
theorem assignTasks_spec :
    ∀ {ms : List MigrationSlots} {chunks chunks' : List ChunkStore},
      ms.foldlM assignTask chunks = some chunks' →
      chunks'.length = chunks.length ∧ ∀ j (hj : j < chunks'.length) (hj' : j < chunks.length),
        chunks'[j].hasStable = chunks[j].hasStable ∧
          chunks'[j].isImporting =
            (chunks[j].isImporting || ms.any fun t => j == t.taskMeta.dstChunkIndex)
  | [], chunks, chunks', h => by
      cases h
      exact ⟨rfl, fun j _ _ => ⟨rfl, by simp⟩⟩
  | t :: ms, chunks, chunks', h => by
      simp only [List.foldlM_cons, Option.bind_eq_bind, Option.bind_eq_some_iff] at h
      obtain ⟨chunks₁, h₁, hrest⟩ := h
      obtain ⟨hl₁, hs₁⟩ := assignTask_spec h₁
      obtain ⟨hl, hs⟩ := assignTasks_spec hrest
      refine ⟨hl.trans hl₁, fun j hj hj' => ?_⟩
      have hj₁ : j < chunks₁.length := by omega
      obtain ⟨hst, himp⟩ := hs j hj hj₁
      obtain ⟨hst₁, himp₁⟩ := hs₁ j hj₁ hj'
      refine ⟨hst.trans hst₁, ?_⟩
      rw [himp, himp₁, List.any_cons, Bool.or_assoc]

theorem assignDstSlots_spec {chunks chunks' : List ChunkStore} {ms : List MigrationSlots}
    (h : assignDstSlots chunks ms = some chunks') :
    chunks'.length = chunks.length ∧ ∀ j (hj : j < chunks'.length) (hj' : j < chunks.length),
      chunks'[j].hasStable = chunks[j].hasStable ∧
        chunks'[j].isImporting =
          (chunks[j].isImporting || ms.any fun t => j == t.taskMeta.dstChunkIndex) := by
  unfold assignDstSlots at h
  obtain ⟨chunks₁, hfold, rfl⟩ := Option.map_eq_some_iff.mp h
  obtain ⟨hl, hs⟩ := assignTasks_spec hfold
  refine ⟨(compactSlots_length _).trans hl, fun j hj hj' => ?_⟩
  have hj₁ : j < chunks₁.length := by rw [compactSlots_length] at hj; exact hj
  obtain ⟨hst, himp⟩ := compactSlots_getElem hj hj₁
  obtain ⟨hst₁, himp₁⟩ := hs j hj₁ hj'
  exact ⟨hst.trans hst₁, himp.trans himp₁⟩

/-! ## What the planners leave of the stable slots -/

theorem planPart_isSome {loop : PlanState → RangeList → Option (PlanState × RangeList)}
    {st st' : PlanState} {sr sr' : Option SlotRange} (h : planPart loop st sr = some (st', sr')) :
    sr'.isSome = sr.isSome := by
  cases sr with
  | none =>
      cases h
      rfl
  | some sr =>
      obtain ⟨⟨st₁, rl₁⟩, -, h⟩ := Option.map_eq_some_iff.mp h
      cases h
      rfl

/-- A planned chunk keeps its entries, and a part keeps stable slots unless
the planner clears them. -/
theorem planChunk_spec {loop : Nat → Nat → PlanState → RangeList → Option (PlanState × RangeList)}
    {clear : Bool} {i : Nat} {st st' : PlanState} {chunk chunk' : ChunkStore}
    (h : planChunk loop clear i st chunk = some (st', chunk')) :
    chunk'.migratingSlots = chunk.migratingSlots ∧
      ∀ p, (chunk'.stableSlots p).isSome = (!clear && (chunk.stableSlots p).isSome) := by
  unfold planChunk at h
  simp only [Option.bind_eq_bind, Option.bind_eq_some_iff, Option.pure_def,
    Option.some.injEq] at h
  obtain ⟨⟨st₁, s0⟩, h₀, ⟨st₂, s1⟩, h₁, h⟩ := h
  cases h
  refine ⟨rfl, fun p => ?_⟩
  cases clear with
  | true => simp
  | false =>
      fin_cases p
      · simpa using planPart_isSome h₀
      · simpa using planPart_isSome h₁

/-- The outer loop: chunks before `first` stay as they are. -/
theorem planChunks_spec {loop : Nat → Nat → PlanState → RangeList → Option (PlanState × RangeList)}
    {clear : Bool} {first : Nat} :
    ∀ {i : Nat} {st st' : PlanState} {chunks chunks' : List ChunkStore},
      planChunks loop clear first i st chunks = some (st', chunks') →
      chunks'.length = chunks.length ∧ ∀ j (hj : j < chunks'.length) (hj' : j < chunks.length),
        chunks'[j].isImporting = chunks[j].isImporting ∧
          chunks'[j].hasStable = ((decide (i + j < first) || !clear) && chunks[j].hasStable)
  | _, _, _, [], _, h => by
      cases h
      exact ⟨rfl, fun _ hj => absurd hj (Nat.not_lt_zero _)⟩
  | i, st, _, chunk :: rest, _, h => by
      unfold planChunks at h
      simp only [Option.bind_eq_bind, Option.pure_def] at h
      split at h
      · next hi =>
          simp only [Option.bind_some] at h
          obtain ⟨⟨st₂, rest₂⟩, hrest, h⟩ := Option.bind_eq_some_iff.mp h
          cases h
          obtain ⟨hl, hs⟩ := planChunks_spec hrest
          refine ⟨by simp [hl], fun j hj hj' => ?_⟩
          cases j with
          | zero => simp [hi]
          | succ j =>
              simp only [List.getElem_cons_succ]
              rw [(hs j (by simpa using hj) (by simpa using hj')).1,
                (hs j (by simpa using hj) (by simpa using hj')).2]
              exact ⟨rfl, by rw [Nat.add_assoc, Nat.add_comm 1 j]⟩
      · next hi =>
          obtain ⟨⟨st₁, chunk₁⟩, h₁, h⟩ := Option.bind_eq_some_iff.mp h
          obtain ⟨⟨st₂, rest₂⟩, hrest, h⟩ := Option.bind_eq_some_iff.mp h
          cases h
          obtain ⟨hl, hs⟩ := planChunks_spec hrest
          obtain ⟨hmig, hst⟩ := planChunk_spec h₁
          refine ⟨by simp [hl], fun j hj hj' => ?_⟩
          cases j with
          | zero =>
              simp only [List.getElem_cons_zero, Nat.add_zero, hi, decide_false, Bool.false_or]
              refine ⟨by rw [ChunkStore.isImporting, ChunkStore.isImporting, hmig], ?_⟩
              rw [ChunkStore.hasStable, ChunkStore.hasStable, hst 0, hst 1]
              cases clear <;> simp
          | succ j =>
              simp only [List.getElem_cons_succ]
              rw [(hs j (by simpa using hj) (by simpa using hj')).1,
                (hs j (by simpa using hj) (by simpa using hj')).2]
              exact ⟨rfl, by rw [Nat.add_assoc, Nat.add_comm 1 j]⟩

/-! ## A commit keeps every chunk's liveness

The migrating entry goes, and the importing entry turns into stable slots of
the chunk that held it. -/

/-- A filter that keeps every importing entry keeps the chunk importing. -/
theorem any_filter_importing {f : MigrationSlotRangeStore → Bool}
    (hf : ∀ e, e.isMigrating = false → f e = true) :
    ∀ l : List MigrationSlotRangeStore, (l.filter f).any (!·.isMigrating) = l.any (!·.isMigrating)
  | [] => rfl
  | e :: l => by
      cases he : e.isMigrating with
      | false => simp [hf e he, he]
      | true =>
          rw [List.filter_cons]
          split <;> simp [he, any_filter_importing hf l]

theorem importingPosition_isImporting {tm : MigrationMetaStore} {rl : RangeList}
    {chunk : ChunkStore} {j : Fin 2} {k : Nat} (h : importingPosition tm rl chunk = some (j, k)) :
    chunk.isImporting = true := by
  unfold importingPosition at h
  obtain ⟨j', -, hj'⟩ := List.exists_of_findSome?_eq_some h
  obtain ⟨k', hk', -⟩ := Option.map_eq_some_iff.mp hj'
  obtain ⟨hlt, hp, -⟩ := List.findIdx?_eq_some_iff_getElem.mp hk'
  simp only [Bool.and_eq_true] at hp
  have hany : (chunk.migratingSlots j').any (!·.isMigrating) = true :=
    List.any_eq_true.mpr ⟨_, List.getElem_mem hlt, hp.1.1⟩
  unfold ChunkStore.isImporting
  fin_cases j'
  · rw [show ((⟨0, by decide⟩ : Fin 2)) = 0 from rfl] at hany
    rw [hany, Bool.true_or]
  · rw [show ((⟨1, by decide⟩ : Fin 2)) = 1 from rfl] at hany
    rw [hany, Bool.or_true]

theorem settleImporting_isLive (tm : MigrationMetaStore) (rl : RangeList) :
    ∀ chunks : List ChunkStore,
      (settleImporting tm rl chunks).map ChunkStore.isLive = chunks.map ChunkStore.isLive
  | [] => rfl
  | chunk :: rest => by
      unfold settleImporting
      split
      · rw [List.map_cons, List.map_cons, settleImporting_isLive tm rl rest]
      · next j k hpos =>
          -- both the chunk found and what it becomes are live
          rw [List.map_cons, List.map_cons, ChunkStore.isLive, ChunkStore.updateStable_hasStable,
            ChunkStore.isLive, importingPosition_isImporting hpos, Bool.true_or, Bool.or_true]
          split <;> rfl

theorem compactSlots_isLive (chunks : List ChunkStore) :
    (compactSlots chunks).map ChunkStore.isLive = chunks.map ChunkStore.isLive :=
  List.ext_getElem (by simp [compactSlots_length]) fun j hj hj' => by
    have hj₁ : j < (compactSlots chunks).length := by simpa using hj
    have hj₂ : j < chunks.length := by simpa using hj'
    obtain ⟨hst, himp⟩ := compactSlots_getElem hj₁ hj₂
    simp only [List.getElem_map, ChunkStore.isLive, hst, himp]

/-- The chunks of a commit, as in `commitChunks_layout`. -/
theorem commitChunks_isLive (tm : MigrationMetaStore) (rl : RangeList) (chunks : List ChunkStore) :
    (compactSlots (settleImporting tm rl (chunks.map fun chunk => { chunk with
      migratingSlots := fun p => (chunk.migratingSlots p).filter fun e =>
        !(e.isMigrating && e.rangeList == rl && e.taskMeta == tm) }))).map ChunkStore.isLive =
      chunks.map ChunkStore.isLive := by
  rw [compactSlots_isLive, settleImporting_isLive, List.map_map]
  apply List.map_congr_left
  intro chunk _
  have hf : ∀ e : MigrationSlotRangeStore, e.isMigrating = false →
      (!(e.isMigrating && e.rangeList == rl && e.taskMeta == tm)) = true := by
    intro e he
    simp [he]
  simp only [Function.comp_apply, ChunkStore.isLive, ChunkStore.hasStable, ChunkStore.isImporting,
    any_filter_importing hf]

end MetaStoreMigrate

namespace MetaStoreUpdate

theorem stampPositions_isLive (e : UInt64) (positions : List (Nat × Nat)) (chunk : ChunkStore) :
    (stampPositions e positions chunk).isLive = chunk.isLive := by
  have hm : ∀ m : MigrationSlotRangeStore,
      (if (m.taskMeta.srcChunkIndex, m.taskMeta.srcChunkPart) ∈ positions ∨
          (m.taskMeta.dstChunkIndex, m.taskMeta.dstChunkPart) ∈ positions then
        m.withEpoch e else m).isMigrating = m.isMigrating := fun m => by
    split <;> rfl
  simp only [stampPositions, ChunkStore.isLive, ChunkStore.hasStable, ChunkStore.isImporting,
    List.any_map, Function.comp_def, hm]

theorem takeoverChunks_isLive {e : UInt64} {a : String} {chunks chunks' : List ChunkStore}
    (h : takeoverChunks e a chunks = some chunks') :
    chunks'.map ChunkStore.isLive = chunks.map ChunkStore.isLive := by
  unfold takeoverChunks at h
  split at h
  · cases h; rfl
  · next _ i p _ =>
      split at h
      · cases h; rfl
      · next _ chunk hchunk =>
          split at h
          · cases h
          · cases h
            -- stamping epochs keeps every chunk's liveness, and so does the takeover
            simp only [List.map_map, Function.comp_def, stampPositions_isLive]
            refine List.map_set_of_getElem? hchunk ?_
            simp only [ChunkStore.isLive, ChunkStore.hasStable, ChunkStore.isImporting,
              ChunkStore.updateMigrating]
            fin_cases p <;> simp [Function.update, List.any_map, Function.comp_def,
              MigrationSlotRangeStore.withEpoch]

end MetaStoreUpdate

namespace MetaStoreUpdate

/-- New chunks are live exactly when they are made with slots. -/
theorem chunkStores_isLive {average remainder : Nat} {withSlots : Bool} :
    ∀ {i currSlot : Nat} {arr : List (ProxyResource × ProxyResource)} {chunk : ChunkStore},
      chunk ∈ chunkStores average remainder withSlots i currSlot arr → chunk.isLive = withSlots
  | _, _, [], _, h => absurd h List.not_mem_nil
  | i, currSlot, (first, second) :: rest, chunk, h => by
      unfold chunkStores at h
      split at h
      · next hw =>
          rcases List.mem_cons.mp h with rfl | h
          · rw [hw]
            rfl
          · exact chunkStores_isLive h
      · next hw =>
          rcases List.mem_cons.mp h with rfl | h
          · rw [Bool.eq_false_iff.mpr hw]
            rfl
          · exact chunkStores_isLive h

theorem proxyResourceToChunkStore_isLive {arr : List (ProxyResource × ProxyResource)}
    {withSlots : Bool} {chunks : List ChunkStore}
    (h : proxyResourceToChunkStore arr withSlots = some chunks) :
    ∀ chunk ∈ chunks, chunk.isLive = withSlots := by
  unfold proxyResourceToChunkStore at h
  dsimp only at h
  split at h
  · cases h
  · cases h
    exact fun _ hc => chunkStores_isLive hc

end MetaStoreUpdate

/-! ## Calls that keep every chunk's liveness -/

/-- The liveness of a cluster's chunks, in order. -/
def ClusterStore.liveness (c : ClusterStore) : List Bool := c.chunks.map ChunkStore.isLive

/-- `s'` is in the ordered-proxy mode of `s` and has its clusters, each with
chunks of the same liveness. -/
structure MetaStore.SameLiveness (s s' : MetaStore) : Prop where
  ordered : s'.enableOrderedProxy = s.enableOrderedProxy
  clusters : OrdMap.SameView ClusterStore.liveness s.clusters s'.clusters

namespace MetaStore.SameLiveness

variable {s s' s'' : MetaStore}

theorem refl (s : MetaStore) : SameLiveness s s := ⟨rfl, .refl _ _⟩

theorem trans (h : SameLiveness s s') (h' : SameLiveness s' s'') : SameLiveness s s'' :=
  ⟨h'.ordered.trans h.ordered, h.clusters.trans h'.clusters⟩

theorem bump (h : SameLiveness s s') : SameLiveness s s'.bumpGlobalEpoch.1 :=
  ⟨h.ordered, h.clusters⟩

/-- Any change of the epochs, the failure records and the proxy table. -/
theorem of_eq (hf : s'.enableOrderedProxy = s.enableOrderedProxy) (hc : s'.clusters = s.clusters) :
    SameLiveness s s' :=
  ⟨hf, by rw [hc]; exact .refl _ _⟩

/-- Cluster `name` rewritten with chunks of the same liveness. -/
theorem replace {name : ClusterName} {c c' : ClusterStore} (hget : s.clusters.get? name = some c)
    (hl : c'.liveness = c.liveness) :
    SameLiveness s { s with clusters := s.clusters.replace name c' } :=
  ⟨rfl, .replace hget hl⟩

end MetaStore.SameLiveness

namespace MetaStoreMigrate

theorem commitMigration_sameLiveness {s s' : MetaStore} {task : MigrationTaskMeta}
    {r : Except MetaStoreError Unit} (h : commitMigration s task = (s', r)) :
    s.SameLiveness s' := by
  unfold commitMigration at h
  dsimp only at h
  split at h
  · cases h; exact .refl s
  · next c hget =>
      split at h
      · cases h; exact .refl s
      · split at h
        · cases h
          exact (MetaStore.SameLiveness.replace hget
            (by unfold ClusterStore.liveness; exact commitChunks_isLive _ _ _)).bump
        · cases h; exact .refl s

end MetaStoreMigrate

namespace MetaStoreUpdate

theorem balanceMasters_sameLiveness {s s' : MetaStore} {clusterName : String}
    {r : Except MetaStoreError Unit} (h : balanceMasters s clusterName = (s', r)) :
    s.SameLiveness s' := by
  unfold balanceMasters at h
  dsimp only at h
  split at h
  · cases h; exact .refl s
  · split at h
    · cases h; exact .refl s
    · next c hget =>
        cases h
        refine (MetaStore.SameLiveness.replace hget ?_).bump
        rw [ClusterStore.liveness, ClusterStore.liveness, List.map_map]
        apply List.map_congr_left
        intro chunk _
        simp only [Function.comp_apply]
        split <;> rfl

theorem changeConfig_sameLiveness {toLowercase : String → String} {s s' : MetaStore}
    {clusterName : String} {config : List (String × String)} {r : Except MetaStoreError Unit}
    (h : changeConfig toLowercase s clusterName config = (s', r)) : s.SameLiveness s' := by
  unfold changeConfig at h
  dsimp only at h
  split at h
  · cases h; exact .refl s
  · split at h
    · cases h; exact .refl s
    · next c hget =>
        split at h
        · cases h; exact .refl s
        · split at h
          · cases h; exact .refl s
          · cases h
            refine (MetaStore.SameLiveness.replace hget ?_).bump
            rfl

theorem takeoverMaster_sameLiveness {s s' : MetaStore} {name : ClusterName} {a : String}
    {r : Except MetaStoreError Unit} (h : takeoverMaster s name a = (s', r)) :
    s.SameLiveness s' := by
  unfold takeoverMaster at h
  dsimp only at h
  split at h
  · cases h; exact (MetaStore.SameLiveness.refl s).bump
  · next c hget =>
      split at h
      · cases h; exact (MetaStore.SameLiveness.refl s).bump
      · next chunks hchunks =>
          cases h
          exact (MetaStore.SameLiveness.refl s).bump.trans
            (.replace hget (by rw [ClusterStore.liveness, ClusterStore.liveness,
              takeoverChunks_isLive hchunks]))

theorem addFailure_sameLiveness (s : MetaStore) (address reporterId : String) (now : Int) :
    s.SameLiveness (addFailure s address reporterId now).1 := by
  unfold addFailure
  dsimp only
  split
  · exact .refl s
  · exact .of_eq rfl rfl

theorem getFailures_sameLiveness (s : MetaStore) (now failureTtl : Int) (failureQuorum : UInt64) :
    s.SameLiveness (getFailures s now failureTtl failureQuorum).1 :=
  .of_eq rfl rfl

end MetaStoreUpdate

theorem MetaStore.setAllClusterEpochs_sameLiveness (s : MetaStore) (e : UInt64) :
    s.SameLiveness (s.setAllClusterEpochs e) := by
  refine ⟨rfl, fun name => ?_⟩
  unfold MetaStore.setAllClusterEpochs
  rw [OrdMap.get?_mapValues, Option.map_map]
  rfl

theorem MetaStore.forceBumpAllEpoch_sameLiveness (s : MetaStore) (e : UInt64) :
    s.SameLiveness (s.forceBumpAllEpoch e).1 := by
  unfold MetaStore.forceBumpAllEpoch
  split
  · exact .refl s
  · have h₁ : s.SameLiveness { s with globalEpoch := e } := .of_eq rfl rfl
    exact h₁.trans (MetaStore.setAllClusterEpochs_sameLiveness _ e)

theorem MetaStore.recoverEpoch_sameLiveness (s : MetaStore) (e : UInt64) :
    s.SameLiveness (s.recoverEpoch e) := by
  have h₁ : s.SameLiveness { s with globalEpoch := max e (s.globalEpoch + 1) } := .of_eq rfl rfl
  exact h₁.trans (MetaStore.setAllClusterEpochs_sameLiveness _ _)

/-! ## The planners keep the live chunks first -/

namespace MetaStoreMigrate

/-- The chunks without stable slots, as the code counts them. -/
theorem emptyChunkNum_eq (chunks : List ChunkStore) :
    emptyChunkNum chunks = (chunks.filter fun chunk => !chunk.hasStable).length := by
  unfold emptyChunkNum
  congr 1
  apply List.filter_congr
  intro chunk _
  unfold ChunkStore.hasStable
  cases chunk.stableSlots 0 <;> cases chunk.stableSlots 1 <;> rfl

/-- After a plan of chunks without migration entries and the storing of its
tasks, a chunk is live when the plan left it stable slots or a task imports
into it. -/
theorem planned_isLive {loop : Nat → Nat → PlanState → RangeList → Option (PlanState × RangeList)}
    {clear : Bool} {first : Nat} {st st' : PlanState} {chunks planned final : List ChunkStore}
    {ms : List MigrationSlots} (hidle : ∀ chunk ∈ chunks, chunk.hasMigration = false)
    (hplan : planChunks loop clear first 0 st chunks = some (st', planned))
    (hassign : assignDstSlots planned ms = some final) :
    final.length = chunks.length ∧ ∀ j (hj : j < final.length) (hj' : j < chunks.length),
      final[j].isLive = ((decide (j < first) || !clear) && chunks[j].hasStable ||
        ms.any fun t => j == t.taskMeta.dstChunkIndex) := by
  obtain ⟨hl₁, hs₁⟩ := planChunks_spec hplan
  obtain ⟨hl₂, hs₂⟩ := assignDstSlots_spec hassign
  refine ⟨hl₂.trans hl₁, fun j hj hj' => ?_⟩
  have hj₁ : j < planned.length := by omega
  obtain ⟨himp₁, hst₁⟩ := hs₁ j hj₁ hj'
  obtain ⟨hst₂, himp₂⟩ := hs₂ j hj hj₁
  rw [ChunkStore.isLive, hst₂, himp₂, hst₁, himp₁,
    ChunkStore.isImporting_of_hasMigration (hidle _ (List.getElem_mem hj')), Nat.zero_add,
    Bool.false_or]

/-- Scaling out keeps the live chunks first: the sources stay live, and the
destination chunks that get a task are the first empty ones. -/
theorem removeSlotsFromSrc_frontLoaded {c : ClusterStore} {epoch : UInt64}
    {planned final : List ChunkStore} {ms : List MigrationSlots} (hidle : c.isMigrating = false)
    (hf : c.chunks.FrontLoaded ChunkStore.isLive)
    (hplan : removeSlotsFromSrc c epoch = some (planned, ms))
    (hassign : assignDstSlots planned ms = some final) : final.FrontLoaded ChunkStore.isLive := by
  have hmig := ClusterStore.hasMigration_of_isMigrating hidle
  obtain ⟨loop, st, hloop, rfl, hd⟩ := removeSlotsFromSrc_dests hplan
  obtain ⟨hlen, hlive⟩ := planned_isLive hmig hloop hassign
  -- the sources are the chunks before `base`
  have hfs : c.chunks.FrontLoaded ChunkStore.hasStable :=
    hf.of_map_eq (List.map_congr_left fun chunk hc =>
      (ChunkStore.isLive_of_hasMigration (hmig chunk hc)).symm)
  have hsrc : ∀ j (hj : j < c.chunks.length),
      c.chunks[j].hasStable = true ↔ j < c.chunks.length - emptyChunkNum c.chunks :=
    fun j hj => by rw [emptyChunkNum_eq]; exact hfs.getElem_iff hj
  apply List.frontLoaded_of_getElem
  intro i j hi hj hij hlj
  have hi' : i < c.chunks.length := hlen ▸ hi
  have hj' : j < c.chunks.length := hlen ▸ hj
  rw [hlive i hi hi']
  rw [hlive j hj hj'] at hlj
  simp only [Nat.not_lt_zero, decide_false, Bool.not_false, Bool.or_true, Bool.true_and,
    Bool.or_eq_true, List.any_eq_true, beq_iff_eq] at hlj ⊢
  rcases hlj with hs | ⟨t, ht, hjt⟩
  · exact .inl ((hsrc i hi').mpr (Nat.lt_trans hij ((hsrc j hj').mp hs)))
  · by_cases hib : i < c.chunks.length - emptyChunkNum c.chunks
    · exact .inl ((hsrc i hi').mpr hib)
    · -- a task fills chunk `j`: one fills every empty chunk before it
      obtain ⟨d, -, hgo, hdown⟩ := hd.downward ht
      obtain ⟨t', ht', hgo'⟩ :=
        hdown (2 * (i - (c.chunks.length - emptyChunkNum c.chunks))) (by
          have := hgo.1
          omega)
      refine .inr ⟨t', ht', ?_⟩
      rw [hgo'.1]
      omega

/-- Scaling down keeps the live chunks first: only the first `n` keep
stable slots, and the tasks fill only those. -/
theorem removeSlotsFromSrcToScaleDown_frontLoaded {c : ClusterStore} {epoch : UInt64} {n : Nat}
    {planned final : List ChunkStore} {ms : List MigrationSlots} (hidle : c.isMigrating = false)
    (hfull : ∀ chunk ∈ c.chunks, chunk.hasStable = true)
    (hplan : removeSlotsFromSrcToScaleDown c epoch n = some (planned, ms))
    (hassign : assignDstSlots planned ms = some final) : final.FrontLoaded ChunkStore.isLive := by
  have hmig := ClusterStore.hasMigration_of_isMigrating hidle
  obtain ⟨loop, st, hloop, rfl, hd⟩ := removeSlotsFromSrcToScaleDown_dests hplan
  obtain ⟨hlen, hlive⟩ := planned_isLive hmig hloop hassign
  -- a chunk is live exactly when it is one of the first `n`
  have hlt : ∀ j (hj : j < final.length), final[j].isLive = true ↔ j < n := by
    intro j hj
    have hj' : j < c.chunks.length := hlen ▸ hj
    rw [hlive j hj hj', hfull _ (List.getElem_mem hj')]
    simp only [Bool.not_true, Bool.or_false, Bool.and_true, Bool.or_eq_true, decide_eq_true_eq,
      List.any_eq_true, beq_iff_eq]
    constructor
    · rintro (h | ⟨t, ht, rfl⟩)
      · exact h
      · obtain ⟨d, hdn, hgo, -⟩ := hd.downward ht
        rw [hgo.1]
        omega
    · exact .inl
  exact List.frontLoaded_of_getElem fun i j hi hj hij hlj =>
    (hlt i hi).mpr (Nat.lt_trans hij ((hlt j hj).mp hlj))

end MetaStoreMigrate

end Undermoon
