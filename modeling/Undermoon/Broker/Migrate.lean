import Undermoon.Broker.Update

/-!
# Migration planning and commit

`broker/migrate.rs`, and the `MetaStore` methods of `broker/store.rs` that
compose it with `MetaStoreUpdate`.

Both planners walk the stable slots of the source masters in chunk order,
part 0 before part 1, and cut them into tasks (`MigrationSlots`), one or more
per destination master, carrying four loop variables across range lists
(`PlanState`). Scaling out (`remove_slots_from_src`) takes slots off the end
of each source until it is down to its final share and fills the empty
chunks; scaling down (`remove_slots_from_src_to_scale_down`) empties every
chunk past the new size from the front and tops up the chunks that stay.

The inner `while` loops carry `fuel`; each round either moves a slot or
moves to the next destination master, so the slots of the range list plus
the number of destination masters, plus one, is enough. Running out answers
`none`, like a panic.

`usize` arithmetic is `Nat`. The release build does not check overflow, and
the scale-down planner subtracts where the result can be negative
(`need_num`, `remove_num + start - 1`); those two are `wrappingSub`, the
64-bit wrapping difference.
-/

namespace Undermoon

/-- `a - b` on 64-bit `usize` without overflow checks. -/
def wrappingSub (a b : Nat) : Nat := (a + (2 ^ 64 - b % 2 ^ 64)) % 2 ^ 64

theorem wrappingSub_of_le {a b : Nat} (h : b ≤ a) (ha : a < 2 ^ 64) : wrappingSub a b = a - b := by
  unfold wrappingSub
  have hb : b % 2 ^ 64 = b := Nat.mod_eq_of_lt (by omega)
  rw [hb]
  have : a + (2 ^ 64 - b) = (a - b) + 2 ^ 64 := by omega
  rw [this, Nat.add_mod_right, Nat.mod_eq_of_lt (by omega)]

theorem wrappingSub_self (a : Nat) : wrappingSub a a = 0 := by
  unfold wrappingSub
  have h := Nat.mod_lt a (Nat.two_pow_pos 64)
  have : a + (2 ^ 64 - a % 2 ^ 64) = (a / 2 ^ 64) * 2 ^ 64 + 2 ^ 64 := by
    have := Nat.div_add_mod a (2 ^ 64)
    rw [Nat.mul_comm] at this
    omega
  rw [this, Nat.add_mod_right, Nat.mul_mod_left]

namespace MetaStoreMigrate

/-! ## The planners' loop -/

/-- The loop variables of both planners: `curr_dst_master_index`,
`migration_slots`, `curr_dst_slots` and `curr_slots_num`. -/
structure PlanState where
  dstIndex : Nat
  migrationSlots : List MigrationSlots
  dstSlots : List Range
  slotsNum : Nat
deriving DecidableEq, Repr

/-- The loop variables before the first source. -/
def PlanState.init : PlanState := ⟨0, [], [], 0⟩

/-- A range moved into the task being gathered. -/
def PlanState.gather (st : PlanState) (r : Range) (n : Nat) : PlanState :=
  { st with dstSlots := st.dstSlots ++ [r], slotsNum := st.slotsNum + n }

/-- "reset current state": the gathered ranges become a task of meta `m`,
and when the destination is `full` the next destination master is next. -/
def PlanState.emit (st : PlanState) (m : MigrationMetaStore) (full : Bool) : PlanState :=
  let st := { st with
    migrationSlots := st.migrationSlots ++ [⟨RangeList.new st.dstSlots, m⟩], dstSlots := [] }
  if full then { st with dstIndex := st.dstIndex + 1, slotsNum := 0 } else st

/-- The scale-out cut: the whole last range if `remove_num` covers it (`pop`),
else its last `remove_num` slots. The range list left, the range moved and
how many slots it counts. -/
def takeLast (rl : RangeList) (removeNum : Nat) : Option (RangeList × Range × Nat) :=
  match rl.ranges.getLast? with
  | none => none
  | some last =>
      let num := last.stop - last.start + 1
      if removeNum ≥ num then some (⟨rl.ranges.dropLast⟩, last, num)
      else
        some (⟨rl.ranges.dropLast ++ [⟨last.start, last.stop - removeNum⟩]⟩,
          ⟨last.stop - removeNum + 1, last.stop⟩, removeNum)

/-- The scale-down cut: the whole first range if `remove_num` covers it
(`remove(0)`), else its first `remove_num` slots, as
`Range(start, remove_num + start - 1)`. -/
def takeFirst (rl : RangeList) (removeNum : Nat) : Option (RangeList × Range × Nat) :=
  match rl.ranges with
  | [] => none
  | first :: rest =>
      let num := first.stop - first.start + 1
      if removeNum ≥ num then some (⟨rest⟩, first, num)
      else
        some (⟨⟨first.start + removeNum, first.stop⟩ :: rest⟩,
          ⟨first.start, wrappingSub (removeNum + first.start) 1⟩, removeNum)

/-- The `while` loop of `remove_slots_from_src` over the stable slots `rl`
of source part `(srcChunkIndex, srcChunkPart)`. The source keeps
`average + src_r` slots; destination master `dstIndex` is master
`src_master_num + dstIndex` of the cluster and ends with `average + dst_r`. -/
def scaleOutLoop (epoch : UInt64) (average remainder srcChunkNum dstMasterNum : Nat)
    (srcChunkIndex srcChunkPart : Nat) : Nat → PlanState → RangeList → Option (PlanState × RangeList)
  | 0, _, _ => none
  | fuel + 1, st, rl =>
      -- The source tests `!=`: the index starts at 0 and steps by one under
      -- this test, so it never passes `dst_master_num`.
      if st.dstIndex < dstMasterNum then
        let srcFinal := average + if srcChunkIndex * 2 + srcChunkPart < remainder then 1 else 0
        let dstFinal := average + if srcChunkNum * 2 + st.dstIndex < remainder then 1 else 0
        if rl.getSlotsNum ≤ srcFinal then some (st, rl)
        else
          -- `need_num` does not underflow: a task closes as soon as
          -- `curr_slots_num` reaches `dst_final_num`.
          let removeNum := min (dstFinal - st.slotsNum) (rl.getSlotsNum - srcFinal)
          match takeLast rl removeNum with
          | none => none
          | some (rl, r, n) =>
              let st := st.gather r n
              let full := decide (st.slotsNum ≥ dstFinal)
              if full || decide (rl.getSlotsNum ≤ srcFinal) then
                let st := st.emit ⟨epoch, srcChunkIndex, srcChunkPart,
                  srcChunkNum + st.dstIndex / 2, st.dstIndex % 2⟩ full
                if rl.getSlotsNum ≤ srcFinal then some (st, rl)
                else scaleOutLoop epoch average remainder srcChunkNum dstMasterNum
                  srcChunkIndex srcChunkPart fuel st rl
              else scaleOutLoop epoch average remainder srcChunkNum dstMasterNum
                srcChunkIndex srcChunkPart fuel st rl
      else some (st, rl)

/-- The `while` loop of `remove_slots_from_src_to_scale_down` over the stable
slots `rl` of source part `(srcChunkIndex, srcChunkPart)`: destination master
`dstIndex` already holds `dstExisting[dstIndex]` slots and ends with
`average + dst_r`; the source gives everything. -/
def scaleDownLoop (epoch : UInt64) (average remainder dstMasterNum : Nat) (dstExisting : List Nat)
    (srcChunkIndex srcChunkPart : Nat) : Nat → PlanState → RangeList → Option (PlanState × RangeList)
  | 0, _, _ => none
  | fuel + 1, st, rl =>
      if st.dstIndex < dstMasterNum then
        let dstFinal := average + if st.dstIndex < remainder then 1 else 0
        match dstExisting[st.dstIndex]? with
        | none => none
        | some existing =>
            let need := wrappingSub (wrappingSub dstFinal st.slotsNum) existing
            let available := rl.getSlotsNum
            if available = 0 then some (st, rl)
            else
              match takeFirst rl (min need available) with
              | none => none
              | some (rl, r, n) =>
                  let st := st.gather r n
                  let full := decide (st.slotsNum + existing ≥ dstFinal)
                  if full || decide (rl.getSlotsNum = 0) then
                    let st := st.emit ⟨epoch, srcChunkIndex, srcChunkPart,
                      st.dstIndex / 2, st.dstIndex % 2⟩ full
                    if rl.getSlotsNum = 0 then some (st, rl)
                    else scaleDownLoop epoch average remainder dstMasterNum dstExisting
                      srcChunkIndex srcChunkPart fuel st rl
                  else scaleDownLoop epoch average remainder dstMasterNum dstExisting
                    srcChunkIndex srcChunkPart fuel st rl
      else some (st, rl)

/-- One part's stable slots through a range list loop (`if let Some`). -/
def planPart (loop : PlanState → RangeList → Option (PlanState × RangeList)) (st : PlanState) :
    Option SlotRange → Option (PlanState × Option SlotRange)
  | none => some (st, none)
  | some sr => (loop st sr.rangeList).map fun (st, rl) => (st, some { sr with rangeList := rl })

/-- One source chunk, part 0 then part 1; `clear` is the scale-down
planner's `*slot_range = None` after each part. -/
def planChunk (loop : Nat → Nat → PlanState → RangeList → Option (PlanState × RangeList))
    (clear : Bool) (i : Nat) (st : PlanState) (chunk : ChunkStore) :
    Option (PlanState × ChunkStore) := do
  let (st, s0) ← planPart (loop i 0) st (chunk.stableSlots 0)
  let (st, s1) ← planPart (loop i 1) st (chunk.stableSlots 1)
  pure (st, { chunk with stableSlots := if clear then fun _ => none else ![s0, s1] })

/-- The outer loops: every chunk of index `first` or more, in order
(`enumerate().skip(first)`); `i` is the index of the head chunk. -/
def planChunks (loop : Nat → Nat → PlanState → RangeList → Option (PlanState × RangeList))
    (clear : Bool) (first : Nat) : Nat → PlanState → List ChunkStore →
    Option (PlanState × List ChunkStore)
  | _, st, [] => some (st, [])
  | i, st, chunk :: rest => do
      let (st, chunk) ← if i < first then pure (st, chunk) else planChunk loop clear i st chunk
      let (st, rest) ← planChunks loop clear first (i + 1) st rest
      pure (st, chunk :: rest)

/-- `remove_slots_from_src`: the chunks with their sources cut down, and the
tasks. The destinations are the chunks without stable slots, taken to be the
last ones. -/
def removeSlotsFromSrc (c : ClusterStore) (epoch : UInt64) :
    Option (List ChunkStore × List MigrationSlots) :=
  let dstChunkNum := (c.chunks.filter fun chunk =>
    (chunk.stableSlots 0).isNone && (chunk.stableSlots 1).isNone).length
  let dstMasterNum := dstChunkNum * 2
  let masterNum := c.chunks.length * 2
  let srcChunkNum := c.chunks.length - dstChunkNum
  -- `SLOT_NUM / master_num` panics on a cluster without chunks
  if masterNum = 0 then none
  else
    let average := slotNum / masterNum
    let remainder := slotNum - average * masterNum
    let loop (i p : Nat) (st : PlanState) (rl : RangeList) :=
      scaleOutLoop epoch average remainder srcChunkNum dstMasterNum i p
        (rl.getSlotsNum + dstMasterNum + 1) st rl
    (planChunks loop false 0 0 PlanState.init c.chunks).map fun (st, chunks) =>
      (chunks, st.migrationSlots)

/-- The slots each master of the first `dstChunkNum` chunks holds, part 0
before part 1 (`dst_existing_slots_num`). -/
def dstExistingSlotsNum (chunks : List ChunkStore) (dstChunkNum : Nat) : List Nat :=
  (chunks.take dstChunkNum).flatMap fun chunk =>
    [0, 1].map fun (p : Fin 2) => ((chunk.stableSlots p).map (·.rangeList.getSlotsNum)).getD 0

/-- `remove_slots_from_src_to_scale_down`: every chunk past `newChunkNum`
loses its stable slots to the first `newChunkNum` chunks. -/
def removeSlotsFromSrcToScaleDown (c : ClusterStore) (epoch : UInt64) (newChunkNum : Nat) :
    Option (List ChunkStore × List MigrationSlots) :=
  let dstMasterNum := newChunkNum * 2
  -- `SLOT_NUM / dst_master_num` panics when no chunk stays
  if dstMasterNum = 0 then none
  else
    let average := slotNum / dstMasterNum
    let remainder := slotNum - average * dstMasterNum
    let dstExisting := dstExistingSlotsNum c.chunks newChunkNum
    let loop (i p : Nat) (st : PlanState) (rl : RangeList) :=
      scaleDownLoop epoch average remainder dstMasterNum dstExisting i p
        (rl.getSlotsNum + dstMasterNum + 1) st rl
    (planChunks loop true newChunkNum 0 PlanState.init c.chunks).map fun (st, chunks) =>
      (chunks, st.migrationSlots)

/-! ## Storing and committing tasks -/

/-- `compact_slots`: every stable and migrating range list compacted. -/
def compactSlots (chunks : List ChunkStore) : List ChunkStore :=
  chunks.map fun chunk => { chunk with
    stableSlots := fun p => (chunk.stableSlots p).map fun sr =>
      { sr with rangeList := sr.rangeList.compact }
    migratingSlots := fun p => (chunk.migratingSlots p).map fun m =>
      { m with rangeList := m.rangeList.compact } }

/-- One task stored twice: migrating at its source part, importing at its
destination part. -/
def assignTask (chunks : List ChunkStore) (ms : MigrationSlots) : Option (List ChunkStore) := do
  let sp ← partIndex? ms.taskMeta.srcChunkPart
  let chunks ← updateChunk? chunks ms.taskMeta.srcChunkIndex fun chunk =>
    some (chunk.updateMigrating sp (· ++ [⟨ms.ranges, true, ms.taskMeta⟩]))
  let dp ← partIndex? ms.taskMeta.dstChunkPart
  updateChunk? chunks ms.taskMeta.dstChunkIndex fun chunk =>
    some (chunk.updateMigrating dp (· ++ [⟨ms.ranges, false, ms.taskMeta⟩]))

/-- `assign_dst_slots`. -/
def assignDstSlots (chunks : List ChunkStore) (migrationSlots : List MigrationSlots) :
    Option (List ChunkStore) :=
  (migrationSlots.foldlM assignTask chunks).map compactSlots

/-- `print_migration_slot` only logs, but it resolves every migration entry
with `to_slot_range`, which `expect`s the positions it reads. -/
def printMigrationSlot (chunks : List ChunkStore) : Option Unit :=
  ((ClusterStore.entries chunks).mapM fun (e : MigrationSlotRangeStore) => e.toSlotRange chunks).map
    fun _ => ()

/-- `check_running_tasks`. -/
def checkRunningTasks (c : ClusterStore) : Except MetaStoreError Unit :=
  if c.isMigrating then .error .migrationRunning else .ok ()

/-- `migrate_slots`: plan a scale-out onto the chunks without slots. The
global epoch is bumped before anything is checked. -/
def migrateSlots (s : MetaStore) (clusterName : String) :
    Option (MetaStore × Except MetaStoreError Unit) :=
  match ClusterName.tryFrom clusterName with
  | none => some (s, .error .invalidClusterName)
  | some name =>
      let (s, newEpoch) := s.bumpGlobalEpoch
      match s.clusters.get? name with
      | none => some (s, .error .clusterNotFound)
      | some c =>
          let emptyExists := c.chunks.any fun chunk =>
            (chunk.stableSlots 0).isNone || (chunk.stableSlots 1).isNone
          if !emptyExists then some (s, .error .slotsAlreadyEven)
          else match checkRunningTasks c with
          | .error e => some (s, .error e)
          | .ok () => do
              let (chunks, migrationSlots) ← removeSlotsFromSrc c newEpoch
              let chunks ← assignDstSlots chunks migrationSlots
              let _ ← printMigrationSlot chunks
              pure ({ s with clusters := s.clusters.replace name { c with chunks, epoch := newEpoch } },
                .ok ())

/-- `migrate_slots_to_scale_down`: plan moving every slot into the first
`newNodeNum / 4` chunks. The global epoch is bumped before anything is
checked. -/
def migrateSlotsToScaleDown (s : MetaStore) (clusterName : String) (newNodeNum : Nat) :
    Option (MetaStore × Except MetaStoreError Unit) :=
  match ClusterName.tryFrom clusterName with
  | none => some (s, .error .invalidClusterName)
  | some name =>
      let (s, newEpoch) := s.bumpGlobalEpoch
      match s.clusters.get? name with
      | none => some (s, .error .clusterNotFound)
      | some c =>
          let emptyExists := c.chunks.any fun chunk =>
            (chunk.stableSlots 0).isNone || (chunk.stableSlots 1).isNone
          if emptyExists then some (s, .error .freeNodeFound)
          else match checkRunningTasks c with
          | .error e => some (s, .error e)
          | .ok () =>
              if newNodeNum = 0 ∨ newNodeNum % chunkNodeNum ≠ 0 ∨
                  newNodeNum ≥ c.chunks.length * chunkNodeNum then
                some (s, .error .invalidNodeNum)
              else do
                let (chunks, migrationSlots) ←
                  removeSlotsFromSrcToScaleDown c newEpoch (newNodeNum / 4)
                let chunks ← assignDstSlots chunks migrationSlots
                let _ ← printMigrationSlot chunks
                let c := { c with chunks, epoch := newEpoch }
                pure ({ s with clusters := s.clusters.replace name c }, .ok ())

/-- Every migration entry with its chunk index and part, in the order the
two `find`s of `commit_migration` visit them. -/
def indexedEntries (chunks : List ChunkStore) : List (Nat × Nat × MigrationSlotRangeStore) :=
  chunks.zipIdx.flatMap fun (chunk, i) =>
    ([0, 1] : List (Fin 2)).flatMap fun j => (chunk.migratingSlots j).map fun e => (i, j.val, e)

/-- The position of the first entry of the task on its migrating
(`isMigrating = true`) or importing side. -/
def findTaskPosition (chunks : List ChunkStore) (rl : RangeList) (epoch : UInt64)
    (isMigrating : Bool) : Option (Nat × Nat) :=
  (indexedEntries chunks |>.find? fun (_, _, e) =>
    e.rangeList == rl && e.taskMeta.epoch == epoch && e.isMigrating == isMigrating).map
    fun (i, j, _) => (i, j)

/-- The importing entry of a committed task, found in part `j` of a chunk. -/
def importingPosition (tm : MigrationMetaStore) (rl : RangeList) (chunk : ChunkStore) :
    Option (Fin 2 × Nat) :=
  ([0, 1] : List (Fin 2)).findSome? fun j =>
    ((chunk.migratingSlots j).findIdx? fun e =>
      !e.isMigrating && e.taskMeta == tm && e.rangeList == rl).map fun k => (j, k)

/-- The second loop of `commit_migration`: in the first chunk holding the
task's importing entry, the entry goes and its slots join that part's stable
slots. -/
def settleImporting (tm : MigrationMetaStore) (rl : RangeList) :
    List ChunkStore → List ChunkStore
  | [] => []
  | chunk :: rest =>
      match importingPosition tm rl chunk with
      | none => chunk :: settleImporting tm rl rest
      | some (j, k) =>
          let removed := ((chunk.migratingSlots j)[k]?.map (·.rangeList)).getD rl
          let chunk := (chunk.updateMigrating j (·.eraseIdx k)).updateStable j fun
            | some stable => some { stable with rangeList := stable.rangeList.mergeAnother removed }
            | none => some ⟨removed, .none⟩
          chunk :: rest

/-- `MetaStoreMigrate::commit_migration`: a proxy reports a task done. -/
def commitMigration (s : MetaStore) (task : MigrationTaskMeta) :
    MetaStore × Except MetaStoreError Unit :=
  -- "Will bump epoch later on success."
  let newEpoch := s.globalEpoch + 1
  match s.clusters.get? task.clusterName with
  | none => (s, .error .clusterNotFound)
  | some c =>
      match task.slotRange.tag.getMigrationMeta with
      | none => (s, .error .invalidMigrationTask)
      | some m =>
          let rl := task.slotRange.rangeList
          match findTaskPosition c.chunks rl m.epoch true,
              findTaskPosition c.chunks rl m.epoch false with
          | some (si, sj), some (di, dj) =>
              let tm : MigrationMetaStore := ⟨m.epoch, si, sj, di, dj⟩
              let chunks := c.chunks.map fun chunk => { chunk with
                migratingSlots := fun p => (chunk.migratingSlots p).filter fun e =>
                  !(e.isMigrating && e.rangeList == rl && e.taskMeta == tm) }
              let c := { c with chunks := compactSlots (settleImporting tm rl chunks), epoch := newEpoch }
              ({ s with clusters := s.clusters.replace task.clusterName c }.bumpGlobalEpoch.1, .ok ())
          | _, _ => (s, .error .migrationTaskNotFound)

end MetaStoreMigrate

/-! ## The store's composite methods -/

/-- `ScaleOp`. -/
inductive ScaleOp where
  | noOp
  | scaleOut
  | scaleDown
deriving DecidableEq, Repr

namespace MetaStore

/-- `get_node_number_with_slots`: two nodes for every master with stable
slots. -/
def getNodeNumberWithSlots (c : ClusterStore) : Nat :=
  (c.chunks.map fun chunk =>
    (([0, 1] : List (Fin 2)).filter fun p => (chunk.stableSlots p).isSome).length).sum * 2

/-- `MetaStore::commit_migration`: commit, then drop the chunks that became
free if asked. -/
def commitMigration (s : MetaStore) (task : MigrationTaskMeta) (clearFreeNodes : Bool) :
    MetaStore × Except MetaStoreError Unit :=
  match MetaStoreMigrate.commitMigration s task with
  | (s, .error e) => (s, .error e)
  | (s, .ok ()) =>
      if clearFreeNodes then
        MetaStoreUpdate.autoDeleteFreeNodesIfExists s task.clusterName.name
      else (s, .ok ())

/-- What `auto_change_node_number` returns at its end: the operation, and
the cluster's proxies and epoch. -/
def scaleResult (s : MetaStore) (name : ClusterName) (op : ScaleOp) :
    MetaStore × Except MetaStoreError (ScaleOp × List String × UInt64) :=
  match s.clusters.get? name with
  | none => (s, .error .clusterNotFound)
  | some c => (s, .ok (op, c.getProxyAddresses, c.epoch))

/-- `auto_change_node_number` once the free chunks are gone: scale up or
plan a scale-down towards `expectedNum` nodes. -/
def scaleNodeNumber (s : MetaStore) (name : ClusterName) (clusterName : String)
    (expectedNum : Nat) : Option (MetaStore × Except MetaStoreError (ScaleOp × List String × UInt64)) :=
  match s.clusters.get? name with
  | none => some (s, .error .clusterNotFound)
  | some c =>
      let existing := c.chunks.length * chunkNodeNum
      if existing = expectedNum then some (scaleResult s name .noOp)
      else if existing < expectedNum then
        match MetaStoreUpdate.autoScaleUpNodes s clusterName expectedNum with
        | none => none
        | some (s, .error e) => some (s, .error e)
        | some (s, .ok _) => some (scaleResult s name .scaleOut)
      else
        match MetaStoreMigrate.migrateSlotsToScaleDown s clusterName expectedNum with
        | none => none
        | some (s, .error e) => some (s, .error e)
        | some (s, .ok ()) => some (scaleResult s name .scaleDown)

/-- `auto_change_node_number`: "Remove the free nodes first so that this API
could be easy to retry", then scale. -/
def autoChangeNodeNumber (s : MetaStore) (clusterName : String) (expectedNum : Nat) :
    Option (MetaStore × Except MetaStoreError (ScaleOp × List String × UInt64)) :=
  match ClusterName.tryFrom clusterName with
  | none => some (s, .error .invalidClusterName)
  | some name =>
      match s.clusters.get? name with
      | none => some (s, .error .clusterNotFound)
      | some c =>
          if c.isMigrating then some (s, .error .migrationRunning)
          else
            match MetaStoreUpdate.autoDeleteFreeNodes s clusterName with
            | (s, .error e) =>
                if e ≠ .freeNodeNotFound then some (s, .error e)
                else scaleNodeNumber s name clusterName expectedNum
            | (s, .ok ()) => scaleNodeNumber s name clusterName expectedNum

/-- `auto_scale_out_node_number`: start the scale-out migration once the new
nodes are in, unless enough nodes hold slots already. -/
def autoScaleOutNodeNumber (s : MetaStore) (clusterName : String) (expectedNum : Nat) :
    Option (MetaStore × Except MetaStoreError Unit) :=
  match ClusterName.tryFrom clusterName with
  | none => some (s, .error .invalidClusterName)
  | some name =>
      match s.clusters.get? name with
      | none => some (s, .error .clusterNotFound)
      | some c =>
          if getNodeNumberWithSlots c < expectedNum then MetaStoreMigrate.migrateSlots s clusterName
          else some (s, .ok ())

end MetaStore

end Undermoon
