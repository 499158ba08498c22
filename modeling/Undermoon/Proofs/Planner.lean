import Undermoon.Broker.Migrate

/-!
# Where the planners send slots

Both planners number the destination masters `0, 1, ...` and send master
`d` to part `d % 2` of chunk `base + d / 2`: `base` is the number of source
chunks when scaling out, zero when scaling down. The loop variable
`curr_dst_master_index` only moves on, by one, after a task for it has been
emitted, and stays below the number of destination masters. So the masters
that receive a task are `0, 1, ..., D` for some `D` (`PlanState.Dests`):
the chunks that receive slots are the first ones of the destination chunks.
-/

namespace Undermoon

/-- A task meta whose destination is master `d`: part `d % 2` of chunk
`base + d / 2`. -/
def MigrationMetaStore.GoesTo (base : Nat) (m : MigrationMetaStore) (d : Nat) : Prop :=
  m.dstChunkIndex = base + d / 2 ∧ m.dstChunkPart = d % 2

namespace MetaStoreMigrate

/-- The planners' loop state: each task goes to a destination master not past
the current one, every master before the current one has a task, and the
current one is at most the number of masters. -/
structure PlanState.Dests (base dstMasterNum : Nat) (st : PlanState) : Prop where
  bound : st.dstIndex ≤ dstMasterNum
  tasks : ∀ m ∈ st.migrationSlots, ∃ d, d ≤ st.dstIndex ∧ d < dstMasterNum ∧ m.taskMeta.GoesTo base d
  covered : ∀ d < st.dstIndex, ∃ m ∈ st.migrationSlots, m.taskMeta.GoesTo base d

namespace PlanState.Dests

variable {base n : Nat} {st : PlanState}

theorem init : PlanState.init.Dests base n where
  bound := Nat.zero_le _
  tasks _ h := absurd h List.not_mem_nil
  covered _ h := absurd h (Nat.not_lt_zero _)

theorem gather (h : st.Dests base n) (r : Range) (k : Nat) : (st.gather r k).Dests base n :=
  ⟨h.bound, h.tasks, h.covered⟩

/-- Emitting a task for the current master, which is below the number of
masters. -/
theorem emit (h : st.Dests base n) (hlt : st.dstIndex < n) {m : MigrationMetaStore}
    (hm : m.GoesTo base st.dstIndex) (full : Bool) : (st.emit m full).Dests base n := by
  have htasks : ∀ m' ∈ st.migrationSlots ++ [⟨RangeList.new st.dstSlots, m⟩],
      ∃ d, d ≤ st.dstIndex ∧ d < n ∧ m'.taskMeta.GoesTo base d := by
    intro m' hm'
    rcases List.mem_append.mp hm' with hold | hnew
    · exact h.tasks m' hold
    · rw [List.mem_singleton.mp hnew]
      exact ⟨st.dstIndex, Nat.le_refl _, hlt, hm⟩
  have hcovered : ∀ d < st.dstIndex,
      ∃ m' ∈ st.migrationSlots ++ [⟨RangeList.new st.dstSlots, m⟩], m'.taskMeta.GoesTo base d := by
    intro d hd
    obtain ⟨m', hm', hgo⟩ := h.covered d hd
    exact ⟨m', List.mem_append_left _ hm', hgo⟩
  unfold PlanState.emit
  cases full with
  | false => exact ⟨h.bound, htasks, hcovered⟩
  | true =>
      -- the master is full: the next one is current, and the task just
      -- emitted covers the one before
      refine ⟨hlt, fun m' hm' => ?_, fun d hd => ?_⟩
      · obtain ⟨d, hd, hdn, hgo⟩ := htasks m' hm'
        exact ⟨d, Nat.le_succ_of_le hd, hdn, hgo⟩
      · rcases Nat.lt_succ_iff_lt_or_eq.mp hd with hd | rfl
        · exact hcovered d hd
        · exact ⟨_, List.mem_append_right _ (List.mem_singleton_self _), hm⟩

/-- The masters with a task are those up to some master: each one below a
master with a task has one too. -/
theorem downward (h : st.Dests base n) {m : MigrationSlots} (hm : m ∈ st.migrationSlots) :
    ∃ d < n, m.taskMeta.GoesTo base d ∧ ∀ d' ≤ d, ∃ m' ∈ st.migrationSlots, m'.taskMeta.GoesTo base d' := by
  obtain ⟨d, hd, hdn, hgo⟩ := h.tasks m hm
  refine ⟨d, hdn, hgo, fun d' hd' => ?_⟩
  rcases Nat.lt_or_eq_of_le hd' with hlt | rfl
  · exact h.covered d' (Nat.lt_of_lt_of_le hlt hd)
  · exact ⟨m, hm, hgo⟩

end PlanState.Dests

/-! ## The loops keep `Dests` -/

theorem scaleOutLoop_dests {epoch : UInt64} {average remainder srcChunkNum dstMasterNum i p : Nat}
    {fuel : Nat} {st st' : PlanState} {rl rl' : RangeList}
    (h : scaleOutLoop epoch average remainder srcChunkNum dstMasterNum i p fuel st rl = some (st', rl'))
    (hd : st.Dests srcChunkNum dstMasterNum) : st'.Dests srcChunkNum dstMasterNum := by
  fun_induction scaleOutLoop epoch average remainder srcChunkNum dstMasterNum i p fuel st rl
  case case1 | case3 => cases h
  case case2 | case7 =>
    cases h
    exact hd
  -- a range is gathered, and a task emitted when the master is full or the
  -- source is down to its share
  case case4 =>
    rw [← (Prod.mk.inj (Option.some.inj h)).1]
    exact (hd.gather _ _).emit ‹_› ⟨rfl, rfl⟩ _
  case case5 ih => exact ih h ((hd.gather _ _).emit ‹_› ⟨rfl, rfl⟩ _)
  case case6 ih => exact ih h (hd.gather _ _)

theorem scaleDownLoop_dests {epoch : UInt64} {average remainder dstMasterNum : Nat}
    {dstExisting : List Nat} {i p fuel : Nat} {st st' : PlanState} {rl rl' : RangeList}
    (h : scaleDownLoop epoch average remainder dstMasterNum dstExisting i p fuel st rl =
      some (st', rl'))
    (hd : st.Dests 0 dstMasterNum) : st'.Dests 0 dstMasterNum := by
  fun_induction scaleDownLoop epoch average remainder dstMasterNum dstExisting i p fuel st rl
  case case1 | case2 | case4 => cases h
  case case3 | case8 =>
    cases h
    exact hd
  -- the destination chunk index counts from zero here
  case case5 =>
    rw [← (Prod.mk.inj (Option.some.inj h)).1]
    exact (hd.gather _ _).emit ‹_› ⟨(Nat.zero_add _).symm, rfl⟩ _
  case case6 ih => exact ih h ((hd.gather _ _).emit ‹_› ⟨(Nat.zero_add _).symm, rfl⟩ _)
  case case7 ih => exact ih h (hd.gather _ _)

/-! ## The outer loops keep what the inner loop keeps -/

section Outer

variable {loop : Nat → Nat → PlanState → RangeList → Option (PlanState × RangeList)}
  (P : PlanState → Prop)
  (hloop : ∀ i p st st' rl rl', loop i p st rl = some (st', rl') → P st → P st')

include hloop

theorem planPart_preserves {i p : Nat} {st st' : PlanState} {sr : Option SlotRange}
    {sr' : Option SlotRange} (h : planPart (loop i p) st sr = some (st', sr')) (hP : P st) :
    P st' := by
  cases sr with
  | none =>
      cases h
      exact hP
  | some sr =>
      obtain ⟨⟨st₁, rl₁⟩, h₁, h⟩ := Option.map_eq_some_iff.mp h
      cases h
      exact hloop _ _ _ _ _ _ h₁ hP

theorem planChunk_preserves {clear : Bool} {i : Nat} {st st' : PlanState}
    {chunk chunk' : ChunkStore} (h : planChunk loop clear i st chunk = some (st', chunk'))
    (hP : P st) : P st' := by
  unfold planChunk at h
  simp only [Option.bind_eq_bind, Option.bind_eq_some_iff, Option.pure_def,
    Option.some.injEq] at h
  obtain ⟨⟨st₁, s0⟩, h₀, ⟨st₂, s1⟩, h₁, h⟩ := h
  cases h
  exact planPart_preserves P hloop h₁ (planPart_preserves P hloop h₀ hP)

theorem planChunks_preserves {clear : Bool} {first : Nat} :
    ∀ {i : Nat} {st st' : PlanState} {chunks chunks' : List ChunkStore},
      planChunks loop clear first i st chunks = some (st', chunks') → P st → P st'
  | _, _, _, [], _, h, hP => by
      cases h
      exact hP
  | i, st, _, chunk :: rest, _, h, hP => by
      unfold planChunks at h
      simp only [Option.bind_eq_bind, Option.pure_def] at h
      split at h
      · simp only [Option.bind_some] at h
        obtain ⟨⟨st₂, rest₂⟩, hrest, h⟩ := Option.bind_eq_some_iff.mp h
        cases h
        exact planChunks_preserves hrest hP
      · obtain ⟨⟨st₁, chunk₁⟩, h₁, h⟩ := Option.bind_eq_some_iff.mp h
        obtain ⟨⟨st₂, rest₂⟩, hrest, h⟩ := Option.bind_eq_some_iff.mp h
        cases h
        exact planChunks_preserves hrest (planChunk_preserves P hloop h₁ hP)

end Outer

/-! ## The planners' tasks -/

/-- The chunks without stable slots, which the scale-out planner fills. -/
def emptyChunkNum (chunks : List ChunkStore) : Nat :=
  (chunks.filter fun chunk => (chunk.stableSlots 0).isNone && (chunk.stableSlots 1).isNone).length

/-- Scaling out: the chunks come from the outer loop, and the tasks go to
the first destination masters, counted from the first empty chunk. -/
theorem removeSlotsFromSrc_dests {c : ClusterStore} {epoch : UInt64} {chunks : List ChunkStore}
    {ms : List MigrationSlots} (h : removeSlotsFromSrc c epoch = some (chunks, ms)) :
    ∃ loop st, planChunks loop false 0 0 PlanState.init c.chunks = some (st, chunks) ∧
      st.migrationSlots = ms ∧
      st.Dests (c.chunks.length - emptyChunkNum c.chunks) (emptyChunkNum c.chunks * 2) := by
  unfold removeSlotsFromSrc at h
  dsimp only at h
  split at h
  · cases h
  · obtain ⟨⟨st, chunks'⟩, hplan, hres⟩ := Option.map_eq_some_iff.mp h
    cases hres
    exact ⟨_, st, hplan, rfl, planChunks_preserves _
      (fun _ _ _ _ _ _ hl hd => scaleOutLoop_dests hl hd) hplan PlanState.Dests.init⟩

/-- Scaling down to `n` chunks: the chunks past `n` are cleared, and the
tasks go to masters of the first `n` chunks. -/
theorem removeSlotsFromSrcToScaleDown_dests {c : ClusterStore} {epoch : UInt64} {n : Nat}
    {chunks : List ChunkStore} {ms : List MigrationSlots}
    (h : removeSlotsFromSrcToScaleDown c epoch n = some (chunks, ms)) :
    ∃ loop st, planChunks loop true n 0 PlanState.init c.chunks = some (st, chunks) ∧
      st.migrationSlots = ms ∧ st.Dests 0 (n * 2) := by
  unfold removeSlotsFromSrcToScaleDown at h
  dsimp only at h
  split at h
  · cases h
  · obtain ⟨⟨st, chunks'⟩, hplan, hres⟩ := Option.map_eq_some_iff.mp h
    cases hres
    exact ⟨_, st, hplan, rfl, planChunks_preserves _
      (fun _ _ _ _ _ _ hl hd => scaleDownLoop_dests hl hd) hplan PlanState.Dests.init⟩

end MetaStoreMigrate

end Undermoon
