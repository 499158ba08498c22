import Undermoon.Proofs.Ownership
import Undermoon.Proofs.Ranges

/-!
# Deferring migrations keeps every slot where it was

`limit_migration` rebuilds the chunks without their migration entries and
walks the old entries in order. Of the migrating ones it lets a migration
through while fewer than `migration_limit` have been let through and none
yet leaves the same source part; a migration it lets through is pushed again
at both ends, one it defers goes back into the stable slots of its source.

What the two counters decide depends only on the entries seen so far, so the
decisions are a fold of their own (`limitSplit`): the migrations kept, in
order, and those deferred. The loop's state is then fixed by them
(`LimitInv`): each part holds what the kept migrations push onto it, each
stable range list the old slots and those deferred from that part. From this
shape the result keeps each master's slots, is paired again, and shows at
most `migration_limit` migrations, one per source part.
-/

namespace Undermoon

open MigrationSlotRangeStore ClusterStore

/-! ## Chunk updates -/

theorem updateChunk?_some_eq {chunks chunks' : List ChunkStore} {j : Nat} {g : ChunkStore → ChunkStore}
    (h : updateChunk? chunks j (fun chunk => some (g chunk)) = some chunks') :
    ∃ chunk, chunks[j]? = some chunk ∧ chunks' = chunks.set j (g chunk) := by
  unfold updateChunk? at h
  split at h
  · next chunk hc =>
      simp only [Option.map_some, Option.some.injEq] at h
      exact ⟨chunk, hc, h.symm⟩
  · cases h

theorem updateChunk?_isSome {chunks : List ChunkStore} {j : Nat} {chunk : ChunkStore}
    (hc : chunks[j]? = some chunk) (g : ChunkStore → ChunkStore) :
    updateChunk? chunks j (fun chunk => some (g chunk)) = some (chunks.set j (g chunk)) := by
  simp [updateChunk?, hc]

theorem getElem?_set_chunk {chunks : List ChunkStore} {j : Nat} {chunk : ChunkStore}
    (hc : chunks[j]? = some chunk) (chunk' : ChunkStore) (i : Nat) :
    (chunks.set j chunk')[i]? = if i = j then some chunk' else chunks[i]? := by
  rw [List.getElem?_set]
  by_cases hij : i = j
  · subst hij
    simp [(List.getElem?_eq_some_iff.mp hc).1]
  · simp [Ne.symm hij, hij]

theorem countP_entries_set {chunks : List ChunkStore} {j : Nat} {chunk : ChunkStore}
    (hc : chunks[j]? = some chunk) (chunk' : ChunkStore) (f : MigrationSlotRangeStore → Bool) :
    (entries (chunks.set j chunk')).countP f + (chunk.migratingSlots 0 ++ chunk.migratingSlots 1).countP f =
      (entries chunks).countP f + (chunk'.migratingSlots 0 ++ chunk'.migratingSlots 1).countP f := by
  induction chunks generalizing j with
  | nil => cases hc
  | cons c cs ih =>
      cases j with
      | zero =>
          cases hc
          simp only [List.set_cons_zero, entries, List.flatMap_cons, List.countP_append]
          omega
      | succ j =>
          have := ih hc
          simp only [List.set_cons_succ, entries, List.flatMap_cons, List.countP_append] at this ⊢
          omega

theorem entries_set_of_migratingSlots {chunks : List ChunkStore} {j : Nat} {chunk chunk' : ChunkStore}
    (hc : chunks[j]? = some chunk) (h : chunk'.migratingSlots = chunk.migratingSlots) :
    entries (chunks.set j chunk') = entries chunks := by
  induction chunks generalizing j with
  | nil => cases hc
  | cons c cs ih =>
      cases j with
      | zero =>
          cases hc
          simp only [List.set_cons_zero, entries, List.flatMap_cons, h]
      | succ j =>
          have := ih hc
          simp only [List.set_cons_succ, entries, List.flatMap_cons] at this ⊢
          rw [this]

theorem migratingSlots_updateMigrating_append (chunk : ChunkStore) (q p : Fin 2)
    (x : MigrationSlotRangeStore) :
    (chunk.updateMigrating q (· ++ [x])).migratingSlots p =
      chunk.migratingSlots p ++ if p = q then [x] else [] := by
  by_cases h : p = q
  · subst h
    simp [ChunkStore.updateMigrating]
  · simp [ChunkStore.updateMigrating, h]

/-- A push onto one part adds one entry to the cluster's entries. -/
theorem countP_entries_push {chunks chunks' : List ChunkStore} {j : Nat} {q : Fin 2}
    {x : MigrationSlotRangeStore}
    (h : updateChunk? chunks j (fun chunk => some (chunk.updateMigrating q (· ++ [x]))) = some chunks')
    (f : MigrationSlotRangeStore → Bool) :
    (entries chunks').countP f = (entries chunks).countP f + if f x then 1 else 0 := by
  obtain ⟨chunk, hc, rfl⟩ := updateChunk?_some_eq h
  have hset := countP_entries_set hc (chunk.updateMigrating q (· ++ [x])) f
  have hpart : ((chunk.updateMigrating q (· ++ [x])).migratingSlots 0 ++
      (chunk.updateMigrating q (· ++ [x])).migratingSlots 1).countP f =
      (chunk.migratingSlots 0 ++ chunk.migratingSlots 1).countP f + if f x then 1 else 0 := by
    simp only [migratingSlots_updateMigrating_append, List.countP_append]
    fin_cases q <;> simp <;> omega
  omega

theorem entries_restable {chunks chunks' : List ChunkStore} {j : Nat} {q : Fin 2}
    {g : Option SlotRange → Option SlotRange}
    (h : updateChunk? chunks j (fun chunk => some (chunk.updateStable q g)) = some chunks') :
    entries chunks' = entries chunks := by
  obtain ⟨chunk, hc, rfl⟩ := updateChunk?_some_eq h
  exact entries_set_of_migratingSlots hc rfl

/-! ## The loop's decisions -/

/-- One decision of the loop, given the migrations kept and deferred so far:
an importing entry is skipped; a migrating one is deferred past the limit or
when its source part already sends one, and kept otherwise. -/
def limitChoose (limit : Nat) (kd : List MigrationSlotRangeStore × List MigrationSlotRangeStore)
    (e : MigrationSlotRangeStore) : List MigrationSlotRangeStore × List MigrationSlotRangeStore :=
  if !e.isMigrating then kd
  else if kd.1.length ≥ limit ∨ kd.1.countP (fun k => decide (k.home = e.home)) ≥ maxMigratingOut then
    (kd.1, kd.2 ++ [e])
  else (kd.1 ++ [e], kd.2)

/-- The migrations kept and those deferred after the entries `P`. -/
def limitSplit (limit : Nat) (P : List MigrationSlotRangeStore) :
    List MigrationSlotRangeStore × List MigrationSlotRangeStore :=
  P.foldl (limitChoose limit) ([], [])

theorem limitSplit_append (limit : Nat) (P : List MigrationSlotRangeStore) (a : MigrationSlotRangeStore) :
    limitSplit limit (P ++ [a]) = limitChoose limit (limitSplit limit P) a := by
  simp [limitSplit, List.foldl_append]

/-- What the decisions amount to: the kept and the deferred are the migrating
entries seen, at most `limit` are kept, and at most one from each source. -/
structure SplitFacts (limit : Nat) (P : List MigrationSlotRangeStore)
    (kd : List MigrationSlotRangeStore × List MigrationSlotRangeStore) : Prop where
  perm : (kd.1 ++ kd.2).Perm (P.filter (·.isMigrating))
  length_le : kd.1.length ≤ limit
  countP_home_le : ∀ key, kd.1.countP (fun k => decide (k.home = key)) ≤ 1

theorem splitFacts (limit : Nat) (P : List MigrationSlotRangeStore) :
    SplitFacts limit P (limitSplit limit P) := by
  refine List.foldl_invariant (limitChoose limit) (SplitFacts limit)
    (⟨List.Perm.nil, Nat.zero_le _, fun _ => Nat.zero_le _⟩ : SplitFacts limit [] ([], [])) ?_ P
  rintro P a ⟨K, D⟩ h
  unfold limitChoose
  cases hm : a.isMigrating with
  | false =>
      simp only [Bool.not_false, if_true]
      exact ⟨by simpa [hm] using h.perm, h.length_le, h.countP_home_le⟩
  | true =>
      simp only [Bool.not_true, Bool.false_eq_true, if_false]
      have hfilter : (P ++ [a]).filter (·.isMigrating) = P.filter (·.isMigrating) ++ [a] := by
        simp [hm]
      split
      · -- deferred
        refine ⟨?_, h.length_le, h.countP_home_le⟩
        rw [hfilter, ← List.append_assoc]
        exact h.perm.append_right [a]
      · next hlt =>
          -- kept: under the limit, and the first from its source
          simp only [not_or, ge_iff_le, Nat.not_le, maxMigratingOut, Nat.lt_one_iff] at hlt
          refine ⟨?_, by simp; omega, fun key => ?_⟩
          · rw [hfilter, List.append_assoc]
            exact (List.perm_append_comm.append_left K).trans
              ((List.append_assoc K D [a]).symm ▸ h.perm.append_right [a])
          · rw [List.countP_append]
            by_cases hk : a.home = key
            · subst hk
              simp [hlt.2]
            · simp [hk, h.countP_home_le key]

theorem SplitFacts.mem_iff {limit : Nat} {P : List MigrationSlotRangeStore}
    {kd : List MigrationSlotRangeStore × List MigrationSlotRangeStore} (h : SplitFacts limit P kd)
    (e : MigrationSlotRangeStore) : e ∈ kd.1 ∨ e ∈ kd.2 ↔ e ∈ P ∧ e.isMigrating = true := by
  rw [← List.mem_append, h.perm.mem_iff, List.mem_filter]

theorem SplitFacts.kept_migrating {limit : Nat} {P : List MigrationSlotRangeStore}
    {kd : List MigrationSlotRangeStore × List MigrationSlotRangeStore} (h : SplitFacts limit P kd)
    {k : MigrationSlotRangeStore} (hk : k ∈ kd.1) : k.isMigrating = true :=
  ((h.mem_iff k).mp (Or.inl hk)).2

/-- A kept migration is kept once. -/
theorem count_kept {limit : Nat} {P : List MigrationSlotRangeStore} {k : MigrationSlotRangeStore}
    (hk : k ∈ (limitSplit limit P).1) : (limitSplit limit P).1.count k = 1 := by
  have hle : (limitSplit limit P).1.count k ≤ (limitSplit limit P).1.countP (fun k' => decide (k'.home = k.home)) :=
    List.countP_mono_left fun x _ hx => by simp [beq_iff_eq.mp hx]
  have := (splitFacts limit P).countP_home_le k.home
  have hpos := List.count_pos_iff.mpr hk
  omega

/-! ## One part at a time -/

theorem getElem?_push {chunks chunks' : List ChunkStore} {j : Nat} {q : Fin 2}
    {x : MigrationSlotRangeStore}
    (h : updateChunk? chunks j (fun chunk => some (chunk.updateMigrating q (· ++ [x]))) = some chunks') :
    chunks'.length = chunks.length ∧ ∀ i chunk', chunks'[i]? = some chunk' →
      ∃ chunk, chunks[i]? = some chunk ∧ chunk'.stableSlots = chunk.stableSlots ∧
        ∀ p : Fin 2, chunk'.migratingSlots p =
          chunk.migratingSlots p ++ if (i, p.val) = (j, q.val) then [x] else [] := by
  obtain ⟨chunk, hc, rfl⟩ := updateChunk?_some_eq h
  refine ⟨List.length_set .., fun i chunk' hi => ?_⟩
  rw [getElem?_set_chunk hc] at hi
  by_cases hij : i = j
  · subst hij
    rw [if_pos rfl] at hi
    cases hi
    refine ⟨chunk, hc, rfl, fun p => ?_⟩
    rw [migratingSlots_updateMigrating_append]
    simp [Fin.val_inj]
  · rw [if_neg hij] at hi
    exact ⟨chunk', hi, rfl, fun p => by simp [hij]⟩

theorem getElem?_restable {chunks chunks' : List ChunkStore} {j : Nat} {q : Fin 2}
    {g : Option SlotRange → Option SlotRange}
    (h : updateChunk? chunks j (fun chunk => some (chunk.updateStable q g)) = some chunks') :
    chunks'.length = chunks.length ∧ ∀ i chunk', chunks'[i]? = some chunk' →
      ∃ chunk, chunks[i]? = some chunk ∧ chunk'.migratingSlots = chunk.migratingSlots ∧
        ∀ p : Fin 2, chunk'.stableSlots p =
          if (i, p.val) = (j, q.val) then g (chunk.stableSlots p) else chunk.stableSlots p := by
  obtain ⟨chunk, hc, rfl⟩ := updateChunk?_some_eq h
  refine ⟨List.length_set .., fun i chunk' hi => ?_⟩
  rw [getElem?_set_chunk hc] at hi
  by_cases hij : i = j
  · subst hij
    rw [if_pos rfl] at hi
    cases hi
    refine ⟨chunk, hc, rfl, fun p => ?_⟩
    by_cases hp : p = q
    · subst hp
      simp [ChunkStore.updateStable]
    · simp [ChunkStore.updateStable, hp, Fin.val_inj]
  · rw [if_neg hij] at hi
    exact ⟨chunk', hi, rfl, fun p => by simp [hij]⟩

theorem covers_append (a b : List Range) (slot : Nat) :
    (RangeList.mk (a ++ b)).covers slot ↔ (RangeList.mk a).covers slot ∨ (RangeList.mk b).covers slot := by
  simp only [RangeList.covers, List.mem_append, or_and_right, exists_or]

/-- The stable slots of a part after a deferred migration's ranges are merged
back: the old ones and the deferred ones. -/
theorem contains_mergeStable {stable : Option SlotRange} {rl : RangeList}
    (hs : ∀ sr, stable = some sr → ∀ r ∈ sr.rangeList.ranges, r.start ≤ r.stop)
    (hrl : ∀ r ∈ rl.ranges, r.start ≤ r.stop) (slot : Nat) :
    ((stable.getD ⟨RangeList.new [], .none⟩).rangeList.mergeAnother rl).contains slot ↔
      (∃ sr, stable = some sr ∧ sr.rangeList.contains slot) ∨ rl.contains slot := by
  rw [RangeList.mergeAnother, RangeList.compact_contains, covers_append,
    RangeList.covers_iff_of_proper hrl]
  cases stable with
  | none =>
      have : (RangeList.new []).ranges = [] := rfl
      simp [this, RangeList.covers]
  | some sr =>
      have hcov := @RangeList.covers_iff_of_proper sr.rangeList (hs sr rfl) slot
      simp only [Option.getD_some] at hcov ⊢
      rw [hcov]
      simp

/-! ## The loop's state -/

/-- What keeping migration `k` pushes onto part `p` of chunk `i`: the entry
at its source, its importing copy at its destination. -/
def pushes (i p : Nat) (k : MigrationSlotRangeStore) : List MigrationSlotRangeStore :=
  (if (i, p) = k.home then [k] else []) ++ (if (i, p) = k.away then [k.partner] else [])

/-- Slot `slot` is in the stable range list of master `p`. -/
def stableHas (chunk : ChunkStore) (p : Fin 2) (slot : Nat) : Prop :=
  ∃ sr, chunk.stableSlots p = some sr ∧ sr.rangeList.contains slot

/-- The state of the loop after the entries `P`, in terms of the migrations
kept and deferred there. -/
structure LimitInv (c : ClusterStore) (limit : Nat) (P : List MigrationSlotRangeStore)
    (st : LimitState) : Prop where
  length : st.chunks.length = c.chunks.length
  migrating : ∀ (i : Nat) (chunk : ChunkStore), st.chunks[i]? = some chunk → ∀ p : Fin 2,
    chunk.migratingSlots p = (limitSplit limit P).1.flatMap (pushes i p)
  stable : ∀ (i : Nat) (chunk chunk₀ : ChunkStore), st.chunks[i]? = some chunk →
    c.chunks[i]? = some chunk₀ →
    ∀ (p : Fin 2) slot, stableHas chunk p slot ↔
      stableHas chunk₀ p slot ∨ ∃ d ∈ (limitSplit limit P).2, d.home = (i, p.val) ∧ d.rangeList.contains slot
  proper : ∀ (i : Nat) (chunk : ChunkStore), st.chunks[i]? = some chunk →
    ∀ (p : Fin 2) (sr : SlotRange), chunk.stableSlots p = some sr →
    ∀ r ∈ sr.rangeList.ranges, r.start ≤ r.stop
  migrationNum : st.migrationNum = (limitSplit limit P).1.length
  migratingOut : ∀ key, st.migratingOut key = (limitSplit limit P).1.countP fun k => decide (k.home = key)
  countAll : (entries st.chunks).countP (·.isMigrating) = (limitSplit limit P).1.length
  countHome : ∀ key, (entries st.chunks).countP (fun e => e.isMigrating && decide (e.home = key)) =
    (limitSplit limit P).1.countP fun k => decide (k.home = key)

theorem home_of_isMigrating {e : MigrationSlotRangeStore} (h : e.isMigrating = true) :
    e.home = (e.taskMeta.srcChunkIndex, e.taskMeta.srcChunkPart) := by
  simp [home, h]

theorem away_of_isMigrating {e : MigrationSlotRangeStore} (h : e.isMigrating = true) :
    e.away = (e.taskMeta.dstChunkIndex, e.taskMeta.dstChunkPart) := by
  simp [away, h]

theorem partner_of_isMigrating {e : MigrationSlotRangeStore} (h : e.isMigrating = true) :
    e.partner = { e with isMigrating := false } := by
  simp [partner, h]

/-- The ranges of a stored migrating entry are owned, hence proper. -/
theorem ClusterStore.SlotInvariant.proper_of_mem {c : ClusterStore} (hc : c.SlotInvariant) {i : Nat}
    {chunk : ChunkStore} (hi : c.chunks[i]? = some chunk) {p : Fin 2} {e : MigrationSlotRangeStore}
    (he : e ∈ chunk.migratingSlots p) (hm : e.isMigrating = true) :
    ∀ r ∈ e.rangeList.ranges, r.start ≤ r.stop := fun r hr =>
  hc.proper r (mem_allOwnedRanges hi p (List.mem_append_right _
    (List.mem_flatMap.mpr ⟨e, List.mem_filter.mpr ⟨he, hm⟩, hr⟩)))

theorem entries_cleared (chunks : List ChunkStore) :
    entries (chunks.map fun chunk => { chunk with migratingSlots := fun _ => [] }) = [] := by
  induction chunks with
  | nil => rfl
  | cons chunk chunks ih =>
      simp only [List.map_cons, entries, List.flatMap_cons] at ih ⊢
      rw [ih]
      rfl

theorem limitInv_init {c : ClusterStore} (hc : c.SlotInvariant) (limit : Nat) :
    LimitInv c limit [] ⟨c.chunks.map fun chunk => { chunk with migratingSlots := fun _ => [] }, 0,
      fun _ => 0⟩ where
  length := List.length_map ..
  migrating i chunk hi p := by
    obtain ⟨chunk₀, -, rfl⟩ := Option.map_eq_some_iff.mp (List.getElem?_map ▸ hi)
    rfl
  stable i chunk chunk₀ hi hi₀ p slot := by
    obtain ⟨chunk₁, h₁, rfl⟩ := Option.map_eq_some_iff.mp (List.getElem?_map ▸ hi)
    rw [hi₀] at h₁
    cases h₁
    simp [limitSplit, stableHas]
  proper i chunk hi p sr hs r hr := by
    obtain ⟨chunk₀, h₀, rfl⟩ := Option.map_eq_some_iff.mp (List.getElem?_map ▸ hi)
    refine hc.proper r (mem_allOwnedRanges h₀ p (List.mem_append_left _ ?_))
    simp only at hs
    simp [hs, hr]
  migrationNum := rfl
  migratingOut _ := rfl
  countAll := by rw [entries_cleared]; rfl
  countHome _ := by rw [entries_cleared]; rfl

/-! ## One step of the loop -/

section Step

variable {c : ClusterStore} {limit : UInt64} {P : List MigrationSlotRangeStore} {st : LimitState}
  {a : MigrationSlotRangeStore}

/-- What a stored migrating entry is deferred into: the stable slots of its
source part with its ranges merged in. -/
def mergeInto (a : MigrationSlotRangeStore) (stable : Option SlotRange) : Option SlotRange :=
  some { (stable.getD ⟨RangeList.new [], .none⟩) with
    rangeList := (stable.getD ⟨RangeList.new [], .none⟩).rangeList.mergeAnother a.rangeList }

theorem limitStep_skip (hm : a.isMigrating = false) : limitStep limit st a = some st := by
  simp [limitStep, hm]

/-- The state depends on the entries seen only through the decisions. -/
theorem LimitInv.of_split_eq {limit : Nat} {P' : List MigrationSlotRangeStore}
    (hs : limitSplit limit P' = limitSplit limit P) (h : LimitInv c limit P st) :
    LimitInv c limit P' st where
  length := h.length
  migrating := hs ▸ h.migrating
  stable := hs ▸ h.stable
  proper := h.proper
  migrationNum := hs ▸ h.migrationNum
  migratingOut := hs ▸ h.migratingOut
  countAll := hs ▸ h.countAll
  countHome := hs ▸ h.countHome

theorem LimitInv.skip (h : LimitInv c limit.toNat P st) (hm : a.isMigrating = false) :
    LimitInv c limit.toNat (P ++ [a]) st :=
  h.of_split_eq (by rw [limitSplit_append, limitChoose, if_pos (by simp [hm])])

theorem limitStep_defer {j : Nat} {q : Fin 2} {chunk : ChunkStore} (hm : a.isMigrating = true)
    (hj : a.taskMeta.srcChunkIndex = j) (hq : a.taskMeta.srcChunkPart = q.val)
    (hchunk : st.chunks[j]? = some chunk)
    (hdefer : st.migrationNum ≥ limit.toNat ∨
      st.migratingOut (a.taskMeta.srcChunkIndex, a.taskMeta.srcChunkPart) ≥ maxMigratingOut) :
    limitStep limit st a = some { st with chunks := st.chunks.set j (chunk.updateStable q (mergeInto a)) } := by
  unfold limitStep
  rw [if_neg (by simp [hm]), if_pos hdefer, hq, partIndex?_val, Option.bind_eq_bind, Option.bind_some, hj,
    updateChunk?_isSome hchunk]
  rfl

theorem limitStep_keep {j j' : Nat} {q q' : Fin 2} {chunk chunk' : ChunkStore}
    (hm : a.isMigrating = true) (hj : a.taskMeta.srcChunkIndex = j) (hq : a.taskMeta.srcChunkPart = q.val)
    (hj' : a.taskMeta.dstChunkIndex = j') (hq' : a.taskMeta.dstChunkPart = q'.val)
    (hchunk : st.chunks[j]? = some chunk)
    (hchunk' : (st.chunks.set j (chunk.updateMigrating q (· ++ [a])))[j']? = some chunk')
    (hkeep : ¬(st.migrationNum ≥ limit.toNat ∨
      st.migratingOut (a.taskMeta.srcChunkIndex, a.taskMeta.srcChunkPart) ≥ maxMigratingOut)) :
    limitStep limit st a = some ⟨(st.chunks.set j (chunk.updateMigrating q (· ++ [a]))).set j'
        (chunk'.updateMigrating q' (· ++ [{ a with isMigrating := false }])), st.migrationNum + 1,
      Function.update st.migratingOut (a.taskMeta.srcChunkIndex, a.taskMeta.srcChunkPart)
        (st.migratingOut (a.taskMeta.srcChunkIndex, a.taskMeta.srcChunkPart) + 1)⟩ := by
  unfold limitStep
  rw [if_neg (by simp [hm]), if_neg hkeep, hq, partIndex?_val, Option.bind_eq_bind, Option.bind_some, hj,
    updateChunk?_isSome hchunk, Option.bind_eq_bind, Option.bind_some, hq', partIndex?_val,
    Option.bind_some, hj', updateChunk?_isSome hchunk']
  rfl

theorem limitSplit_defer {limit : Nat} (hm : a.isMigrating = true)
    (hcond : (limitSplit limit P).1.length ≥ limit ∨
      (limitSplit limit P).1.countP (fun k => decide (k.home = a.home)) ≥ maxMigratingOut) :
    limitSplit limit (P ++ [a]) = ((limitSplit limit P).1, (limitSplit limit P).2 ++ [a]) := by
  rw [limitSplit_append, limitChoose, if_neg (by simp [hm]), if_pos hcond]

theorem limitSplit_keep {limit : Nat} (hm : a.isMigrating = true)
    (hcond : ¬((limitSplit limit P).1.length ≥ limit ∨
      (limitSplit limit P).1.countP (fun k => decide (k.home = a.home)) ≥ maxMigratingOut)) :
    limitSplit limit (P ++ [a]) = ((limitSplit limit P).1 ++ [a], (limitSplit limit P).2) := by
  rw [limitSplit_append, limitChoose, if_neg (by simp [hm]), if_neg hcond]

theorem exists_mem_append_singleton {D : List MigrationSlotRangeStore}
    {Q : MigrationSlotRangeStore → Prop} : (∃ d ∈ D ++ [a], Q d) ↔ (∃ d ∈ D, Q d) ∨ Q a := by
  simp [or_and_right, exists_or]

/-- A deferred migration: its ranges join the stable slots of its source. -/
theorem LimitInv.defer (hc : c.SlotInvariant) (h : LimitInv c limit.toNat P st) {j : Nat} {q : Fin 2}
    {chunk chunk₀ : ChunkStore} (hm : a.isMigrating = true) (hhome : a.home = (j, q.val))
    (hchunk : st.chunks[j]? = some chunk) (hj₀ : c.chunks[j]? = some chunk₀)
    (haq : a ∈ chunk₀.migratingSlots q)
    (hcond : (limitSplit limit.toNat P).1.length ≥ limit.toNat ∨
      (limitSplit limit.toNat P).1.countP (fun k => decide (k.home = a.home)) ≥ maxMigratingOut) :
    LimitInv c limit.toNat (P ++ [a])
      { st with chunks := st.chunks.set j (chunk.updateStable q (mergeInto a)) } := by
  have hsplit := limitSplit_defer hm hcond
  obtain ⟨hlen, hat⟩ := getElem?_restable (updateChunk?_isSome hchunk fun chunk =>
    chunk.updateStable q (mergeInto a))
  have hproper := hc.proper_of_mem hj₀ haq hm
  refine ⟨hlen.trans h.length, fun i chunk' hi p => ?_, fun i chunk' chunk₀' hi hi₀ p slot => ?_,
    fun i chunk' hi p sr hs => ?_, hsplit ▸ h.migrationNum, hsplit ▸ h.migratingOut, ?_, ?_⟩
  · obtain ⟨chunk₁, h₁, hmig, -⟩ := hat i chunk' hi
    rw [hmig, h.migrating i chunk₁ h₁ p, hsplit]
  · obtain ⟨chunk₁, h₁, -, hst⟩ := hat i chunk' hi
    have hold := h.stable i chunk₁ chunk₀' h₁ hi₀ p slot
    rw [hsplit, exists_mem_append_singleton]
    unfold stableHas at hold ⊢
    rw [hst p]
    split
    · next hij =>
        -- the part the entry came from takes its ranges
        simp only [mergeInto, Option.some.injEq, exists_eq_left']
        rw [contains_mergeStable (h.proper i chunk₁ h₁ p) hproper, hold, hhome, ← hij]
        simp only [true_and, or_assoc]
    · next hij =>
        have hne : (j, q.val) ≠ (i, p.val) := fun he => hij he.symm
        rw [hold, hhome]
        simp only [hne, false_and, or_false]
  · obtain ⟨chunk₁, h₁, -, hst⟩ := hat i chunk' hi
    rw [hst p] at hs
    split at hs
    · simp only [mergeInto, Option.some.injEq] at hs
      subst hs
      exact (RangeList.compact_canonical _).proper
    · exact h.proper i chunk₁ h₁ p sr hs
  · rw [entries_restable (updateChunk?_isSome hchunk fun chunk => chunk.updateStable q (mergeInto a)),
      h.countAll, hsplit]
  · intro key
    rw [entries_restable (updateChunk?_isSome hchunk fun chunk => chunk.updateStable q (mergeInto a)),
      h.countHome, hsplit]

/-- A kept migration: pushed again at its source, and as its importing copy
at its destination. -/
theorem LimitInv.keep (h : LimitInv c limit.toNat P st) {j j' : Nat} {q q' : Fin 2}
    {chunk chunk' : ChunkStore} (hm : a.isMigrating = true) (hhome : a.home = (j, q.val))
    (haway : a.away = (j', q'.val)) (hchunk : st.chunks[j]? = some chunk)
    (hchunk' : (st.chunks.set j (chunk.updateMigrating q (· ++ [a])))[j']? = some chunk')
    (hcond : ¬((limitSplit limit.toNat P).1.length ≥ limit.toNat ∨
      (limitSplit limit.toNat P).1.countP (fun k => decide (k.home = a.home)) ≥ maxMigratingOut)) :
    LimitInv c limit.toNat (P ++ [a]) ⟨(st.chunks.set j (chunk.updateMigrating q (· ++ [a]))).set j'
        (chunk'.updateMigrating q' (· ++ [{ a with isMigrating := false }])), st.migrationNum + 1,
      Function.update st.migratingOut a.home (st.migratingOut a.home + 1)⟩ := by
  have hsplit := limitSplit_keep hm hcond
  have h₁ := updateChunk?_isSome hchunk fun chunk => chunk.updateMigrating q (· ++ [a])
  have h₂ := updateChunk?_isSome hchunk' fun chunk =>
    chunk.updateMigrating q' (· ++ [{ a with isMigrating := false }])
  obtain ⟨hlen₁, hat₁⟩ := getElem?_push h₁
  obtain ⟨hlen₂, hat₂⟩ := getElem?_push h₂
  -- a chunk of the new state, the one before the second push, and the one before both
  have hat : ∀ i chunk₂, ((st.chunks.set j (chunk.updateMigrating q (· ++ [a]))).set j'
      (chunk'.updateMigrating q' (· ++ [{ a with isMigrating := false }])))[i]? = some chunk₂ →
      ∃ chunk₀, st.chunks[i]? = some chunk₀ ∧ chunk₂.stableSlots = chunk₀.stableSlots ∧
        ∀ p : Fin 2, chunk₂.migratingSlots p = chunk₀.migratingSlots p ++ pushes i p a := by
    intro i chunk₂ hi
    obtain ⟨chunk₁, hc₁, hs₂, hm₂⟩ := hat₂ i chunk₂ hi
    obtain ⟨chunk₀, hc₀, hs₁, hm₁⟩ := hat₁ i chunk₁ hc₁
    refine ⟨chunk₀, hc₀, hs₂.trans hs₁, fun p => ?_⟩
    rw [hm₂ p, hm₁ p, pushes, hhome, haway, partner_of_isMigrating hm, List.append_assoc]
  refine ⟨hlen₂.trans (hlen₁.trans h.length), fun i chunk₂ hi p => ?_,
    fun i chunk₂ chunk₀' hi hi₀ p slot => ?_, fun i chunk₂ hi p sr hs => ?_, ?_, fun key => ?_, ?_,
    fun key => ?_⟩
  · obtain ⟨chunk₀, hc₀, -, hmig⟩ := hat i chunk₂ hi
    rw [hmig p, h.migrating i chunk₀ hc₀ p, hsplit, List.flatMap_append, List.flatMap_singleton]
  · obtain ⟨chunk₀, hc₀, hst, -⟩ := hat i chunk₂ hi
    rw [hsplit]
    unfold stableHas
    rw [hst]
    exact h.stable i chunk₀ chunk₀' hc₀ hi₀ p slot
  · obtain ⟨chunk₀, hc₀, hst, -⟩ := hat i chunk₂ hi
    rw [hst] at hs
    exact h.proper i chunk₀ hc₀ p sr hs
  · show st.migrationNum + 1 = _
    rw [h.migrationNum, hsplit, List.length_append, List.length_singleton]
  · show Function.update st.migratingOut a.home (st.migratingOut a.home + 1) key = _
    rw [hsplit, List.countP_append]
    by_cases hk : key = a.home
    · subst hk
      rw [Function.update_self, h.migratingOut]
      simp
    · rw [Function.update_of_ne hk, h.migratingOut]
      simp [Ne.symm hk]
  · show (entries _).countP _ = _
    rw [countP_entries_push h₂, countP_entries_push h₁, h.countAll, hsplit]
    simp [hm]
  · show (entries _).countP _ = _
    rw [countP_entries_push h₂, countP_entries_push h₁, h.countHome, hsplit, List.countP_append]
    simp [hm]

theorem LimitInv.step (hc : c.SlotInvariant) (h : LimitInv c limit.toNat P st)
    (ha : a ∈ entries c.chunks) :
    ∃ st', limitStep limit st a = some st' ∧ LimitInv c limit.toNat (P ++ [a]) st' := by
  cases hm : a.isMigrating with
  | false => exact ⟨st, limitStep_skip hm, h.skip hm⟩
  | true =>
      obtain ⟨j, chunk₀, hj₀, q, haq⟩ := mem_entries.mp ha
      have hhome := hc.paired.home_eq hj₀ haq
      have hsrc := hhome
      rw [home_of_isMigrating hm, Prod.mk.injEq] at hsrc
      obtain ⟨chunk, hchunk⟩ : ∃ chunk, st.chunks[j]? = some chunk :=
        List.getElem?_eq_some_iff.mpr ⟨by rw [h.length]; exact (List.getElem?_eq_some_iff.mp hj₀).1, rfl⟩
          |> fun h' => ⟨_, h'⟩
      -- the loop's counters are those of the decisions
      have hcond : (st.migrationNum ≥ limit.toNat ∨
          st.migratingOut (a.taskMeta.srcChunkIndex, a.taskMeta.srcChunkPart) ≥ maxMigratingOut) ↔
          ((limitSplit limit.toNat P).1.length ≥ limit.toNat ∨
            (limitSplit limit.toNat P).1.countP (fun k => decide (k.home = a.home)) ≥ maxMigratingOut) := by
        rw [h.migrationNum, h.migratingOut, ← home_of_isMigrating hm]
      by_cases hdefer : st.migrationNum ≥ limit.toNat ∨
          st.migratingOut (a.taskMeta.srcChunkIndex, a.taskMeta.srcChunkPart) ≥ maxMigratingOut
      · exact ⟨_, limitStep_defer hm hsrc.1 hsrc.2 hchunk hdefer,
          h.defer hc hm hhome hchunk hj₀ haq (hcond.mp hdefer)⟩
      · obtain ⟨chunk₀', q', hj₀', hq'⟩ := hc.paired.away_exists hj₀ haq
        rw [away_of_isMigrating hm] at hj₀' hq'
        have hq'' : a.taskMeta.dstChunkPart = q'.val := partIndex?_eq_some.mp hq'
        obtain ⟨chunk', hchunk'⟩ : ∃ chunk',
            (st.chunks.set j (chunk.updateMigrating q (· ++ [a])))[a.taskMeta.dstChunkIndex]? = some chunk' :=
          ⟨_, List.getElem?_eq_some_iff.mpr ⟨by
            rw [List.length_set, h.length]; exact (List.getElem?_eq_some_iff.mp hj₀').1, rfl⟩⟩
        have hkeep := limitStep_keep hm hsrc.1 hsrc.2 rfl hq'' hchunk hchunk' hdefer
        rw [← home_of_isMigrating hm] at hkeep
        exact ⟨_, hkeep, h.keep hm hhome (by rw [away_of_isMigrating hm, hq'']) hchunk hchunk'
          fun h' => hdefer (hcond.mpr h')⟩

end Step

/-! ## What the loop leaves -/

theorem mem_pushes {i p : Nat} {k e : MigrationSlotRangeStore} :
    e ∈ pushes i p k ↔ ((i, p) = k.home ∧ e = k) ∨ ((i, p) = k.away ∧ e = k.partner) := by
  unfold pushes
  by_cases h₁ : (i, p) = k.home <;> by_cases h₂ : (i, p) = k.away <;> simp [h₁, h₂]

theorem count_pushes {i p : Nat} (k v : MigrationSlotRangeStore) :
    (pushes i p k).count v =
      (if (i, p) = k.home ∧ k = v then 1 else 0) + (if (i, p) = k.away ∧ k.partner = v then 1 else 0) := by
  unfold pushes
  rw [List.count_append]
  congr 1
  · by_cases h₂ : k = v
    · subst h₂
      by_cases h₁ : (i, p) = k.home <;> simp [h₁]
    · split <;> simp [h₂]
  · by_cases h₂ : k.partner = v
    · subst h₂
      by_cases h₁ : (i, p) = k.away <;> simp [h₁]
    · split <;> simp [h₂]

/-- A migrating entry among the pushes is the kept migration itself. -/
theorem mem_pushes_of_isMigrating {i p : Nat} {k e : MigrationSlotRangeStore}
    (hk : k.isMigrating = true) (he : e ∈ pushes i p k) (hme : e.isMigrating = true) :
    e = k ∧ (i, p) = k.home := by
  rcases mem_pushes.mp he with ⟨hpos, rfl⟩ | ⟨-, rfl⟩
  · exact ⟨rfl, hpos⟩
  · simp [hk] at hme

/-- Counting the copies of one entry over what a list of migrations pushes. -/
theorem count_flatMap_of_eq {K : List MigrationSlotRangeStore} {f : MigrationSlotRangeStore → List MigrationSlotRangeStore}
    {v w : MigrationSlotRangeStore} (hf : ∀ k ∈ K, (f k).count v = if k = w then 1 else 0) :
    (K.flatMap f).count v = K.count w := by
  induction K with
  | nil => rfl
  | cons k K ih =>
      rw [List.flatMap_cons, List.count_append, hf k List.mem_cons_self,
        ih fun k' hk' => hf k' (List.mem_cons_of_mem _ hk'), List.count_cons]
      by_cases hkw : k = w <;> simp [hkw, Nat.add_comm]

/-- At the destination of a kept migration, only it pushes its importing copy. -/
theorem count_pushes_partner {i p : Nat} {k k' : MigrationSlotRangeStore} (hk : k.isMigrating = true)
    (hk' : k'.isMigrating = true) (hpos : (i, p) = k.away) :
    (pushes i p k').count k.partner = if k' = k then 1 else 0 := by
  have hne : k' ≠ k.partner := fun h => by simp [h, hk] at hk'
  rw [count_pushes]
  simp only [hne, and_false, if_false, Nat.zero_add]
  by_cases hkk : k' = k
  · subst hkk
    simp [hpos]
  · have hpne : k'.partner ≠ k.partner := fun h => hkk (partner_inj h)
    simp [hpne, hkk]

/-- At the source of a kept migration, only it pushes itself. -/
theorem count_pushes_self {i p : Nat} {k k' : MigrationSlotRangeStore} (hk : k.isMigrating = true)
    (hk' : k'.isMigrating = true) (hpos : (i, p) = k.home) :
    (pushes i p k').count k = if k' = k then 1 else 0 := by
  have hne : k'.partner ≠ k := fun h => by rw [← h] at hk; simp [hk'] at hk
  rw [count_pushes]
  simp only [hne, and_false, if_false, Nat.add_zero]
  by_cases hkk : k' = k
  · subst hkk
    simp [hpos]
  · simp [hkk]

section Result

variable {c : ClusterStore} {limit : Nat} {st : LimitState}

theorem kept_mem_entries {k : MigrationSlotRangeStore} (hk : k ∈ (limitSplit limit (entries c.chunks)).1) :
    k ∈ entries c.chunks ∧ k.isMigrating = true :=
  ((splitFacts limit _).mem_iff k).mp (Or.inl hk)

/-- A position of the cluster holds what the kept migrations push onto it. -/
theorem LimitInv.entriesAt_eq {P : List MigrationSlotRangeStore} (h : LimitInv c limit P st) {x y : Nat}
    {chunk₀ : ChunkStore} (hx : c.chunks[x]? = some chunk₀) {q : Fin 2} (hy : partIndex? y = some q) :
    entriesAt st.chunks x y = (limitSplit limit P).1.flatMap (pushes x y) := by
  obtain ⟨chunk, hchunk⟩ : ∃ chunk, st.chunks[x]? = some chunk :=
    ⟨_, List.getElem?_eq_some_iff.mpr ⟨by rw [h.length]; exact (List.getElem?_eq_some_iff.mp hx).1, rfl⟩⟩
  rw [partIndex?_eq_some.mp hy, entriesAt_of_getElem? hchunk, h.migrating x chunk hchunk q]

/-- The migrating entries left are kept migrations, at their sources. -/
theorem LimitInv.mem_migrating (h : LimitInv c limit (entries c.chunks) st) {i : Nat} {chunk : ChunkStore}
    (hi : st.chunks[i]? = some chunk) {p : Fin 2} {e : MigrationSlotRangeStore}
    (he : e ∈ chunk.migratingSlots p) (hme : e.isMigrating = true) :
    e ∈ (limitSplit limit (entries c.chunks)).1 ∧ (i, p.val) = e.home := by
  rw [h.migrating i chunk hi p] at he
  obtain ⟨k, hk, hek⟩ := List.mem_flatMap.mp he
  obtain ⟨rfl, hpos⟩ := mem_pushes_of_isMigrating ((splitFacts limit _).kept_migrating hk) hek hme
  exact ⟨hk, hpos⟩

/-- The result is paired again: each kept migration has its one importing
copy, and no importing entry is left without its migration. -/
theorem LimitInv.paired (hc : c.SlotInvariant) (h : LimitInv c limit (entries c.chunks) st) :
    Paired st.chunks := by
  intro i chunk hi p e he
  rw [h.migrating i chunk hi p] at he
  obtain ⟨k, hk, hek⟩ := List.mem_flatMap.mp he
  have hfacts := splitFacts limit (entries c.chunks)
  have hkm := hfacts.kept_migrating hk
  -- both ends of a kept migration are positions of the cluster
  obtain ⟨j, chunk₀, hj₀, q, hkq⟩ := mem_entries.mp (kept_mem_entries hk).1
  have hhome := hc.paired.home_eq hj₀ hkq
  obtain ⟨chunk₀', q', hj₀', hq'⟩ := hc.paired.away_exists hj₀ hkq
  rcases mem_pushes.mp hek with ⟨hpos, rfl⟩ | ⟨hpos, rfl⟩
  · refine ⟨hpos.symm, ?_⟩
    rw [h.entriesAt_eq hj₀' hq', @count_flatMap_of_eq _ (pushes e.away.1 e.away.2) e.partner e
      fun k' hk' => count_pushes_partner hkm (hfacts.kept_migrating hk') rfl]
    exact count_kept hk
  · refine ⟨by rw [home_partner, hpos], ?_⟩
    rw [away_partner, partner_partner, hhome, h.entriesAt_eq hj₀ (partIndex?_val q),
      @count_flatMap_of_eq _ (pushes j q.val) k k
        fun k' hk' => count_pushes_self hkm (hfacts.kept_migrating hk') hhome.symm]
    exact count_kept hk

/-- Every master owns the slots it owned: what stays migrating is still its,
and what was deferred is back in its stable slots. -/
theorem LimitInv.owns_iff (hc : c.SlotInvariant) (h : LimitInv c limit (entries c.chunks) st) {i : Nat}
    {chunk chunk₀ : ChunkStore} (hi : st.chunks[i]? = some chunk) (hi₀ : c.chunks[i]? = some chunk₀)
    (p : Fin 2) (slot : Nat) : owns chunk p slot ↔ owns chunk₀ p slot := by
  have hfacts := splitFacts limit (entries c.chunks)
  have hst := h.stable i chunk chunk₀ hi hi₀ p slot
  unfold stableHas at hst
  -- the migrating entries at the part now: the kept migrations from it
  have hnew : (∃ e ∈ chunk.migratingSlots p, e.isMigrating = true ∧ e.rangeList.contains slot) ↔
      ∃ k ∈ (limitSplit limit (entries c.chunks)).1, k.home = (i, p.val) ∧ k.rangeList.contains slot := by
    constructor
    · rintro ⟨e, he, hme, hs⟩
      obtain ⟨hk, hpos⟩ := h.mem_migrating hi he hme
      exact ⟨e, hk, hpos.symm, hs⟩
    · rintro ⟨k, hk, hpos, hs⟩
      refine ⟨k, ?_, hfacts.kept_migrating hk, hs⟩
      rw [h.migrating i chunk hi p]
      exact List.mem_flatMap.mpr ⟨k, hk, mem_pushes.mpr (Or.inl ⟨hpos.symm, rfl⟩)⟩
  -- the migrating entries at the part before: kept or deferred, from it
  have hold : (∃ e ∈ chunk₀.migratingSlots p, e.isMigrating = true ∧ e.rangeList.contains slot) ↔
      ∃ e, (e ∈ (limitSplit limit (entries c.chunks)).1 ∨ e ∈ (limitSplit limit (entries c.chunks)).2) ∧
        e.home = (i, p.val) ∧ e.rangeList.contains slot := by
    constructor
    · rintro ⟨e, he, hme, hs⟩
      have hmem : e ∈ entries c.chunks := mem_entries.mpr ⟨i, chunk₀, hi₀, p, he⟩
      exact ⟨e, (hfacts.mem_iff e).mpr ⟨hmem, hme⟩, hc.paired.home_eq hi₀ he, hs⟩
    · rintro ⟨e, hkd, hpos, hs⟩
      obtain ⟨hmem, hme⟩ := (hfacts.mem_iff e).mp hkd
      obtain ⟨j, chunk₁, hj, q, heq⟩ := mem_entries.mp hmem
      rw [hc.paired.home_eq hj heq, Prod.mk.injEq] at hpos
      obtain ⟨rfl, hq⟩ := hpos
      rw [hi₀, Option.some.injEq] at hj
      subst hj
      exact ⟨e, Fin.ext hq ▸ heq, hme, hs⟩
  rw [Undermoon.owns_iff, Undermoon.owns_iff, hst, hnew, hold]
  constructor
  · rintro ((hs | ⟨d, hd, hpos, hs⟩) | ⟨k, hk, hpos, hs⟩)
    · exact Or.inl hs
    · exact Or.inr ⟨d, Or.inr hd, hpos, hs⟩
    · exact Or.inr ⟨k, Or.inl hk, hpos, hs⟩
  · rintro (hs | ⟨e, he | he, hpos, hs⟩)
    · exact Or.inl (Or.inl hs)
    · exact Or.inr ⟨e, he, hpos, hs⟩
    · exact Or.inl (Or.inr ⟨e, he, hpos, hs⟩)

end Result

/-- `limit_migration` on a cluster store that keeps the slot-ownership and
pairing invariant: a limit of zero leaves it as it is; any other limit
succeeds and leaves every master owning the slots it owned, the migrations
paired again, the migrating entries among those stored before, at most
`migration_limit` of them, and at most one from each source part. -/
theorem limitMigration_defers {c : ClusterStore} (hc : c.SlotInvariant) (limit : UInt64) :
    (limit = 0 → c.limitMigration limit = some c) ∧
    (limit ≠ 0 → ∃ c', c.limitMigration limit = some c' ∧ c' = { c with chunks := c'.chunks } ∧
      c'.chunks.length = c.chunks.length ∧
      (∀ (i : Nat) (chunk chunk' : ChunkStore), c.chunks[i]? = some chunk → c'.chunks[i]? = some chunk' →
        ∀ p slot, owns chunk' p slot ↔ owns chunk p slot) ∧
      Paired c'.chunks ∧
      (∀ e ∈ entries c'.chunks, e.isMigrating = true → e ∈ entries c.chunks) ∧
      (entries c'.chunks).countP (·.isMigrating) ≤ limit.toNat ∧
      ∀ key, (entries c'.chunks).countP (fun e => e.isMigrating && decide (e.home = key)) ≤ 1) := by
  refine ⟨fun h0 => by simp [limitMigration, h0], fun hne => ?_⟩
  obtain ⟨st, hfold, hinv⟩ := List.foldlM_invariant (limitStep limit) (LimitInv c limit.toNat)
    (entries c.chunks) (limitInv_init hc limit.toNat)
    fun P a st hpre h => h.step hc (hpre.subset (List.mem_append_right P List.mem_cons_self))
  have hfacts := splitFacts limit.toNat (entries c.chunks)
  refine ⟨{ c with chunks := st.chunks }, by simp [limitMigration, hne, hfold], rfl, hinv.length,
    fun i chunk chunk' hi hi' p slot => hinv.owns_iff hc hi' hi p slot, hinv.paired hc, ?_, ?_, ?_⟩
  · intro e he hme
    obtain ⟨i, chunk, hi, p, hep⟩ := mem_entries.mp he
    exact (kept_mem_entries (hinv.mem_migrating hi hep hme).1).1
  · rw [hinv.countAll]
    exact hfacts.length_le
  · intro key
    rw [hinv.countHome key]
    exact hfacts.countP_home_le key

theorem Range.decide_contains (r : Range) (slot : Nat) :
    decide (r.contains slot) = (decide (r.start ≤ slot) && decide (slot ≤ r.stop)) := by
  by_cases h₁ : r.start ≤ slot <;> by_cases h₂ : slot ≤ r.stop <;> simp [Range.contains, h₁, h₂]

/-- One chunk whose second master is moving its last slots to the first. -/
def movingChunk : ChunkStore :=
  let m : MigrationMetaStore := ⟨1, 0, 1, 0, 0⟩
  ⟨.normal, ![some ⟨⟨[⟨0, 8191⟩]⟩, .none⟩, some ⟨⟨[⟨8192, 16000⟩]⟩, .none⟩],
    ![[⟨⟨[⟨16001, 16383⟩]⟩, false, m⟩], [⟨⟨[⟨16001, 16383⟩]⟩, true, m⟩]],
    !["p0", "p1"], !["h0", "h1"], !["n0", "n1", "n2", "n3"]⟩

/-- A cluster of that one chunk. -/
def movingCluster : ClusterStore := ⟨1, ClusterName.empty, [movingChunk], ClusterConfig.default⟩

theorem movingCluster_slotInvariant : movingCluster.SlotInvariant where
  proper := by decide
  once slot hslot := by
    have hranges : allOwnedRanges movingCluster.chunks = [⟨0, 8191⟩, ⟨8192, 16000⟩, ⟨16001, 16383⟩] := by
      decide
    rw [hranges]
    simp only [slotNum] at hslot
    simp only [List.countP_cons, List.countP_nil, Range.decide_contains, Bool.and_eq_true,
      decide_eq_true_eq]
    split_ifs <;> omega
  paired i chunk hi p e he := by
    cases i with
    | succ i => simp [movingCluster] at hi
    | zero =>
        simp only [movingCluster, List.getElem?_cons_zero, Option.some.injEq] at hi
        subst hi
        fin_cases p <;> simp [movingChunk] at he <;> subst he <;> decide

theorem limitMigration_defers_movingCluster :
    movingCluster.SlotInvariant ∧ (movingCluster.limitMigration 1).isSome = true := by
  refine ⟨movingCluster_slotInvariant, ?_⟩
  obtain ⟨c', h, -⟩ := (limitMigration_defers movingCluster_slotInvariant 1).2 (by decide)
  rw [h]
  rfl

end Undermoon
