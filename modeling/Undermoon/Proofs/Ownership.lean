import Undermoon.Broker.Store

/-!
# Who owns a slot, and how migrations are paired

The invariant the broker's queries rely on, stated over the chunks of one
cluster store. A master, the half `p` of a chunk, owns the slots of its
stable range list and those of the entries it migrates out; taken over all
masters, these ranges are proper and cover each slot exactly once. A
migration is stored twice: every entry sits at its own end of the move (the
source for a migrating entry, the destination for an importing one), and the
other end holds exactly one copy of it with the flag turned over.
-/

namespace Undermoon

namespace MigrationSlotRangeStore

/-- The chunk index and part the entry must be stored at. -/
def home (e : MigrationSlotRangeStore) : Nat × Nat :=
  if e.isMigrating then (e.taskMeta.srcChunkIndex, e.taskMeta.srcChunkPart)
  else (e.taskMeta.dstChunkIndex, e.taskMeta.dstChunkPart)

/-- The other end of the move, where its copy is stored. -/
def away (e : MigrationSlotRangeStore) : Nat × Nat :=
  if e.isMigrating then (e.taskMeta.dstChunkIndex, e.taskMeta.dstChunkPart)
  else (e.taskMeta.srcChunkIndex, e.taskMeta.srcChunkPart)

/-- The copy at the other end: same ranges, same meta, the flag turned over. -/
def partner (e : MigrationSlotRangeStore) : MigrationSlotRangeStore :=
  { e with isMigrating := !e.isMigrating }

@[simp] theorem partner_isMigrating (e : MigrationSlotRangeStore) :
    e.partner.isMigrating = !e.isMigrating := rfl

@[simp] theorem partner_rangeList (e : MigrationSlotRangeStore) :
    e.partner.rangeList = e.rangeList := rfl

@[simp] theorem home_partner (e : MigrationSlotRangeStore) : e.partner.home = e.away := by
  cases h : e.isMigrating <;> simp [home, away, partner, h]

@[simp] theorem away_partner (e : MigrationSlotRangeStore) : e.partner.away = e.home := by
  cases h : e.isMigrating <;> simp [home, away, partner, h]

@[simp] theorem partner_partner (e : MigrationSlotRangeStore) : e.partner.partner = e := by
  simp [partner]

theorem partner_ne (e : MigrationSlotRangeStore) : e.partner ≠ e := by
  intro h
  have := congrArg MigrationSlotRangeStore.isMigrating h
  cases hm : e.isMigrating <;> simp [hm] at this

theorem partner_inj {e e' : MigrationSlotRangeStore} (h : e.partner = e'.partner) : e = e' := by
  cases e
  cases e'
  simp only [partner, MigrationSlotRangeStore.mk.injEq, Bool.not_inj_iff] at h ⊢
  exact h

end MigrationSlotRangeStore

/-! ## Positions -/

/-- The entries stored at part `p` of chunk `i`, none where there is no such
position. -/
def entriesAt (chunks : List ChunkStore) (i p : Nat) : List MigrationSlotRangeStore :=
  match chunks[i]?, partIndex? p with
  | some chunk, some q => chunk.migratingSlots q
  | _, _ => []

theorem partIndex?_val (p : Fin 2) : partIndex? p.val = some p := by
  rw [partIndex?, dif_pos p.isLt]

theorem partIndex?_eq_some {p : Nat} {q : Fin 2} : partIndex? p = some q ↔ p = q.val := by
  unfold partIndex?
  split
  · next h =>
      constructor
      · intro hq
        cases hq
        rfl
      · intro hq
        subst hq
        rfl
  · next h => exact ⟨(fun hq => nomatch hq), fun hq => absurd (hq ▸ q.isLt) h⟩

theorem entriesAt_of_getElem? {chunks : List ChunkStore} {i : Nat} {chunk : ChunkStore}
    (h : chunks[i]? = some chunk) (p : Fin 2) : entriesAt chunks i p = chunk.migratingSlots p := by
  simp [entriesAt, h, partIndex?_val]

/-- An entry at a position means the position exists. -/
theorem exists_of_mem_entriesAt {chunks : List ChunkStore} {i p : Nat} {e : MigrationSlotRangeStore}
    (h : e ∈ entriesAt chunks i p) :
    ∃ chunk q, chunks[i]? = some chunk ∧ partIndex? p = some q ∧ e ∈ chunk.migratingSlots q := by
  unfold entriesAt at h
  split at h
  · next chunk q hc hq => exact ⟨chunk, q, hc, hq, h⟩
  · exact absurd h List.not_mem_nil

theorem mem_entries {chunks : List ChunkStore} {e : MigrationSlotRangeStore} :
    e ∈ ClusterStore.entries chunks ↔
      ∃ (i : Nat) (chunk : ChunkStore), chunks[i]? = some chunk ∧
        ∃ p : Fin 2, e ∈ chunk.migratingSlots p := by
  unfold ClusterStore.entries
  rw [List.mem_flatMap]
  constructor
  · rintro ⟨chunk, hmem, he⟩
    obtain ⟨i, hi⟩ := List.mem_iff_getElem?.mp hmem
    rcases List.mem_append.mp he with he | he
    · exact ⟨i, chunk, hi, 0, he⟩
    · exact ⟨i, chunk, hi, 1, he⟩
  · rintro ⟨i, chunk, hi, p, he⟩
    refine ⟨chunk, List.mem_of_getElem? hi, ?_⟩
    fin_cases p
    · exact List.mem_append_left _ he
    · exact List.mem_append_right _ he

/-! ## The invariant -/

/-- The ranges master `p` of a chunk owns: its stable ranges and those of the
entries it migrates out. -/
def ownedRanges (chunk : ChunkStore) (p : Fin 2) : List Range :=
  ((chunk.stableSlots p).map (·.rangeList.ranges)).getD [] ++
    ((chunk.migratingSlots p).filter (·.isMigrating)).flatMap (·.rangeList.ranges)

/-- Master `p` of a chunk owns `slot`. -/
def owns (chunk : ChunkStore) (p : Fin 2) (slot : Nat) : Prop :=
  ∃ r ∈ ownedRanges chunk p, r.contains slot

/-- The owned ranges of every master of the cluster. -/
def allOwnedRanges (chunks : List ChunkStore) : List Range :=
  chunks.flatMap fun chunk => ownedRanges chunk 0 ++ ownedRanges chunk 1

/-- Every entry is stored at its home, and its away end holds exactly one
copy of it. -/
def Paired (chunks : List ChunkStore) : Prop :=
  ∀ (i : Nat) (chunk : ChunkStore), chunks[i]? = some chunk → ∀ (p : Fin 2),
    ∀ e ∈ chunk.migratingSlots p,
    e.home = (i, p.val) ∧ (entriesAt chunks e.away.1 e.away.2).count e.partner = 1

/-- The slot-ownership and pairing invariant of a cluster store: the owned
ranges are proper and cover every slot exactly once, and migrations are
paired. -/
structure ClusterStore.SlotInvariant (c : ClusterStore) : Prop where
  proper : ∀ r ∈ allOwnedRanges c.chunks, r.start ≤ r.stop
  once : ∀ slot < slotNum, (allOwnedRanges c.chunks).countP (fun r => decide (r.contains slot)) = 1
  paired : Paired c.chunks

theorem owns_iff {chunk : ChunkStore} {p : Fin 2} {slot : Nat} :
    owns chunk p slot ↔
      (∃ sr, chunk.stableSlots p = some sr ∧ sr.rangeList.contains slot) ∨
        ∃ e ∈ chunk.migratingSlots p, e.isMigrating = true ∧ e.rangeList.contains slot := by
  unfold owns ownedRanges
  constructor
  · rintro ⟨r, hr, hc⟩
    rcases List.mem_append.mp hr with hr | hr
    · left
      cases hs : chunk.stableSlots p with
      | none =>
          rw [hs] at hr
          exact absurd hr List.not_mem_nil
      | some sr =>
          rw [hs] at hr
          exact ⟨sr, rfl, r, hr, hc⟩
    · right
      obtain ⟨e, he, hre⟩ := List.mem_flatMap.mp hr
      obtain ⟨he, hm⟩ := List.mem_filter.mp he
      exact ⟨e, he, hm, r, hre, hc⟩
  · rintro (⟨sr, hs, r, hr, hc⟩ | ⟨e, he, hm, r, hr, hc⟩)
    · exact ⟨r, List.mem_append_left _ (by rw [hs]; exact hr), hc⟩
    · exact ⟨r, List.mem_append_right _ (List.mem_flatMap.mpr ⟨e, List.mem_filter.mpr ⟨he, hm⟩, hr⟩),
        hc⟩

theorem mem_allOwnedRanges {chunks : List ChunkStore} {i : Nat} {chunk : ChunkStore}
    (h : chunks[i]? = some chunk) (p : Fin 2) {r : Range} (hr : r ∈ ownedRanges chunk p) :
    r ∈ allOwnedRanges chunks := by
  refine List.mem_flatMap.mpr ⟨chunk, List.mem_of_getElem? h, ?_⟩
  fin_cases p
  · exact List.mem_append_left _ hr
  · exact List.mem_append_right _ hr

theorem Paired.home_eq {chunks : List ChunkStore} (h : Paired chunks) {i : Nat} {chunk : ChunkStore}
    (hc : chunks[i]? = some chunk) {p : Fin 2} {e : MigrationSlotRangeStore}
    (he : e ∈ chunk.migratingSlots p) : e.home = (i, p.val) :=
  (h i chunk hc p e he).1

/-- The away end of a stored entry is a position of the cluster. -/
theorem Paired.away_exists {chunks : List ChunkStore} (h : Paired chunks) {i : Nat}
    {chunk : ChunkStore} (hc : chunks[i]? = some chunk) {p : Fin 2} {e : MigrationSlotRangeStore}
    (he : e ∈ chunk.migratingSlots p) :
    ∃ chunk' q, chunks[e.away.1]? = some chunk' ∧ partIndex? e.away.2 = some q := by
  have hpos : 0 < (entriesAt chunks e.away.1 e.away.2).count e.partner := by
    rw [(h i chunk hc p e he).2]
    exact Nat.one_pos
  obtain ⟨chunk', q, hc', hq, -⟩ := exists_of_mem_entriesAt (List.count_pos_iff.mp hpos)
  exact ⟨chunk', q, hc', hq⟩

end Undermoon
