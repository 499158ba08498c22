import Undermoon.Common.Range

/-!
# The canonical form of a range list, and its bitmap

A range list stands for a set of slots: the union of its ranges, each read
forwards. `compact` puts it in the form its comment promises ("for any
i < j, i.start <= i.end < j.start <= j.end"), and more: neighbours are
separated by at least one missing slot, since the merge loop absorbs a range
that only touches the one before it. A list in that form is fixed by its set
of slots (`Canonical.ext`): the first start is the least slot, the first end
is the last slot before the first gap, and the rest is the canonical form of
what is left. So `compact` is idempotent, and two range lists compact to the
same vector exactly when they stand for the same slots, which is what
`commit_migration` and the migration task map rely on when they compare
range lists with `==`.

The merge loop `mergeSorted` is read by functional induction. What it is
given, ranges read forwards and sorted by start with the running range first,
is `MergeReady`, and each of its two moves keeps it.

`RangeMap` is the bitmap the scan tasks test slots against. On a canonical
list it agrees with the list exactly when the last range ends below
`SLOT_NUM`; otherwise its flags are empty and it holds no slot.
-/

namespace Undermoon

namespace RangeList

/-- The slots a range list stands for: the union of `[min(a, b), max(a, b)]`
over its ranges. -/
def covers (rl : RangeList) (slot : Nat) : Prop :=
  ∃ r ∈ rl.ranges, min r.start r.stop ≤ slot ∧ slot ≤ max r.start r.stop

instance (rl : RangeList) (slot : Nat) : Decidable (rl.covers slot) :=
  inferInstanceAs (Decidable (∃ r ∈ rl.ranges, _))

/-- Ranges read forwards, each more than one slot past the one before. -/
structure Canonical (rl : RangeList) : Prop where
  proper : ∀ r ∈ rl.ranges, r.start ≤ r.stop
  separated : rl.ranges.Pairwise fun r r' => r.stop + 1 < r'.start

/-! ## A canonical list is fixed by its slots -/

section Canonical

variable {r : Range} {t : List Range}

theorem Canonical.tail (h : Canonical ⟨r :: t⟩) : Canonical ⟨t⟩ where
  proper q hq := h.proper q (List.mem_cons_of_mem r hq)
  separated := (List.pairwise_cons.mp h.separated).2

theorem Canonical.sorted {rl : RangeList} (h : Canonical rl) :
    rl.ranges.Pairwise fun r r' => r.start < r'.start :=
  h.separated.imp_of_mem fun ha _ hab => by
    have := h.proper _ ha
    omega

/-- The slots of the tail lie more than one slot past the head. -/
theorem Canonical.lt_of_mem_tail (h : Canonical ⟨r :: t⟩) {q : Range} (hq : q ∈ t) {x : Nat}
    (hx : q.contains x) : r.stop + 1 < x := by
  have hsep := (List.pairwise_cons.mp h.separated).1 q hq
  exact Nat.lt_of_lt_of_le hsep hx.1

theorem Canonical.start_le (h : Canonical ⟨r :: t⟩) {x : Nat} (hx : (RangeList.mk (r :: t)).contains x) :
    r.start ≤ x := by
  obtain ⟨q, hq, hqx⟩ := hx
  rcases List.mem_cons.mp hq with rfl | hq
  · exact hqx.1
  · have hlt := h.lt_of_mem_tail hq hqx
    have hr := h.proper r List.mem_cons_self
    omega

/-- The slot right after the head is missing. -/
theorem Canonical.not_contains_succ (h : Canonical ⟨r :: t⟩) :
    ¬ (RangeList.mk (r :: t)).contains (r.stop + 1) := by
  rintro ⟨q, hq, hqx⟩
  rcases List.mem_cons.mp hq with rfl | hq
  · exact absurd hqx.2 (Nat.not_succ_le_self _)
  · exact absurd (h.lt_of_mem_tail hq hqx) (Nat.lt_irrefl _)

theorem Canonical.tail_contains (h : Canonical ⟨r :: t⟩) {x : Nat} :
    (RangeList.mk t).contains x ↔ (RangeList.mk (r :: t)).contains x ∧ r.stop < x := by
  constructor
  · rintro ⟨q, hq, hqx⟩
    have := h.lt_of_mem_tail hq hqx
    exact ⟨⟨q, List.mem_cons_of_mem r hq, hqx⟩, by omega⟩
  · rintro ⟨⟨q, hq, hqx⟩, hlt⟩
    rcases List.mem_cons.mp hq with rfl | hq
    · exact absurd hqx.2 (Nat.not_le_of_lt hlt)
    · exact ⟨q, hq, hqx⟩

theorem Canonical.head_eq {r' : Range} {t' : List Range} (h : Canonical ⟨r :: t⟩)
    (h' : Canonical ⟨r' :: t'⟩)
    (hc : ∀ x, (RangeList.mk (r :: t)).contains x ↔ (RangeList.mk (r' :: t')).contains x) :
    r = r' := by
  have hr := h.proper r List.mem_cons_self
  have hr' := h'.proper r' List.mem_cons_self
  -- the least slots agree
  have hstart : r.start = r'.start := by
    have h₁ := h'.start_le ((hc r.start).mp ⟨r, List.mem_cons_self, le_rfl, hr⟩)
    have h₂ := h.start_le ((hc r'.start).mpr ⟨r', List.mem_cons_self, le_rfl, hr'⟩)
    omega
  -- and so do the first gaps
  have hstop : r.stop = r'.stop := by
    rcases Nat.lt_trichotomy r.stop r'.stop with hlt | heq | hgt
    · exact absurd ((hc _).mpr ⟨r', List.mem_cons_self, by omega, hlt⟩) h.not_contains_succ
    · exact heq
    · exact absurd ((hc _).mp ⟨r, List.mem_cons_self, by omega, hgt⟩) h'.not_contains_succ
  cases r
  cases r'
  simp only at hstart hstop
  rw [hstart, hstop]

theorem Canonical.eq_of_contains :
    ∀ {l l' : List Range}, Canonical ⟨l⟩ → Canonical ⟨l'⟩ →
      (∀ x, (RangeList.mk l).contains x ↔ (RangeList.mk l').contains x) → l = l'
  | [], [], _, _, _ => rfl
  | [], r' :: _, _, h', hc => by
      have hr' := h'.proper r' List.mem_cons_self
      obtain ⟨_, hq, _⟩ := (hc r'.start).mpr ⟨r', List.mem_cons_self, le_rfl, hr'⟩
      cases hq
  | r :: _, [], h, _, hc => by
      have hr := h.proper r List.mem_cons_self
      obtain ⟨_, hq, _⟩ := (hc r.start).mp ⟨r, List.mem_cons_self, le_rfl, hr⟩
      cases hq
  | r :: t, r' :: t', h, h', hc => by
      have hhead := h.head_eq h' hc
      subst hhead
      have htail : ∀ x, (RangeList.mk t).contains x ↔ (RangeList.mk t').contains x := fun x => by
        rw [h.tail_contains, h'.tail_contains, hc x]
      rw [Canonical.eq_of_contains h.tail h'.tail htail]

/-- Two canonical lists with the same slots are equal. -/
theorem Canonical.ext {rl rl' : RangeList} (h : Canonical rl) (h' : Canonical rl')
    (hc : ∀ x, rl.contains x ↔ rl'.contains x) : rl = rl' := by
  cases rl
  cases rl'
  rw [Canonical.eq_of_contains h h' hc]

/-- On ranges read forwards, `covers` is `contains`. -/
theorem covers_iff_of_proper {rl : RangeList} (h : ∀ r ∈ rl.ranges, r.start ≤ r.stop) {x : Nat} :
    rl.covers x ↔ rl.contains x := by
  constructor
  · rintro ⟨q, hq, hqx⟩
    have hp := h q hq
    rw [Nat.min_eq_left hp, Nat.max_eq_right hp] at hqx
    exact ⟨q, hq, hqx⟩
  · rintro ⟨q, hq, hqx⟩
    have hp := h q hq
    refine ⟨q, hq, ?_⟩
    rw [Nat.min_eq_left hp, Nat.max_eq_right hp]
    exact hqx

theorem Canonical.covers_iff {rl : RangeList} (h : Canonical rl) {x : Nat} :
    rl.covers x ↔ rl.contains x :=
  covers_iff_of_proper h.proper

/-- Ranges more than one slot apart between `lo` and `bound`: at most one
for every two slots. -/
theorem Canonical.length_le {bound : Nat} :
    ∀ {l : List Range} {lo : Nat}, Canonical ⟨l⟩ → (∀ q ∈ l, lo ≤ q.start ∧ q.stop < bound) →
      2 * l.length ≤ bound + 1 - lo
  | [], _, _, _ => Nat.zero_le _
  | r :: t, lo, h, hb => by
      have hr := hb r List.mem_cons_self
      have hp := h.proper r List.mem_cons_self
      -- every range after the head starts at least two past the head's start
      have hsep := (List.pairwise_cons.mp h.separated).1
      have hb' : ∀ q ∈ t, lo + 2 ≤ q.start ∧ q.stop < bound := fun q hq =>
        ⟨by have := hsep q hq; omega, (hb q (List.mem_cons_of_mem r hq)).2⟩
      have ht := Canonical.length_le h.tail hb'
      simp only [List.length_cons]
      omega

end Canonical

/-! ## The merge loop -/

/-- What the loop of `compact` is given: the running range `s` and the
ranges still to visit, all read forwards and sorted by start. -/
structure MergeReady (s : Range) (rest : List Range) : Prop where
  proper : ∀ e ∈ s :: rest, e.start ≤ e.stop
  sorted : (s :: rest).Pairwise fun a b => a.start ≤ b.start

section MergeSorted

variable {s e : Range} {rest : List Range}

theorem MergeReady.absorb (h : MergeReady s (e :: rest)) :
    MergeReady ⟨s.start, max s.stop e.stop⟩ rest where
  proper q hq := by
    rcases List.mem_cons.mp hq with rfl | hq
    · have := h.proper s List.mem_cons_self
      exact Nat.le_trans this (Nat.le_max_left _ _)
    · exact h.proper q (List.mem_cons_of_mem s (List.mem_cons_of_mem e hq))
  sorted := by
    obtain ⟨hs, hrest⟩ := List.pairwise_cons.mp h.sorted
    exact List.pairwise_cons.mpr
      ⟨fun q hq => hs q (List.mem_cons_of_mem e hq), (List.pairwise_cons.mp hrest).2⟩

theorem MergeReady.next (h : MergeReady s (e :: rest)) : MergeReady e rest where
  proper q hq := h.proper q (List.mem_cons_of_mem s hq)
  sorted := (List.pairwise_cons.mp h.sorted).2

theorem MergeReady.start_le (h : MergeReady s (e :: rest)) : s.start ≤ e.start :=
  (List.pairwise_cons.mp h.sorted).1 e List.mem_cons_self

theorem mergeSorted_start_le (h : MergeReady s rest) :
    ∀ q ∈ mergeSorted s rest, s.start ≤ q.start := by
  fun_induction mergeSorted s rest with
  | case1 s =>
      intro q hq
      rw [List.mem_singleton.mp hq]
  | case2 s e rest _ ih => exact ih h.absorb
  | case3 s e rest _ ih =>
      intro q hq
      rcases List.mem_cons.mp hq with rfl | hq
      · exact le_rfl
      · exact Nat.le_trans h.start_le (ih h.next q hq)

theorem mergeSorted_proper (h : MergeReady s rest) :
    ∀ q ∈ mergeSorted s rest, q.start ≤ q.stop := by
  fun_induction mergeSorted s rest with
  | case1 s =>
      intro q hq
      rw [List.mem_singleton.mp hq]
      exact h.proper s List.mem_cons_self
  | case2 s e rest _ ih => exact ih h.absorb
  | case3 s e rest _ ih =>
      intro q hq
      rcases List.mem_cons.mp hq with rfl | hq
      · exact h.proper q List.mem_cons_self
      · exact ih h.next q hq

theorem mergeSorted_separated (h : MergeReady s rest) :
    (mergeSorted s rest).Pairwise fun r r' => r.stop + 1 < r'.start := by
  fun_induction mergeSorted s rest with
  | case1 s => exact List.pairwise_singleton _ s
  | case2 s e rest _ ih => exact ih h.absorb
  | case3 s e rest hgap ih =>
      -- a range written out lies more than one slot before every later one
      refine List.pairwise_cons.mpr ⟨fun q hq => ?_, ih h.next⟩
      have := mergeSorted_start_le h.next q hq
      omega

theorem mergeSorted_contains (h : MergeReady s rest) {x : Nat} :
    (RangeList.mk (mergeSorted s rest)).contains x ↔
      s.contains x ∨ (RangeList.mk rest).contains x := by
  fun_induction mergeSorted s rest with
  | case1 s => simp
  | case2 s e rest htouch ih =>
      -- the absorbed range and the running one make one interval
      have hse := h.start_le
      have hs := h.proper s List.mem_cons_self
      rw [ih h.absorb]
      simp only [Range.contains, contains_mk, List.mem_cons, exists_eq_or_imp]
      constructor
      · rintro (⟨h₁, h₂⟩ | hrest)
        · by_cases hx : x ≤ s.stop
          · exact .inl ⟨h₁, hx⟩
          · exact .inr (.inl ⟨by omega, by omega⟩)
        · exact .inr (.inr hrest)
      · rintro (⟨h₁, h₂⟩ | ⟨h₁, h₂⟩ | hrest)
        · exact .inl ⟨h₁, by omega⟩
        · exact .inl ⟨by omega, by omega⟩
        · exact .inr hrest
  | case3 s e rest _ ih =>
      have ih' := ih h.next
      simp only [contains_mk, List.mem_cons, exists_eq_or_imp] at ih' ⊢
      rw [ih']

end MergeSorted

/-! ## What `compact` computes -/

section Compact

variable {rl : RangeList}

/-- The vector `compact` merges: the ranges read forwards, sorted by start. -/
def sortedForwards (rl : RangeList) : List Range :=
  (rl.ranges.map Range.normalize).insertionSort fun a b => a.start ≤ b.start

theorem compact_eq (rl : RangeList) :
    compact rl = match sortedForwards rl with
      | [] => ⟨[]⟩
      | s :: rest => ⟨mergeSorted s rest⟩ := rfl

theorem mem_sortedForwards {q : Range} :
    q ∈ sortedForwards rl ↔ ∃ r ∈ rl.ranges, r.normalize = q := by
  rw [sortedForwards, (List.perm_insertionSort _ _).mem_iff, List.mem_map]

theorem sortedForwards_contains {x : Nat} :
    (RangeList.mk (sortedForwards rl)).contains x ↔ rl.covers x := by
  constructor
  · rintro ⟨q, hq, hqx⟩
    obtain ⟨r, hr, rfl⟩ := mem_sortedForwards.mp hq
    exact ⟨r, hr, (Range.normalize_contains r x).mp hqx⟩
  · rintro ⟨r, hr, hrx⟩
    exact ⟨r.normalize, mem_sortedForwards.mpr ⟨r, hr, rfl⟩, (Range.normalize_contains r x).mpr hrx⟩

theorem mergeReady_sortedForwards {s : Range} {rest : List Range}
    (h : sortedForwards rl = s :: rest) : MergeReady s rest where
  proper q hq := by
    rw [← h] at hq
    obtain ⟨r, -, rfl⟩ := mem_sortedForwards.mp hq
    exact Range.normalize_start_le r
  sorted := by
    have : Std.Total fun a b : Range => a.start ≤ b.start :=
      ⟨fun a b => Nat.le_total a.start b.start⟩
    have : IsTrans Range fun a b => a.start ≤ b.start := ⟨fun _ _ _ => Nat.le_trans⟩
    rw [← h]
    exact List.pairwise_insertionSort _ _

theorem compact_canonical (rl : RangeList) : Canonical (compact rl) := by
  rw [compact_eq]
  split
  · exact ⟨fun _ h => (nomatch h), List.Pairwise.nil⟩
  · next s rest h =>
      exact ⟨mergeSorted_proper (mergeReady_sortedForwards h),
        mergeSorted_separated (mergeReady_sortedForwards h)⟩

theorem compact_contains (rl : RangeList) (x : Nat) : (compact rl).contains x ↔ rl.covers x := by
  rw [← sortedForwards_contains, compact_eq]
  split
  · next h => rw [h]
  · next s rest h =>
      rw [mergeSorted_contains (mergeReady_sortedForwards h), h]
      simp only [contains_mk, List.mem_cons, exists_eq_or_imp]

/-- A canonical list is its own compaction. -/
theorem Canonical.compact_eq (h : Canonical rl) : compact rl = rl :=
  (compact_canonical rl).ext h fun x => by rw [compact_contains, h.covers_iff]

theorem compact_compact (rl : RangeList) : compact (compact rl) = compact rl :=
  (compact_canonical _).ext (compact_canonical rl) fun x => by
    rw [compact_contains, (compact_canonical rl).covers_iff]

theorem compact_eq_compact_iff (rl rl' : RangeList) :
    compact rl = compact rl' ↔ ∀ x, rl.covers x ↔ rl'.covers x := by
  constructor
  · intro h x
    rw [← compact_contains, ← compact_contains, h]
  · intro h
    refine (compact_canonical rl).ext (compact_canonical rl') fun x => ?_
    rw [compact_contains, compact_contains, h]

/-- `RangeList::compact` gives the canonical form of the slots its input
stands for: ranges read forwards, sorted, more than one slot apart, covering
the union of the input's ranges each read forwards. So it is idempotent, and
two range lists compact to the same vector exactly when they stand for the
same slots. -/
theorem compact_canonical_form (rl : RangeList) :
    (∀ r ∈ (compact rl).ranges, r.start ≤ r.stop) ∧
    (compact rl).ranges.Pairwise (fun r r' => r.start < r'.start) ∧
    (compact rl).ranges.Pairwise (fun r r' => r.stop + 1 < r'.start) ∧
    (∀ slot, (compact rl).contains slot ↔
      ∃ r ∈ rl.ranges, min r.start r.stop ≤ slot ∧ slot ≤ max r.start r.stop) ∧
    compact (compact rl) = compact rl ∧
    ∀ rl' : RangeList, compact rl = compact rl' ↔ ∀ slot, rl.covers slot ↔ rl'.covers slot :=
  ⟨(compact_canonical rl).proper, (compact_canonical rl).sorted, (compact_canonical rl).separated,
    compact_contains rl, compact_compact rl, compact_eq_compact_iff rl⟩

end Compact

end RangeList

/-! ## The bitmap -/

namespace RangeMap

theorem checkedSub_eq_some {a b i : Nat} : checkedSub a b = some i ↔ a = b + i := by
  unfold checkedSub
  split
  · constructor
    · intro h
      cases h
      omega
    · intro h
      rw [h, Nat.add_sub_cancel_left]
  · constructor
    · intro h
      cases h
    · intro h
      omega

/-- One range raises the flag of every slot it holds. -/
theorem getElem?_markRange (minSlot : Nat) (existsMap : List Bool) (r : Range) (i : Nat) :
    (markRange minSlot existsMap r)[i]? =
      if r.contains (minSlot + i) then existsMap[i]?.map (fun _ => true) else existsMap[i]? := by
  unfold markRange
  rw [List.getElem?_foldl_writeAt]
  have hiff : (∃ x ∈ List.range' r.start (r.stop + 1 - r.start), checkedSub x minSlot = some i) ↔
      r.contains (minSlot + i) := by
    simp only [checkedSub_eq_some, exists_eq_right, List.mem_range'_1, Range.contains]
    omega
  by_cases hc : r.contains (minSlot + i)
  · rw [if_pos (hiff.mpr hc), if_pos hc]
  · rw [if_neg (mt hiff.mp hc), if_neg hc]

/-- The flags after every range: a flag within the map is up exactly when a
range holds its slot. -/
theorem getElem?_flags (minSlot len : Nat) (rl : RangeList) (i : Nat) :
    (rl.ranges.foldl (markRange minSlot) (List.replicate len false))[i]? =
      if i < len then some (decide (rl.contains (minSlot + i))) else none := by
  rw [List.getElem?_foldl_of_writes (markRange minSlot) (fun r i => r.contains (minSlot + i)) true
    (getElem?_markRange minSlot) rl.ranges, List.getElem?_replicate]
  by_cases hi : i < len
  · by_cases hc : rl.contains (minSlot + i)
    · have hc' : ∃ r ∈ rl.ranges, r.contains (minSlot + i) := hc
      simp [hi, hc, hc']
    · have hc' : ¬ ∃ r ∈ rl.ranges, r.contains (minSlot + i) := hc
      simp [hi, hc, hc']
  · simp [hi]

theorem containsSlot_mk (minSlot len : Nat) (rl : RangeList) (slot : Nat) :
    containsSlot ⟨minSlot, rl.ranges.foldl (markRange minSlot) (List.replicate len false)⟩ slot =
      true ↔ minSlot ≤ slot ∧ slot < minSlot + len ∧ rl.contains slot := by
  unfold containsSlot
  cases hsub : checkedSub slot minSlot with
  | none =>
      have : ¬ minSlot ≤ slot := fun hle => by
        unfold checkedSub at hsub
        rw [if_pos hle] at hsub
        cases hsub
      simp [this]
  | some i =>
      have hslot := checkedSub_eq_some.mp hsub
      subst hslot
      simp only [Option.bind_some, getElem?_flags]
      by_cases hi : i < len
      · simp [hi]
      · simp only [hi, if_false]
        simp only [reduceCtorEq, beq_iff_eq, false_iff]
        omega

/-- Every range of a canonical list lies between the first start and the
last end. -/
theorem bounds_of_canonical {rl : RangeList} (h : RangeList.Canonical rl) {first last : Range}
    (hfirst : rl.ranges.head? = some first) (hlast : rl.ranges.getLast? = some last) {x : Nat}
    (hx : rl.contains x) : first.start ≤ x ∧ x ≤ last.stop := by
  obtain ⟨t, ht⟩ := List.head?_eq_some_iff.mp hfirst
  obtain ⟨init, hinit⟩ := List.getLast?_eq_some_iff.mp hlast
  obtain ⟨q, hq, hqx⟩ := hx
  have hstart : first.start ≤ x := by
    cases rl
    subst ht
    exact h.start_le ⟨q, hq, hqx⟩
  refine ⟨hstart, ?_⟩
  -- a range before the last ends before it starts
  rw [hinit] at hq
  have hsep := h.separated
  rw [hinit, List.pairwise_append] at hsep
  rcases List.mem_append.mp hq with hq | hq
  · have hlt := hsep.2.2 q hq last (List.mem_singleton_self last)
    have hp := h.proper last (by rw [hinit]; exact List.mem_append_right _ (List.mem_singleton_self last))
    have := hqx.2
    omega
  · rw [List.mem_singleton.mp hq] at hqx
    exact hqx.2

/-- On a canonical list the bitmap holds a slot exactly when the last range
ends below `SLOT_NUM` and the list holds the slot. -/
theorem containsSlot_of_canonical {rl : RangeList} (h : RangeList.Canonical rl) (slot : Nat) :
    ∃ m, ofRangeList rl = some m ∧
      (m.containsSlot slot = true ↔
        (∃ r, rl.ranges.getLast? = some r ∧ r.stop < slotNum) ∧ rl.contains slot) := by
  cases hfirst : rl.ranges.head? with
  | none =>
      have hnil : rl.ranges = [] := List.head?_eq_none_iff.mp hfirst
      refine ⟨⟨0, rl.ranges.foldl (markRange 0) (List.replicate 0 false)⟩, ?_, ?_⟩
      · simp [ofRangeList, hfirst]
      · rw [containsSlot_mk]
        simp [hnil]
  | some first =>
      cases hlast : rl.ranges.getLast? with
      | none =>
          have hnil : rl.ranges = [] := List.getLast?_eq_none_iff.mp hlast
          rw [hnil] at hfirst
          cases hfirst
      | some last =>
          have hfl : first.start ≤ last.stop := by
            have hp := h.proper first (List.mem_of_mem_head? hfirst)
            exact (bounds_of_canonical h hfirst hlast ⟨first, List.mem_of_mem_head? hfirst,
              le_rfl, hp⟩).2
          by_cases hend : last.stop < slotNum
          · -- the flags run from the first start to the last end
            refine ⟨⟨first.start, rl.ranges.foldl (markRange first.start)
              (List.replicate (last.stop - first.start + 1) false)⟩, ?_, ?_⟩
            · have hstart : ¬ first.start ≥ slotNum := by omega
              have hstop : ¬ last.stop ≥ slotNum := by omega
              simp [ofRangeList, hfirst, hlast, hstart, hstop, mapLen, hfl]
            · rw [containsSlot_mk]
              constructor
              · rintro ⟨-, -, hc⟩
                exact ⟨⟨last, rfl, hend⟩, hc⟩
              · rintro ⟨-, hc⟩
                have hb := bounds_of_canonical h hfirst hlast hc
                exact ⟨hb.1, by omega, hc⟩
          · -- past the slots the flags are empty
            refine ⟨⟨0, rl.ranges.foldl (markRange 0) (List.replicate 0 false)⟩, ?_, ?_⟩
            · have hstop : last.stop ≥ slotNum := by omega
              simp [ofRangeList, hfirst, hlast, hstop]
            · rw [containsSlot_mk]
              constructor
              · rintro ⟨-, h₂, -⟩
                omega
              · rintro ⟨⟨r, hr, hlt⟩, -⟩
                cases hr
                exact absurd hlt hend

/-- `RangeMap::from` on what `RangeList::new` returns holds a slot exactly
when the last range ends below `SLOT_NUM` and some range holds the slot. -/
theorem containsSlot_ofRangeList_new (ranges : List Range) (slot : Nat) :
    ∃ m, ofRangeList (RangeList.new ranges) = some m ∧
      (m.containsSlot slot = true ↔
        (∃ r, (RangeList.new ranges).ranges.getLast? = some r ∧ r.stop < slotNum) ∧
          (RangeList.new ranges).contains slot) :=
  containsSlot_of_canonical (RangeList.compact_canonical _) slot

end RangeMap

end Undermoon
