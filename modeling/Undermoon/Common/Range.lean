import Undermoon.Lib.Writes

/-!
# Slot ranges and range lists

`Range(start, end)` is a closed interval of slots and `RangeList` a vector of
them, as `common/cluster.rs` has them. Nothing in the source keeps a range list
canonical by construction: `RangeList::new` calls `compact`, and every caller
that edits the ranges in place (the two migration planners, `merge_another`)
is trusted to call `compact` again. The model keeps that shape, so that a
range list is any list of ranges and canonicity is a property proved where it
holds.

`compact` is an in-place two-pointer loop over the sorted vector. The model
reads it as a recursion: `mergeSorted s rest` is the loop with the range at
index `a` in `s` and the unvisited suffix from index `b` in `rest`; the slots
between `a + 1` and `b` are never read again, so they are simply not there.

Slots and range ends are `usize` in the source and `Nat` here. The source
never subtracts past zero on a range it stores (`compact` and
`from_single_range` orient every range first), so the truncating subtraction
of `getSlotsNum` only differs from `usize` on an inverted range, which no
stored range list holds.
-/

namespace Undermoon

/-- `SLOT_NUM`: the number of hash slots of a cluster. -/
def slotNum : Nat := 16384

/-- `Range(start, end)`, both ends included. The second field is the source's
`end()`, renamed because `end` is a keyword. -/
structure Range where
  start : Nat
  stop : Nat
deriving DecidableEq, Repr, Inhabited

namespace Range

/-- The slots of one range; an inverted range holds none. -/
def contains (r : Range) (slot : Nat) : Prop := r.start ≤ slot ∧ slot ≤ r.stop

instance (r : Range) (slot : Nat) : Decidable (r.contains slot) :=
  inferInstanceAs (Decidable (_ ∧ _))

/-- The swap at the head of `compact` and in `from_single_range`: a range given
backwards is read forwards. -/
def normalize (r : Range) : Range :=
  if r.start > r.stop then ⟨r.stop, r.start⟩ else r

/-- `end - start + 1`, the summand of `get_slots_num`. -/
def slotsNum (r : Range) : Nat := r.stop - r.start + 1

theorem normalize_of_gt {r : Range} (h : r.start > r.stop) : r.normalize = ⟨r.stop, r.start⟩ :=
  if_pos h

theorem normalize_of_le {r : Range} (h : r.start ≤ r.stop) : r.normalize = r :=
  if_neg (Nat.not_lt.mpr h)

@[simp] theorem normalize_start_le (r : Range) : r.normalize.start ≤ r.normalize.stop := by
  rcases Nat.lt_or_ge r.stop r.start with h | h
  · rw [normalize_of_gt h]
    exact Nat.le_of_lt h
  · rw [normalize_of_le h]
    exact h

theorem normalize_contains (r : Range) (slot : Nat) :
    r.normalize.contains slot ↔ min r.start r.stop ≤ slot ∧ slot ≤ max r.start r.stop := by
  rcases Nat.lt_or_ge r.stop r.start with h | h
  · rw [normalize_of_gt h, contains, Nat.min_eq_right (Nat.le_of_lt h),
      Nat.max_eq_left (Nat.le_of_lt h)]
  · rw [normalize_of_le h, contains, Nat.min_eq_left h, Nat.max_eq_right h]

end Range

/-- `RangeList(Vec<Range>)`. -/
structure RangeList where
  ranges : List Range
deriving DecidableEq, Repr, Inhabited

/-- The merge loop of `RangeList::compact` on a sorted vector: `s` is the range
at index `a`, the list what index `b` has still to visit. A range that starts
at most one past `s` is absorbed into it (`s.1 = max(s.end(), e.end())`);
any other range is written at `a + 1` and becomes the new `s`. -/
def mergeSorted (s : Range) : List Range → List Range
  | [] => [s]
  | e :: rest =>
      if s.stop + 1 ≥ e.start then mergeSorted ⟨s.start, max s.stop e.stop⟩ rest
      else s :: mergeSorted e rest

namespace RangeList

/-- `RangeList::compact`: orient every range, sort by start with the stable
`sort_by_key`, then merge neighbours that overlap or touch; `truncate(a + 1)`
keeps the merged prefix, which is empty when the vector was. Two stable sorts
by one key give one result (`List.mergeSort_eq_insertionSort`); the insertion
sort is the one that evaluates by `decide`. -/
def compact (rl : RangeList) : RangeList :=
  match (rl.ranges.map Range.normalize).insertionSort (fun a b => a.start ≤ b.start) with
  | [] => ⟨[]⟩
  | s :: rest => ⟨mergeSorted s rest⟩

/-- `RangeList::new`. -/
def new (ranges : List Range) : RangeList := compact ⟨ranges⟩

/-- `RangeList::from_single_range`: one range, oriented, with no further
compaction. -/
def fromSingleRange (r : Range) : RangeList := ⟨[r.normalize]⟩

/-- `RangeList::merge`: the ranges of all lists, in order, compacted. -/
def merge (rls : List RangeList) : RangeList := new (rls.flatMap ranges)

/-- `merge_another`: `self` takes the ranges of `other` and is compacted
(`other` is left empty, which no caller reads). -/
def mergeAnother (self other : RangeList) : RangeList := compact ⟨self.ranges ++ other.ranges⟩

/-- `get_slots_num`. -/
def getSlotsNum (rl : RangeList) : Nat := (rl.ranges.map Range.slotsNum).sum

/-- The slots a range list covers. -/
def contains (rl : RangeList) (slot : Nat) : Prop := ∃ r ∈ rl.ranges, r.contains slot

instance (rl : RangeList) (slot : Nat) : Decidable (rl.contains slot) :=
  inferInstanceAs (Decidable (∃ r ∈ rl.ranges, _))

@[simp] theorem contains_mk (rs : List Range) (slot : Nat) :
    (RangeList.mk rs).contains slot ↔ ∃ r ∈ rs, r.contains slot := Iff.rfl

end RangeList

/-- `usize::checked_sub`. -/
def checkedSub (a b : Nat) : Option Nat := if b ≤ a then some (a - b) else none

/-- `RangeMap`: a flag for each slot from `min_slot` on. -/
structure RangeMap where
  minSlot : Nat
  existsMap : List Bool
deriving DecidableEq, Repr

namespace RangeMap

/-- The length `max_slot - min_slot + 1` of the flags, in `usize` as the
release build computes it (it does not check overflow). When the first range
starts after the last one ends, the subtraction wraps: the length wraps back
to zero if the two are adjacent, and is otherwise above `isize::MAX`, where
`vec!` panics. Both slots are below `SLOT_NUM`, so there is no third case. -/
def mapLen (minSlot maxSlot : Nat) : Option Nat :=
  if minSlot ≤ maxSlot then some (maxSlot - minSlot + 1)
  else if maxSlot + 1 = minSlot then some 0
  else none

/-- The inner loop of `RangeMap::from`: raise the flag of every slot of the
range at or above `min_slot` that the flags reach. -/
def markRange (minSlot : Nat) (existsMap : List Bool) (r : Range) : List Bool :=
  (List.range' r.start (r.stop + 1 - r.start)).foldl
    (List.writeAt (fun slot => checkedSub slot minSlot) true) existsMap

/-- `impl From<&RangeList> for RangeMap`: the flags run from the start of
the first range to the end of the last, and are empty if either is past the
slots. `none` is the panic of `vec!`. -/
def ofRangeList (rl : RangeList) : Option RangeMap :=
  let minSlot := rl.ranges.head?.bind fun r => if r.start ≥ slotNum then none else some r.start
  let maxSlot := rl.ranges.getLast?.bind fun r => if r.stop ≥ slotNum then none else some r.stop
  let bounds : Option (Nat × Nat) :=
    match minSlot, maxSlot with
    | some minSlot, some maxSlot => (mapLen minSlot maxSlot).map fun len => (minSlot, len)
    | _, _ => some (0, 0)
  bounds.map fun (minSlot, len) =>
    ⟨minSlot, rl.ranges.foldl (markRange minSlot) (List.replicate len false)⟩

/-- `contains_slot`. -/
def containsSlot (m : RangeMap) (slot : Nat) : Bool :=
  ((checkedSub slot m.minSlot).bind fun i => m.existsMap[i]?) == some true

end RangeMap

end Undermoon
