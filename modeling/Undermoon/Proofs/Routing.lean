import Undermoon.Proxy.Slot

/-!
# The routing table agrees with its slot map

`SlotMapData::new` visits the entries of its map one after another and
writes each entry's index at every slot its ranges hold, over whatever an
earlier entry wrote there. So after any prefix of the entries, a slot below
`SLOT_NUM` is empty exactly when no entry of the prefix holds it, and
otherwise holds the index of an entry that does (`Built`). Reading the table
back, `get` returns the address of that entry; when the addresses that share
no slot are the distinct ones, that is the one address whose ranges hold the
slot, whatever order the map was visited in.
-/

namespace Undermoon

namespace SlotMapData

/-- The `(start, end)` pairs hold `slot`. -/
def PairsHold (slots : List (Nat × Nat)) (slot : Nat) : Prop :=
  ∃ range ∈ slots, range.1 ≤ slot ∧ slot ≤ range.2

instance (slots : List (Nat × Nat)) (slot : Nat) : Decidable (PairsHold slots slot) :=
  inferInstanceAs (Decidable (∃ range ∈ slots, _))

section Fill

variable (index : Nat) (slotArr : List (Option Nat))

theorem getElem?_fillRange (start stop i : Nat) :
    (fillRange index slotArr start stop)[i]? =
      if start ≤ i ∧ i ≤ stop ∧ i < slotNum then slotArr[i]?.map (fun _ => some index)
      else slotArr[i]? := by
  unfold fillRange
  rw [List.getElem?_foldl_writeAt]
  have hiff : (∃ x ∈ (List.range' start (stop + 1 - start)).takeWhile (fun s => decide (s < slotNum)),
      some x = some i) ↔ start ≤ i ∧ i ≤ stop ∧ i < slotNum := by
    simp only [Option.some.injEq, exists_eq_right, List.mem_takeWhile_range']
    omega
  by_cases hc : start ≤ i ∧ i ≤ stop ∧ i < slotNum
  · rw [if_pos (hiff.mpr hc), if_pos hc]
  · rw [if_neg (mt hiff.mp hc), if_neg hc]

/-- An entry's ranges claim every slot they hold below `SLOT_NUM`. -/
theorem getElem?_fillSlots (slots : List (Nat × Nat)) (i : Nat) :
    (fillSlots index slotArr slots)[i]? =
      if PairsHold slots i ∧ i < slotNum then slotArr[i]?.map (fun _ => some index)
      else slotArr[i]? := by
  unfold fillSlots
  rw [List.getElem?_foldl_of_writes _ (fun range i => range.1 ≤ i ∧ i ≤ range.2 ∧ i < slotNum)
    (some index) ?step]
  case step =>
    intro arr range j
    split
    · -- an inverted range holds no slot
      rw [if_neg (by omega)]
    · exact getElem?_fillRange index arr range.1 range.2 j
  have hiff : (∃ range ∈ slots, range.1 ≤ i ∧ i ≤ range.2 ∧ i < slotNum) ↔
      PairsHold slots i ∧ i < slotNum := by
    constructor
    · rintro ⟨range, hr, h₁, h₂, h₃⟩
      exact ⟨⟨range, hr, h₁, h₂⟩, h₃⟩
    · rintro ⟨⟨range, hr, h₁, h₂⟩, h₃⟩
      exact ⟨range, hr, h₁, h₂, h₃⟩
  by_cases hc : PairsHold slots i ∧ i < slotNum
  · rw [if_pos (hiff.mpr hc), if_pos hc]
  · rw [if_neg (mt hiff.mp hc), if_neg hc]

end Fill

/-- What `new` has built after the entries `P`: their addresses in order,
a slot for each of `0..SLOT_NUM`, an empty slot held by no entry, and an
owned slot held by its owner. -/
structure Built (P : List (String × List (Nat × Nat))) (d : SlotMapData) : Prop where
  addrs : d.addrs = P.map Prod.fst
  slots : ∀ i, (d.slotArr[i]?).isSome ↔ i < slotNum
  empty : ∀ i, d.slotArr[i]? = some none → ∀ e ∈ P, ¬ PairsHold e.2 i
  owner : ∀ i k, d.slotArr[i]? = some (some k) → ∃ e, P[k]? = some e ∧ i < slotNum ∧ PairsHold e.2 i

theorem built_nil : Built [] ⟨List.replicate slotNum none, []⟩ where
  addrs := rfl
  slots i := by
    rw [List.getElem?_replicate]
    split <;> simp_all
  empty _ _ _ he := nomatch he
  owner i k h := by
    rw [List.getElem?_replicate] at h
    split at h <;> cases h

theorem Built.addEntry {P : List (String × List (Nat × Nat))} {d : SlotMapData} (h : Built P d)
    (e : String × List (Nat × Nat)) : Built (P ++ [e]) (d.addEntry e) := by
  have hidx : (d.addrs ++ [e.1]).length - 1 = P.length := by
    rw [List.length_append, h.addrs, List.length_map]
    rfl
  have hget : ∀ i, (d.addEntry e).slotArr[i]? = if PairsHold e.2 i ∧ i < slotNum then
      d.slotArr[i]?.map (fun _ => some P.length) else d.slotArr[i]? := fun i => by
    show (fillSlots ((d.addrs ++ [e.1]).length - 1) d.slotArr e.2)[i]? = _
    rw [hidx, getElem?_fillSlots]
  refine ⟨?_, fun i => ?_, fun i hi e' he' => ?_, fun i k hk => ?_⟩
  · show d.addrs ++ [e.1] = (P ++ [e]).map Prod.fst
    rw [h.addrs, List.map_append, List.map_singleton]
  · rw [hget]
    split
    · rw [Option.isSome_map]
      exact h.slots i
    · exact h.slots i
  · rw [hget] at hi
    split at hi
    · -- a claimed slot is not empty
      obtain ⟨x, -, hx⟩ := Option.map_eq_some_iff.mp hi
      cases hx
    · next hc =>
        rcases List.mem_append.mp he' with he' | he'
        · exact h.empty i hi e' he'
        · rw [List.mem_singleton.mp he']
          intro hp
          have hlt : i < slotNum := (h.slots i).mp (by rw [hi]; rfl)
          exact hc ⟨hp, hlt⟩
  · rw [hget] at hk
    split at hk
    · next hc =>
        obtain ⟨x, -, hx⟩ := Option.map_eq_some_iff.mp hk
        cases hx
        exact ⟨e, List.getElem?_concat_length, hc.2, hc.1⟩
    · obtain ⟨e', he', hlt, hp⟩ := h.owner i k hk
      have hk' : k < P.length := (List.getElem?_eq_some_iff.mp he').1
      exact ⟨e', by rw [List.getElem?_append_left hk', he'], hlt, hp⟩

theorem built_new (slotMap : List (String × List (Nat × Nat))) : Built slotMap (new slotMap) :=
  List.foldl_invariant addEntry Built built_nil (fun _ e _ h => h.addEntry e) slotMap

/-- A slot that `get` answers for is held by the entry it names. -/
theorem Built.get_sound {P : List (String × List (Nat × Nat))} {d : SlotMapData} (h : Built P d)
    {i : Nat} {a : String} (hg : d.get i = some a) :
    i < slotNum ∧ ∃ e ∈ P, e.1 = a ∧ PairsHold e.2 i := by
  unfold get at hg
  cases hs : d.slotArr[i]? with
  | none =>
      rw [hs] at hg
      cases hg
  | some o =>
      cases o with
      | none =>
          rw [hs] at hg
          cases hg
      | some k =>
          rw [hs] at hg
          obtain ⟨e, he, hlt, hp⟩ := h.owner i k hs
          have ha : d.addrs[k]? = some a := hg
          rw [h.addrs, List.getElem?_map, he] at ha
          exact ⟨hlt, e, List.mem_of_getElem? he, Option.some.inj ha, hp⟩

/-- A slot below `SLOT_NUM` held by some entry is answered for, by an
entry that holds it. -/
theorem Built.get_complete {P : List (String × List (Nat × Nat))} {d : SlotMapData}
    (h : Built P d) {i : Nat} (hlt : i < slotNum) {e : String × List (Nat × Nat)} (he : e ∈ P)
    (hp : PairsHold e.2 i) : ∃ e' ∈ P, d.get i = some e'.1 ∧ PairsHold e'.2 i := by
  obtain ⟨o, ho⟩ := Option.isSome_iff_exists.mp ((h.slots i).mpr hlt)
  cases o with
  | none => exact absurd hp (h.empty i ho e he)
  | some k =>
      obtain ⟨e', he', -, hp'⟩ := h.owner i k ho
      refine ⟨e', List.mem_of_getElem? he', ?_, hp'⟩
      unfold get
      rw [ho]
      show d.addrs[k]? = some e'.1
      rw [h.addrs, List.getElem?_map, he']
      rfl

end SlotMapData

namespace SlotMap

/-- The slot ranges of one address hold `slot`. -/
def RangesHold (slotRanges : List SlotRange) (slot : Nat) : Prop :=
  ∃ slotRange ∈ slotRanges, slotRange.rangeList.contains slot

theorem pairsHold_flattenRanges (slotRanges : List SlotRange) (slot : Nat) :
    SlotMapData.PairsHold (flattenRanges slotRanges) slot ↔ RangesHold slotRanges slot := by
  simp only [SlotMapData.PairsHold, flattenRanges, List.mem_flatMap, List.mem_map, RangesHold,
    RangeList.contains, Range.contains]
  constructor
  · rintro ⟨_, ⟨sr, hsr, r, hr, rfl⟩, h⟩
    exact ⟨sr, hsr, r, hr, h⟩
  · rintro ⟨sr, hsr, r, hr, h⟩
    exact ⟨_, ⟨sr, hsr, r, hr, rfl⟩, h⟩

theorem exists_entry_iff (slotMap : List (String × List SlotRange)) (p : String → Prop) (slot : Nat) :
    (∃ e ∈ slotMap.map (fun entry => (entry.1, flattenRanges entry.2)),
      p e.1 ∧ SlotMapData.PairsHold e.2 slot) ↔
    ∃ a slotRanges, (a, slotRanges) ∈ slotMap ∧ p a ∧ RangesHold slotRanges slot := by
  simp only [List.mem_map]
  constructor
  · rintro ⟨_, ⟨⟨a, srs⟩, hmem, rfl⟩, hpa, hh⟩
    exact ⟨a, srs, hmem, hpa, (pairsHold_flattenRanges srs slot).mp hh⟩
  · rintro ⟨a, srs, hmem, hpa, hh⟩
    exact ⟨_, ⟨⟨a, srs⟩, hmem, rfl⟩, hpa, (pairsHold_flattenRanges srs slot).mpr hh⟩

/-- `SlotMap::from_ranges` routes a slot to an address exactly when the slot
is below `SLOT_NUM` and a range of that address holds it, and to nothing
otherwise, given that the ranges of different addresses share no slot. -/
theorem fromRanges_get (slotMap : List (String × List SlotRange))
    (hdisjoint : ∀ a slotRanges b slotRanges', (a, slotRanges) ∈ slotMap →
      (b, slotRanges') ∈ slotMap → a ≠ b →
      ∀ slot, ¬ (RangesHold slotRanges slot ∧ RangesHold slotRanges' slot))
    (slot : Nat) :
    (∀ a, (fromRanges slotMap).get slot = some a ↔
      slot < slotNum ∧ ∃ slotRanges, (a, slotRanges) ∈ slotMap ∧ RangesHold slotRanges slot) ∧
    ((fromRanges slotMap).get slot = none ↔
      ¬ (slot < slotNum ∧ ∃ a slotRanges, (a, slotRanges) ∈ slotMap ∧ RangesHold slotRanges slot)) := by
  have hb := SlotMapData.built_new (slotMap.map fun entry => (entry.1, flattenRanges entry.2))
  have hsound : ∀ a, (fromRanges slotMap).get slot = some a →
      slot < slotNum ∧ ∃ slotRanges, (a, slotRanges) ∈ slotMap ∧ RangesHold slotRanges slot :=
    fun a hg => by
      obtain ⟨hlt, hex⟩ := hb.get_sound hg
      obtain ⟨b, srs, hmem, rfl, hh⟩ := (exists_entry_iff slotMap (fun b => b = a) slot).mp hex
      exact ⟨hlt, srs, hmem, hh⟩
  have hcomplete : slot < slotNum → ∀ a slotRanges, (a, slotRanges) ∈ slotMap →
      RangesHold slotRanges slot → ∃ b slotRanges', (b, slotRanges') ∈ slotMap ∧
        (fromRanges slotMap).get slot = some b ∧ RangesHold slotRanges' slot :=
    fun hlt a srs hmem hh => by
      obtain ⟨e, he, hg, hp⟩ := hb.get_complete hlt (List.mem_map.mpr ⟨(a, srs), hmem, rfl⟩)
        ((pairsHold_flattenRanges srs slot).mpr hh)
      obtain ⟨b, srs', hmem', hg', hh'⟩ :=
        (exists_entry_iff slotMap (fun b => (fromRanges slotMap).get slot = some b) slot).mp
          ⟨e, he, hg, hp⟩
      exact ⟨b, srs', hmem', hg', hh'⟩
  refine ⟨fun a => ⟨hsound a, ?_⟩, ⟨?_, ?_⟩⟩
  · rintro ⟨hlt, srs, hmem, hh⟩
    obtain ⟨b, srs', hmem', hg, hh'⟩ := hcomplete hlt a srs hmem hh
    -- the address answered holds the slot too, so it is `a`
    by_cases hab : b = a
    · rw [← hab]
      exact hg
    · exact absurd ⟨hh', hh⟩ (hdisjoint b srs' a srs hmem' hmem hab slot)
  · rintro hg ⟨hlt, a, srs, hmem, hh⟩
    obtain ⟨b, -, -, hg', -⟩ := hcomplete hlt a srs hmem hh
    rw [hg] at hg'
    cases hg'
  · intro hnot
    cases hg : (fromRanges slotMap).get slot with
    | none => rfl
    | some a =>
        obtain ⟨hlt, srs, hmem, hh⟩ := hsound a hg
        exact absurd ⟨hlt, a, srs, hmem, hh⟩ hnot

/-- The map of `test_slot_map`: one backend holding every slot. -/
def testSlotMap : List (String × List SlotRange) :=
  [("127.0.0.1:6379", [⟨⟨[⟨0, slotNum - 1⟩]⟩, .none⟩])]

theorem fromRanges_get_testSlotMap :
    (fromRanges testSlotMap).get 0 = some "127.0.0.1:6379" ∧
    (fromRanges testSlotMap).get (slotNum - 1) = some "127.0.0.1:6379" ∧
    (fromRanges testSlotMap).get slotNum = none := by
  have hdisjoint : ∀ a slotRanges b slotRanges', (a, slotRanges) ∈ testSlotMap →
      (b, slotRanges') ∈ testSlotMap → a ≠ b →
      ∀ slot, ¬ (RangesHold slotRanges slot ∧ RangesHold slotRanges' slot) := by
    intro a srs b srs' ha hb hab
    simp only [testSlotMap, List.mem_singleton, Prod.mk.injEq] at ha hb
    exact absurd (ha.1.trans hb.1.symm) hab
  have hhold : ∀ slot < slotNum, RangesHold [⟨⟨[⟨0, slotNum - 1⟩]⟩, .none⟩] slot := fun slot hslot =>
    ⟨_, List.mem_singleton_self _, ⟨0, slotNum - 1⟩, List.mem_singleton_self _, Nat.zero_le _,
      Nat.le_sub_one_of_lt hslot⟩
  have hlast : slotNum - 1 < slotNum := by decide
  refine ⟨((fromRanges_get testSlotMap hdisjoint 0).1 _).mpr
      ⟨by decide, _, List.mem_singleton_self _, hhold 0 (by decide)⟩,
    ((fromRanges_get testSlotMap hdisjoint (slotNum - 1)).1 _).mpr
      ⟨hlast, _, List.mem_singleton_self _, hhold _ hlast⟩,
    (fromRanges_get testSlotMap hdisjoint slotNum).2.mpr fun h => Nat.lt_irrefl _ h.1⟩

end SlotMap

end Undermoon
