import Undermoon.Common.Cluster
import Undermoon.Lib.Writes

/-!
# The routing table of a proxy

`proxy/slot.rs` turns the slot ranges of each node address into an array of
`SLOT_NUM` owner indices and a vector of addresses, which the proxy reads on
every command to pick its backend.

A `HashMap` is its list of entries in iteration order. `from_ranges` copies
one map into another, whose order is again the hash order, and
`SlotMapData::new` visits that second map; since every statement about the
table holds for every list, the model hands `new` the entries in the order it
was given them and loses no order the source could take.
-/

namespace Undermoon

/-- `SlotMapData`: the owner of each slot, an index into `addrs`. -/
structure SlotMapData where
  slotArr : List (Option Nat)
  addrs : List String
deriving DecidableEq, Repr

namespace SlotMapData

/-- `for s in start..=end`, breaking at the first slot past `SLOT_NUM`, and
writing `Some(index)` through `get_mut`. -/
def fillRange (index : Nat) (slotArr : List (Option Nat)) (start stop : Nat) :
    List (Option Nat) :=
  ((List.range' start (stop + 1 - start)).takeWhile fun s => decide (s < slotNum)).foldl
    (List.writeAt some (some index)) slotArr

/-- The ranges of one address, an inverted one skipped. -/
def fillSlots (index : Nat) (slotArr : List (Option Nat)) (slots : List (Nat × Nat)) :
    List (Option Nat) :=
  slots.foldl (fun arr range => if range.1 > range.2 then arr else fillRange index arr range.1 range.2)
    slotArr

/-- One entry of the map: its address is pushed and owns what its ranges
cover, over earlier owners. -/
def addEntry (d : SlotMapData) (entry : String × List (Nat × Nat)) : SlotMapData :=
  let addrs := d.addrs ++ [entry.1]
  ⟨fillSlots (addrs.length - 1) d.slotArr entry.2, addrs⟩

/-- `SlotMapData::new`. -/
def new (slotMap : List (String × List (Nat × Nat))) : SlotMapData :=
  slotMap.foldl addEntry ⟨List.replicate slotNum none, []⟩

/-- `SlotMapData::get`. -/
def get (d : SlotMapData) (slot : Nat) : Option String :=
  (d.slotArr[slot]?.bind id).bind fun i => d.addrs[i]?

end SlotMapData

/-- `SlotMap`. -/
structure SlotMap where
  data : SlotMapData
deriving DecidableEq, Repr

namespace SlotMap

/-- The `(start, end)` pairs of one address, slot range by slot range. -/
def flattenRanges (slotRanges : List SlotRange) : List (Nat × Nat) :=
  slotRanges.flatMap fun slotRange => slotRange.rangeList.ranges.map fun r => (r.start, r.stop)

/-- `SlotMap::from_ranges`. -/
def fromRanges (slotMap : List (String × List SlotRange)) : SlotMap :=
  ⟨SlotMapData.new (slotMap.map fun entry => (entry.1, flattenRanges entry.2))⟩

/-- `SlotMap::get`. -/
def get (m : SlotMap) (slot : Nat) : Option String := m.data.get slot

end SlotMap

end Undermoon
