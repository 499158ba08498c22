import Undermoon.Common.Cluster
import Undermoon.Migration.Switch

/-!
# The arguments of a switch request

The source proxy of a migration names the migration in every switch request
it sends (`RedisScanMigratingTask::gen_switch_arg`): a version, the cluster,
and its slot range with the migration's metadata, as strings after
`UMCTL <sub command>`. The destination reads them back
(`parse_switch_command`, `SwitchArg::from_strings` and the `from_strings` of
each part, `common/cluster.rs`), turns the migrating tag into an importing
one (`MetaManager::handle_switch`), and looks its task up under the result
(`MigrationManager::handle_switch`).

The encoders are positional: a range list is its count and one `start-end`
string per range, re-compacted by `RangeList::new` on the way in; a tag is
told apart by a peeked, upper-cased first string. Each decoder takes strings
off the front of a list and returns what it did not take, as the iterator it
is given is left. Numbers are parsed as `str::parse::<u64>` does, `usize`
being 64 bits wide. The upper-casing, Rust's `to_uppercase` with its Unicode
tables, is a parameter of the decoders; what is proved of them needs only
that it is the ASCII map on ASCII text, which the two tags and the decimal
counts are all the encoder ever writes.
-/

namespace Undermoon

/-- `MIGRATING_TAG`. -/
def migratingTag : String := "MIGRATING"

/-- `IMPORTING_TAG`. -/
def importingTag : String := "IMPORTING"

/-- `UNDERMOON_MIGRATION_VERSION`. -/
def undermoonMigrationVersion : String := "mgr-0.2"

/-- `str::parse::<usize>` on a 64-bit target, which is `parse::<u64>`. -/
def parseUsize (s : String) : Option Nat := (parseU64 s).map UInt64.toNat

namespace MigrationMeta

/-- `MigrationMeta::into_strings`. -/
def intoStrings (m : MigrationMeta) : List String :=
  [toString m.epoch.toNat, m.srcProxyAddress, m.srcNodeAddress, m.dstProxyAddress, m.dstNodeAddress]

/-- `MigrationMeta::from_strings`: the epoch and the four addresses, in order. -/
def fromStrings : List String → Option (MigrationMeta × List String)
  | epochStr :: srcProxyAddress :: srcNodeAddress :: dstProxyAddress :: dstNodeAddress :: it => do
      let epoch ← parseU64 epochStr
      some (⟨epoch, srcProxyAddress, srcNodeAddress, dstProxyAddress, dstNodeAddress⟩, it)
  | _ => none

end MigrationMeta

namespace RangeList

/-- `RangeList::to_strings`: the number of ranges, then `start-end` for each. -/
def toStrings (rl : RangeList) : List String :=
  toString rl.ranges.length :: rl.ranges.map fun r => toString r.start ++ "-" ++ toString r.stop

/-- `RangeList::parse_slot_range`: the first two pieces of the string split
at `-` (`str::split`, whose pieces are those of `List.splitOn`). -/
def parseSlotRange (s : String) : Option Range :=
  match (s.toList.splitOn '-').map String.ofList with
  | startStr :: endStr :: _ => do
      let start ← parseUsize startStr
      let stop ← parseUsize endStr
      some ⟨start, stop⟩
  | _ => none

/-- The loop of `RangeList::parse`: `n` more ranges, one string each. -/
def parseRanges : Nat → List String → Option (List Range × List String)
  | 0, it => some ([], it)
  | _ + 1, [] => none
  | n + 1, s :: it => do
      let r ← parseSlotRange s
      let (ranges, it) ← parseRanges n it
      some (r :: ranges, it)

/-- `RangeList::parse`: the number of ranges, the ranges, and `RangeList::new`
over them. -/
def parse : List String → Option (RangeList × List String)
  | [] => none
  | s :: it => do
      let rangesNum ← parseUsize s
      let (ranges, it) ← parseRanges rangesNum it
      some (new ranges, it)

end RangeList

section

-- Rust's `str::to_uppercase`, Unicode's upper-casing, is a parameter here
variable (toUppercase : String → String)

namespace SlotRange

/-- `SlotRange::into_strings`: the tag, if any, the range list, and the
migration's metadata. -/
def intoStrings (sr : SlotRange) : List String :=
  match sr.tag with
  | .migrating m => migratingTag :: (sr.rangeList.toStrings ++ m.intoStrings)
  | .importing m => importingTag :: (sr.rangeList.toStrings ++ m.intoStrings)
  | .none => sr.rangeList.toStrings

/-- `SlotRange::from_strings`: the first string, peeked and upper-cased,
decides the tag; without one it is the count of the range list. -/
def fromStrings : List String → Option (SlotRange × List String)
  | [] => none
  | s :: rest =>
      let slotRangeTag := toUppercase s
      if slotRangeTag = migratingTag then do
        let (rangeList, it) ← RangeList.parse rest
        let (m, it) ← MigrationMeta.fromStrings it
        some (⟨rangeList, .migrating m⟩, it)
      else if slotRangeTag = importingTag then do
        let (rangeList, it) ← RangeList.parse rest
        let (m, it) ← MigrationMeta.fromStrings it
        some (⟨rangeList, .importing m⟩, it)
      else do
        let (rangeList, it) ← RangeList.parse (s :: rest)
        some (⟨rangeList, .none⟩, it)

end SlotRange

namespace MigrationTaskMeta

/-- `MigrationTaskMeta::into_strings`. -/
def intoStrings (m : MigrationTaskMeta) : List String := m.clusterName.name :: m.slotRange.intoStrings

/-- `MigrationTaskMeta::from_strings`: a cluster name that passes
`ClusterName::try_from`, then the slot range. -/
def fromStrings : List String → Option (MigrationTaskMeta × List String)
  | [] => none
  | clusterNameStr :: it => do
      let clusterName ← ClusterName.tryFrom clusterNameStr
      let (slotRange, it) ← SlotRange.fromStrings toUppercase it
      some (⟨clusterName, slotRange⟩, it)

end MigrationTaskMeta

/-- `SwitchArg`. The second field is the source's `meta`, renamed because
`meta` is a keyword. -/
structure SwitchArg where
  version : String
  taskMeta : MigrationTaskMeta
deriving DecidableEq

namespace SwitchArg

/-- `SwitchArg::into_strings`. -/
def intoStrings (a : SwitchArg) : List String := a.version :: a.taskMeta.intoStrings

/-- `SwitchArg::from_strings`. -/
def fromStrings : List String → Option (SwitchArg × List String)
  | [] => none
  | version :: it => do
      let (taskMeta, it) ← MigrationTaskMeta.fromStrings toUppercase it
      some (⟨version, taskMeta⟩, it)

end SwitchArg

/-- `parse_switch_command`, on the strings `get_resp_strings` reads off the
command: `UMCTL` and the sub command skipped. -/
def parseSwitchCommand : List String → Option SwitchArg
  | _ :: _ :: it => (SwitchArg.fromStrings toUppercase it).map Prod.fst
  | _ => none

end

/-- `MgrSubCmd::as_str`. -/
def MgrSubCmd.asStr : MgrSubCmd → String
  | .preCheck => "PRECHECK"
  | .preSwitch => "PRESWITCH"
  | .finalSwitch => "FINALSWITCH"

/-- What a `RedisScanMigratingTask` knows of its migration: its cluster,
the slot range it was made for, and that range's metadata (the source's
`meta`). -/
structure RedisScanMigratingTask where
  clusterName : ClusterName
  slotRange : SlotRange
  migrationMeta : MigrationMeta

/-- `RedisScanMigratingTask::gen_switch_arg`: the request, as strings, with
the range list of the task's slot range under a migrating tag. -/
def RedisScanMigratingTask.genSwitchArg (t : RedisScanMigratingTask) (subCmd : String) : List String :=
  ["UMCTL", subCmd] ++
    (SwitchArg.mk undermoonMigrationVersion ⟨t.clusterName, ⟨t.slotRange.rangeList, .migrating t.migrationMeta⟩⟩).intoStrings

/-- `SwitchError`; the error of the importing task is one constructor. -/
inductive SwitchError where
  | invalidArg
  | taskNotFound
  | peerMigrating
  | notReady
  | mgrErr
deriving DecidableEq, Repr

/-- The task a migration manager keeps under a key: the source's side or
the destination's. -/
inductive MgrTaskKind where
  | migrating
  | importing
deriving DecidableEq, Repr

/-- `MigrationManager::handle_switch`: the task under the request's key, in
the manager's cluster; an importing task handles the request itself
(`handle`). -/
def MigrationManager.handleSwitch (clusterName : ClusterName) (taskMap : List (MigrationTaskMeta × MgrTaskKind))
    (handle : SwitchArg → MgrSubCmd → Except SwitchError Unit) (switchArg : SwitchArg) (subCmd : MgrSubCmd) :
    Except SwitchError Unit :=
  if clusterName = switchArg.taskMeta.clusterName then
    match taskMap.lookup switchArg.taskMeta with
    | some .migrating => .error .peerMigrating
    | some .importing => handle switchArg subCmd
    | none => .error .taskNotFound
  else .error .taskNotFound

/-- The key `MetaManager::handle_switch` looks the task up under, with the
epoch the migration started at: the stored key of an importing task has the
importing tag, so a migrating one is turned into it. -/
def MetaManager.switchTaskMeta (taskMeta : MigrationTaskMeta) : Except SwitchError (UInt64 × MigrationTaskMeta) :=
  match taskMeta.slotRange.tag with
  | .none => .error .invalidArg
  | .migrating m => .ok (m.epoch, { taskMeta with slotRange := { taskMeta.slotRange with tag := .importing m } })
  | .importing m => .ok (m.epoch, taskMeta)

/-- `MetaManager::handle_switch`: a proxy whose epoch has not reached the
migration's is not ready; otherwise the migration map handles the request
under the key (`dispatch`). -/
def MetaManager.handleSwitch (epoch : UInt64) (dispatch : SwitchArg → MgrSubCmd → Except SwitchError Unit)
    (switchArg : SwitchArg) (subCmd : MgrSubCmd) : Except SwitchError Unit := do
  let (argEpoch, taskMeta) ← switchTaskMeta switchArg.taskMeta
  if epoch < argEpoch then .error .notReady
  else dispatch ⟨switchArg.version, taskMeta⟩ subCmd

end Undermoon
