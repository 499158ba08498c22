import Undermoon.Migration.SwitchArg
import Undermoon.Proofs.Ranges

/-!
# Switch arguments read back as they were written

Each `from_strings` inverts its `into_strings` on the strings it wrote,
followed by anything: it takes exactly those and leaves the rest. The proofs
go part by part, as the encoders are nested: numbers (`to_string` against
`parse`), a range (`start-end` split at its one `-`), a range list (its count,
then the ranges, which `RangeList::new` leaves alone when they are already
compact), the migration metadata, the tag (a decimal count is never taken for
a tag), and the cluster name (it passed `ClusterName::try_from` once, so it
passes again).

A range list round-trips only as `RangeList::new` leaves it, and only with
numbers a `usize` holds; a compact list of such ranges has fewer than `2^64`
of them, so its count is one too.

On the destination the key that `MetaManager::handle_switch` makes of a
request of the source is then the destination's own key, built from the same
slot range under its importing tag, and the request reaches the importing task.
-/

namespace Undermoon

/-! ## Numbers -/

theorem parseDigits_of_isDigit : ∀ {l : List Char} (acc : Nat), l.all Char.isDigit = true →
    parseDigits l acc = some (Nat.ofDigitChars 10 l acc)
  | [], _, _ => rfl
  | c :: cs, acc, h => by
      simp only [List.all_cons, Bool.and_eq_true] at h
      rw [parseDigits, if_pos h.1, parseDigits_of_isDigit _ h.2]
      rfl

theorem toDigits_all_isDigit (n : Nat) : (Nat.toDigits 10 n).all Char.isDigit = true :=
  List.all_eq_true.mpr fun _ hc => Nat.isDigit_of_mem_toDigits (by decide) (by decide) hc

theorem toList_toString (n : Nat) : (toString n).toList = Nat.toDigits 10 n := Nat.toList_repr

/-- `n.to_string().parse::<u64>()` is `n`, for every `n` a `u64` holds. -/
theorem parseU64_toString {n : Nat} (h : n < UInt64.size) : parseU64 (toString n) = some (UInt64.ofNat n) := by
  obtain ⟨c, cs, hcs⟩ := List.exists_cons_of_ne_nil (@Nat.toDigits_ne_nil n 10)
  -- the first character is a digit, so not a sign
  have hc : c.isDigit = true := List.all_eq_true.mp (toDigits_all_isDigit n) c (by rw [hcs]; exact List.mem_cons_self)
  have hplus : c ≠ '+' := by rintro rfl; cases hc
  unfold parseU64
  simp only [toList_toString, hcs]
  split
  · next heq => exact absurd (List.cons.inj heq).1 hplus
  · rw [← hcs, if_neg (by simp [hcs]), parseDigits_of_isDigit 0 (toDigits_all_isDigit n),
      Nat.ofDigitChars_toDigits (by decide) (by decide)]
    simp only [if_pos h]

theorem parseU64_toString_toNat (x : UInt64) : parseU64 (toString x.toNat) = some x := by
  rw [parseU64_toString x.toNat_lt_size, UInt64.ofNat_toNat]

theorem parseUsize_toString {n : Nat} (h : n < 2 ^ 64) : parseUsize (toString n) = some n := by
  rw [parseUsize, parseU64_toString h, Option.map_some, UInt64.toNat_ofNat_of_lt' h]

/-! ## Ranges and range lists -/

namespace RangeList

theorem parseSlotRange_toString {r : Range} (hstart : r.start < 2 ^ 64) (hstop : r.stop < 2 ^ 64) :
    parseSlotRange (toString r.start ++ "-" ++ toString r.stop) = some r := by
  -- no digit is a `-`, so the string splits into the two numbers
  have hnot : ∀ n, '-' ∉ Nat.toDigits 10 n := fun n hm => by
    have := List.all_eq_true.mp (toDigits_all_isDigit n) '-' hm
    cases this
  have hsplit : (toString r.start ++ "-" ++ toString r.stop).toList.splitOn '-' =
      [Nat.toDigits 10 r.start, Nat.toDigits 10 r.stop] := by
    have hjoin : (toString r.start ++ "-" ++ toString r.stop).toList =
        ['-'].intercalate [Nat.toDigits 10 r.start, Nat.toDigits 10 r.stop] := by
      simp [Nat.toList_repr]
    rw [hjoin, List.splitOn_intercalate '-' (by simp [hnot]) (by simp)]
  have hdigits : ∀ n : Nat, String.ofList (Nat.toDigits 10 n) = toString n :=
    fun _ => Nat.repr_eq_ofList_toDigits.symm
  unfold parseSlotRange
  rw [hsplit]
  simp only [List.map_cons, List.map_nil, hdigits, parseUsize_toString hstart, parseUsize_toString hstop,
    Option.bind_eq_bind, Option.bind_some]

theorem parseRanges_toStrings (rest : List String) :
    ∀ {rs : List Range}, (∀ r ∈ rs, r.start < 2 ^ 64 ∧ r.stop < 2 ^ 64) →
      parseRanges rs.length (rs.map (fun r => toString r.start ++ "-" ++ toString r.stop) ++ rest) =
        some (rs, rest)
  | [], _ => rfl
  | r :: rs, h => by
      have hr := h r List.mem_cons_self
      simp only [List.length_cons, List.map_cons, List.cons_append, parseRanges,
        parseSlotRange_toString hr.1 hr.2, Option.bind_eq_bind, Option.bind_some,
        parseRanges_toStrings rest fun q hq => h q (List.mem_cons_of_mem r hq)]

/-- A compact range list of `usize` ranges reads back as itself. -/
theorem parse_toStrings {rl : RangeList} (hc : rl.Canonical) (h : ∀ r ∈ rl.ranges, r.start < 2 ^ 64 ∧ r.stop < 2 ^ 64)
    (rest : List String) : parse (rl.toStrings ++ rest) = some (rl, rest) := by
  have hlen : rl.ranges.length < 2 ^ 64 := by
    have hb : ∀ q ∈ rl.ranges, 0 ≤ q.start ∧ q.stop < 2 ^ 64 := fun q hq => ⟨Nat.zero_le _, (h q hq).2⟩
    have := Canonical.length_le hc hb
    omega
  simp only [toStrings, List.cons_append, parse, parseUsize_toString hlen, parseRanges_toStrings rest h,
    Option.bind_eq_bind, Option.bind_some, new, hc.compact_eq]

end RangeList

/-! ## The metadata, the tag and the name -/

theorem MigrationMeta.fromStrings_intoStrings (m : MigrationMeta) (rest : List String) :
    fromStrings (m.intoStrings ++ rest) = some (m, rest) := by
  simp only [intoStrings, List.cons_append, List.nil_append, fromStrings, parseU64_toString_toNat,
    Option.bind_eq_bind, Option.bind_some]

/-! ### Upper-casing

`SlotRange::from_strings` upper-cases the tag with Rust's `to_uppercase`,
which is Unicode's. The round trips below assume only what it does on ASCII
text, which is all the encoders write in the position of a tag. -/

/-- A case map that is `g` on each character of ASCII text, as Rust's
`str::to_uppercase` and `str::to_lowercase` are. -/
def AgreesOnAscii (f : String → String) (g : Char → Char) : Prop :=
  ∀ s : String, s.toList.all (fun c => c.toNat < 128) = true → (f s).toList = s.toList.map g

/-- A literal the case map leaves alone. -/
theorem AgreesOnAscii.eq_self {f : String → String} {g : Char → Char} (hf : AgreesOnAscii f g)
    {s : String} (hs : s.toList.all (fun c => c.toNat < 128) = true ∧ s.toList.map g = s.toList) :
    f s = s :=
  String.toList_inj.mp ((hf s hs.1).trans hs.2)

/-- `String.map` is such a map. -/
theorem agreesOnAscii_map (g : Char → Char) : AgreesOnAscii (String.map g) g :=
  fun _ _ => String.toList_map

theorem val_le_of_isDigit {c : Char} (hc : c.isDigit = true) : c.val ≤ '9'.val := by
  simp only [Char.isDigit, Bool.and_eq_true, decide_eq_true_eq] at hc
  exact hc.2

theorem isDigit_toNat_lt {c : Char} (hc : c.isDigit = true) : c.toNat < 128 :=
  Nat.lt_of_le_of_lt (UInt32.le_iff_toNat_le.mp (val_le_of_isDigit hc)) (by decide)

/-- Upper-casing leaves a digit a digit. -/
theorem toUpper_of_isDigit {d : Char} (hd : d.isDigit = true) : d.toUpper = d := by
  unfold Char.toUpper
  rw [dif_neg]
  -- a digit is below `a`
  rintro ⟨ha, -⟩
  exact absurd (UInt32.le_trans ha (val_le_of_isDigit hd)) (by decide)

/-- A decimal count is ASCII. -/
theorem toString_ascii (n : Nat) : (toString n).toList.all (fun c => c.toNat < 128) = true := by
  rw [toList_toString]
  refine List.all_eq_true.mpr fun c hc => ?_
  exact decide_eq_true (isDigit_toNat_lt (List.all_eq_true.mp (toDigits_all_isDigit n) c hc))

section

variable {toUppercase : String → String}

/-- A decimal count is upper-case already, and is neither tag. -/
theorem toUppercase_toString_ne (hup : AgreesOnAscii toUppercase Char.toUpper) (n : Nat) (tag : String)
    (htag : ∃ c cs, tag.toList = c :: cs ∧ c.isDigit = false) : toUppercase (toString n) ≠ tag := by
  obtain ⟨c, cs, htl, hc⟩ := htag
  intro heq
  have hmap := hup (toString n) (toString_ascii n)
  obtain ⟨d, ds, hds⟩ := List.exists_cons_of_ne_nil (@Nat.toDigits_ne_nil n 10)
  have hd : d.isDigit = true :=
    List.all_eq_true.mp (toDigits_all_isDigit n) d (by rw [hds]; exact List.mem_cons_self)
  rw [heq, htl, toList_toString, hds, List.map_cons, List.cons.injEq] at hmap
  -- the first character of the tag would be the upper case of a digit
  have hcd : c = d := hmap.1.trans (toUpper_of_isDigit hd)
  rw [hcd, hd] at hc
  cases hc

theorem SlotRange.fromStrings_intoStrings (hup : AgreesOnAscii toUppercase Char.toUpper) {sr : SlotRange}
    (hc : sr.rangeList.Canonical) (h : ∀ r ∈ sr.rangeList.ranges, r.start < 2 ^ 64 ∧ r.stop < 2 ^ 64)
    (rest : List String) : fromStrings toUppercase (sr.intoStrings ++ rest) = some (sr, rest) := by
  obtain ⟨rl, tag⟩ := sr
  have hrl := RangeList.parse_toStrings hc h
  cases tag with
  | migrating m =>
      have htag : toUppercase migratingTag = migratingTag := hup.eq_self ⟨by decide, by decide⟩
      simp only [intoStrings, List.cons_append, List.append_assoc, fromStrings, htag, if_true, hrl,
        Option.bind_eq_bind, Option.bind_some, MigrationMeta.fromStrings_intoStrings]
  | importing m =>
      have htag : toUppercase importingTag = importingTag := hup.eq_self ⟨by decide, by decide⟩
      have hne : importingTag ≠ migratingTag := by decide
      simp only [intoStrings, List.cons_append, List.append_assoc, fromStrings, htag, if_neg hne, if_true, hrl,
        Option.bind_eq_bind, Option.bind_some, MigrationMeta.fromStrings_intoStrings]
  | none =>
      have hmig := toUppercase_toString_ne hup rl.ranges.length migratingTag
        ⟨'M', "IGRATING".toList, by decide, by decide⟩
      have himp := toUppercase_toString_ne hup rl.ranges.length importingTag
        ⟨'I', "MPORTING".toList, by decide, by decide⟩
      simp only [intoStrings, RangeList.toStrings, List.cons_append, fromStrings, if_neg hmig, if_neg himp]
      rw [← List.cons_append, ← RangeList.toStrings, hrl]
      rfl

theorem MigrationTaskMeta.fromStrings_intoStrings (hup : AgreesOnAscii toUppercase Char.toUpper)
    {m : MigrationTaskMeta} (hc : m.slotRange.rangeList.Canonical)
    (h : ∀ r ∈ m.slotRange.rangeList.ranges, r.start < 2 ^ 64 ∧ r.stop < 2 ^ 64) (rest : List String) :
    fromStrings toUppercase (m.intoStrings ++ rest) = some (m, rest) := by
  simp only [intoStrings, List.cons_append, fromStrings, ClusterName.tryFrom_name, Option.bind_eq_bind,
    Option.bind_some, SlotRange.fromStrings_intoStrings hup hc h]

theorem SwitchArg.fromStrings_intoStrings (hup : AgreesOnAscii toUppercase Char.toUpper) {a : SwitchArg}
    (hc : a.taskMeta.slotRange.rangeList.Canonical)
    (h : ∀ r ∈ a.taskMeta.slotRange.rangeList.ranges, r.start < 2 ^ 64 ∧ r.stop < 2 ^ 64) (rest : List String) :
    fromStrings toUppercase (a.intoStrings ++ rest) = some (a, rest) := by
  simp only [intoStrings, List.cons_append, fromStrings, MigrationTaskMeta.fromStrings_intoStrings hup hc h,
    Option.bind_eq_bind, Option.bind_some]

/-! ## The request on the destination -/

theorem parseSwitchCommand_genSwitchArg (hup : AgreesOnAscii toUppercase Char.toUpper)
    {t : RedisScanMigratingTask} (hc : t.slotRange.rangeList.Canonical)
    (h : ∀ r ∈ t.slotRange.rangeList.ranges, r.start < 2 ^ 64 ∧ r.stop < 2 ^ 64) (subCmd : String) :
    parseSwitchCommand toUppercase (t.genSwitchArg subCmd) =
      some ⟨undermoonMigrationVersion, ⟨t.clusterName, ⟨t.slotRange.rangeList, .migrating t.migrationMeta⟩⟩⟩ := by
  have hread := @SwitchArg.fromStrings_intoStrings toUppercase hup
    ⟨undermoonMigrationVersion, ⟨t.clusterName, ⟨t.slotRange.rangeList, .migrating t.migrationMeta⟩⟩⟩ hc h []
  rw [List.append_nil] at hread
  rw [RedisScanMigratingTask.genSwitchArg, List.cons_append, List.cons_append, List.nil_append, parseSwitchCommand,
    hread]
  rfl

/-- The request reaches the task stored under the key, once the proxy's
epoch has reached the migration's. -/
theorem MetaManager.handleSwitch_of_stored {clusterName : ClusterName} {taskMeta : MigrationTaskMeta}
    {taskMap : List (MigrationTaskMeta × MgrTaskKind)} {epoch argEpoch : UInt64} {version : String}
    {arg : MigrationTaskMeta} (hkey : switchTaskMeta arg = .ok (argEpoch, taskMeta))
    (hcluster : taskMeta.clusterName = clusterName) (hepoch : argEpoch ≤ epoch)
    (hstored : taskMap.lookup taskMeta = some .importing)
    (handle : SwitchArg → MgrSubCmd → Except SwitchError Unit) (subCmd : MgrSubCmd) :
    handleSwitch epoch (MigrationManager.handleSwitch clusterName taskMap handle) ⟨version, arg⟩ subCmd =
      handle ⟨version, taskMeta⟩ subCmd := by
  have hnot : ¬ epoch < argEpoch := UInt64.not_lt.mpr hepoch
  simp only [handleSwitch, hkey, bind, Except.bind, if_neg hnot, MigrationManager.handleSwitch, hcluster,
    if_true, hstored]

/-- Every switch argument with a compact range list of `usize` ranges reads
back as itself, whatever follows it. Hence a request the source of a migration
sends, at any of the three sub commands, reads back on the destination as the
source wrote it, `handle_switch` turns it into the key the destination stored
its importing task under, built from the same slot range with the importing
tag, and the request reaches that task. -/
theorem switchArg_round_trip_reaches_importing (hup : AgreesOnAscii toUppercase Char.toUpper)
    (clusterName : ClusterName) (rl : RangeList) (m : MigrationMeta)
    (hc : rl.Canonical) (husize : ∀ r ∈ rl.ranges, r.start < 2 ^ 64 ∧ r.stop < 2 ^ 64)
    (subCmd : MgrSubCmd) (epoch : UInt64) (hepoch : m.epoch ≤ epoch)
    (taskMap : List (MigrationTaskMeta × MgrTaskKind))
    (hstored : taskMap.lookup ⟨clusterName, ⟨rl, .importing m⟩⟩ = some .importing)
    (handle : SwitchArg → MgrSubCmd → Except SwitchError Unit) :
    (∀ a : SwitchArg, a.taskMeta.slotRange.rangeList.Canonical →
      (∀ r ∈ a.taskMeta.slotRange.rangeList.ranges, r.start < 2 ^ 64 ∧ r.stop < 2 ^ 64) →
      ∀ rest, SwitchArg.fromStrings toUppercase (a.intoStrings ++ rest) = some (a, rest)) ∧
    ∃ arg, parseSwitchCommand toUppercase ((RedisScanMigratingTask.mk clusterName ⟨rl, .migrating m⟩ m).genSwitchArg
        subCmd.asStr) = some arg ∧
      MetaManager.switchTaskMeta arg.taskMeta = .ok (m.epoch, ⟨clusterName, ⟨rl, .importing m⟩⟩) ∧
      MetaManager.handleSwitch epoch (MigrationManager.handleSwitch clusterName taskMap handle) arg subCmd =
        handle ⟨undermoonMigrationVersion, ⟨clusterName, ⟨rl, .importing m⟩⟩⟩ subCmd := by
  have hkey : MetaManager.switchTaskMeta ⟨clusterName, ⟨rl, .migrating m⟩⟩ =
      .ok (m.epoch, ⟨clusterName, ⟨rl, .importing m⟩⟩) := rfl
  exact ⟨fun _ hca ha rest => SwitchArg.fromStrings_intoStrings hup hca ha rest, _,
    parseSwitchCommand_genSwitchArg hup hc husize subCmd.asStr, hkey,
    MetaManager.handleSwitch_of_stored hkey rfl hepoch hstored handle subCmd⟩

/-- A cluster named c. -/
def switchCluster : ClusterName := ⟨"c", by decide⟩

/-- Half the slots, moving at epoch 5. -/
def switchMeta : MigrationMeta := ⟨5, "127.0.0.1:6001", "127.0.0.1:7001", "127.0.0.1:6002", "127.0.0.1:7002"⟩

theorem switchArg_round_trip_reaches_importing_preSwitch :
    ∃ arg, parseSwitchCommand String.toUpper ((RedisScanMigratingTask.mk switchCluster ⟨⟨[⟨0, 8191⟩]⟩, .migrating switchMeta⟩
        switchMeta).genSwitchArg MgrSubCmd.preSwitch.asStr) = some arg ∧
      MetaManager.switchTaskMeta arg.taskMeta =
        .ok (switchMeta.epoch, ⟨switchCluster, ⟨⟨[⟨0, 8191⟩]⟩, .importing switchMeta⟩⟩) ∧
      MetaManager.handleSwitch 5
          (MigrationManager.handleSwitch switchCluster
            [(⟨switchCluster, ⟨⟨[⟨0, 8191⟩]⟩, .importing switchMeta⟩⟩, .importing)] fun _ _ => .ok ())
          arg .preSwitch = .ok () := by
  have hc : RangeList.Canonical ⟨[⟨0, 8191⟩]⟩ :=
    ⟨fun r hr => by rw [List.mem_singleton.mp hr]; decide, List.pairwise_singleton _ _⟩
  have hu : ∀ r ∈ (⟨[⟨0, 8191⟩]⟩ : RangeList).ranges, r.start < 2 ^ 64 ∧ r.stop < 2 ^ 64 :=
    fun r hr => by rw [List.mem_singleton.mp hr]; decide
  exact (switchArg_round_trip_reaches_importing (agreesOnAscii_map Char.toUpper) switchCluster
    ⟨[⟨0, 8191⟩]⟩ switchMeta hc hu .preSwitch 5
    (by decide) _ (by decide) fun _ _ => .ok ()).2

end

end Undermoon
