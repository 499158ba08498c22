import Undermoon.Proofs.Allocation

/-!
# The greedy pairing never gets stuck

`allocate_chunk` pairs proxies a round at a time: the host with the most free
proxies gives one, and the least linked other host with a proxy left gives
its partner. Its `expect`s claim that neither choice can fail. The argument
(`docs/chunk_allocation.txt`) is a count: when no host holds more than half
of the proxies, rounded up, a round keeps it so whichever partner it picks,
and then there is always a second host to pair with. `remove_redundant_chunks`
sets it up by popping proxies off the one host that holds more than all the
others together.

The count is `poolSize`, the number of proxies the map holds; `Balanced` is
the invariant, `Balanced.allocateStep` its step, and `allocateLoop_spec` the
whole loop.
-/

namespace Undermoon

namespace MetaStoreUpdate

open OrdMap

/-- No host holds more than half of the proxies, rounded up. -/
def Balanced (hostProxies : OrdMap String (List String)) : Prop :=
  ∀ host proxies, hostProxies.get? host = some proxies →
    2 * proxies.length ≤ hostProxies.poolSize + hostProxies.poolSize % 2

/-- The link table has a count for `b` among the peers of `a`. -/
def HasLink (linkTable : OrdMap String (OrdMap String Nat)) (a b : String) : Prop :=
  ∃ peers n, linkTable.get? a = some peers ∧ peers.get? b = some n

/-- Every two hosts with free proxies have an entry for each other in the
link table. -/
def LinksAll (hostProxies : OrdMap String (List String))
    (linkTable : OrdMap String (OrdMap String Nat)) : Prop :=
  ∀ a b la lb, a ≠ b → hostProxies.get? a = some la → la ≠ [] → hostProxies.get? b = some lb → lb ≠ [] →
    HasLink linkTable a b

/-- `hostProxies'` is `hostProxies` with lists cut down to prefixes. -/
def Shrinks (hostProxies hostProxies' : OrdMap String (List String)) : Prop :=
  ∀ host proxies', hostProxies'.get? host = some proxies' →
    ∃ proxies, hostProxies.get? host = some proxies ∧ proxies' <+: proxies

/-- The two proxies of a pair are on two different hosts of the map. -/
def SplitHosts (hostProxies : OrdMap String (List String)) (pair : String × String) : Prop :=
  ∃ a b la lb, a ≠ b ∧ hostProxies.get? a = some la ∧ pair.1 ∈ la ∧ hostProxies.get? b = some lb ∧ pair.2 ∈ lb

/-! ## Maps that shrink -/

section Shrinks

variable {hostProxies hostProxies' hostProxies'' : OrdMap String (List String)}

theorem Shrinks.refl (hostProxies : OrdMap String (List String)) : Shrinks hostProxies hostProxies :=
  fun _ proxies h => ⟨proxies, h, List.prefix_refl _⟩

theorem Shrinks.trans (h : Shrinks hostProxies hostProxies') (h' : Shrinks hostProxies' hostProxies'') :
    Shrinks hostProxies hostProxies'' := by
  intro host proxies'' hget
  obtain ⟨proxies', hget', hp'⟩ := h' host proxies'' hget
  obtain ⟨proxies, hget, hp⟩ := h host proxies' hget'
  exact ⟨proxies, hget, hp'.trans hp⟩

theorem Shrinks.replace {host : String} {proxies proxies' : List String} (hget : hostProxies.get? host = some proxies)
    (hp : proxies' <+: proxies) : Shrinks hostProxies (hostProxies.replace host proxies') := by
  intro host' proxies'' hget'
  rw [get?_replace _ _ _ _ (mem_of_get?_eq_some hget)] at hget'
  split_ifs at hget' with hhost
  · cases hget'
    rw [hhost]
    exact ⟨proxies, hget, hp⟩
  · exact ⟨proxies'', hget', List.prefix_refl _⟩

theorem LinksAll.of_shrinks {linkTable : OrdMap String (OrdMap String Nat)} (hl : LinksAll hostProxies linkTable)
    (hs : Shrinks hostProxies hostProxies') : LinksAll hostProxies' linkTable := by
  intro a b la' lb' hne ha' hla' hb' hlb'
  obtain ⟨la, ha, hpa⟩ := hs a la' ha'
  obtain ⟨lb, hb, hpb⟩ := hs b lb' hb'
  exact hl a b la lb hne ha (fun h => hla' (List.eq_nil_of_prefix_nil (h ▸ hpa)))
    hb (fun h => hlb' (List.eq_nil_of_prefix_nil (h ▸ hpb)))

theorem SplitHosts.of_shrinks {pair : String × String} (h : SplitHosts hostProxies' pair)
    (hs : Shrinks hostProxies hostProxies') : SplitHosts hostProxies pair := by
  obtain ⟨a, b, la', lb', hne, ha', hx, hb', hy⟩ := h
  obtain ⟨la, ha, hpa⟩ := hs a la' ha'
  obtain ⟨lb, hb, hpb⟩ := hs b lb' hb'
  exact ⟨a, b, la, lb, hne, ha, hpa.subset hx, hb, hpb.subset hy⟩

end Shrinks

/-! ## The link table -/

/-- An entry of the link table stays through an increment. -/
theorem HasLink.incLink {t t' : OrdMap String (OrdMap String Nat)} {a b x y : String} (hl : HasLink t x y)
    (h : incLink t a b = some t') : HasLink t' x y := by
  obtain ⟨peers, n, hx, hy⟩ := hl
  simp only [MetaStoreUpdate.incLink, Option.bind_eq_bind, Option.bind_eq_some_iff, Option.pure_def,
    Option.some.injEq] at h
  obtain ⟨inner, -, -, -, rfl⟩ := h
  by_cases hxa : x = a
  · subst hxa
    have hpeers : (t.modify x fun inner => inner.modify b (· + 1)).get? x = some (peers.modify b (· + 1)) := by
      rw [get?_modify_self, hx, Option.map_some]
    by_cases hyb : y = b
    · subst hyb
      exact ⟨_, n + 1, hpeers, by rw [get?_modify_self, hy, Option.map_some]⟩
    · exact ⟨_, n, hpeers, by rw [get?_modify_ne _ _ hyb, hy]⟩
  · exact ⟨peers, n, by rw [get?_modify_ne _ _ hxa, hx], hy⟩

/-- A table with an entry for every two keys of the map links all its hosts. -/
theorem LinksAll.of_keys {hostProxies : OrdMap String (List String)} {linkTable : OrdMap String (OrdMap String Nat)}
    (h : ∀ a ∈ hostProxies.keys, ∀ b ∈ hostProxies.keys, a ≠ b →
      ((linkTable.get? a).bind fun peers => peers.get? b).isSome) : LinksAll hostProxies linkTable := by
  intro a b la lb hab ha _ hb _
  have hlink := h a (AList.mem_keys.mpr (mem_of_get?_eq_some ha)) b (AList.mem_keys.mpr (mem_of_get?_eq_some hb)) hab
  cases hpa : linkTable.get? a with
  | none => rw [hpa] at hlink; cases hlink
  | some peers =>
      rw [hpa, Option.bind_some] at hlink
      obtain ⟨n, hn⟩ := Option.isSome_iff_exists.mp hlink
      exact ⟨peers, n, hpa, hn⟩

theorem incLink_isSome {t : OrdMap String (OrdMap String Nat)} {a b : String} (hl : HasLink t a b) :
    (incLink t a b).isSome := by
  obtain ⟨peers, n, ha, hb⟩ := hl
  simp [incLink, ha, hb]

/-- An entry of the link table stays through an addition. -/
theorem HasLink.linkAdd {t : OrdMap String (OrdMap String Nat)} {x y : String} (hl : HasLink t x y)
    (a b : String) (c : Nat) : HasLink (linkAdd t a b c) x y := by
  obtain ⟨peers, n, hx, hy⟩ := hl
  unfold MetaStoreUpdate.linkAdd
  by_cases hxa : x = a
  · subst hxa
    have hpeers := get?_upsert_self t x ∅ fun inner => inner.upsert b 0 (· + c)
    rw [hx, Option.getD_some] at hpeers
    by_cases hyb : y = b
    · subst hyb
      exact ⟨_, _, hpeers, get?_upsert_self _ _ _ _⟩
    · exact ⟨_, n, hpeers, by rw [get?_upsert_ne _ _ _ hyb]; exact hy⟩
  · exact ⟨peers, n, by rw [get?_upsert_ne _ _ _ hxa, hx], hy⟩

theorem hasLink_linkAdd (t : OrdMap String (OrdMap String Nat)) (a b : String) (c : Nat) :
    HasLink (linkAdd t a b c) a b :=
  ⟨_, _, get?_upsert_self _ _ _ _, get?_upsert_self _ _ _ _⟩

/-- `build_link_table` links two proxies on different hosts, one of them
with free proxies. -/
theorem buildLinkTable_hasLink (s : MetaStore) {p₁ p₂ : ProxyResource} (h₁ : p₁ ∈ s.allProxies.values)
    (h₂ : p₂ ∈ s.allProxies.values) (hne : p₁.host ≠ p₂.host) (hfree : p₁.host ∈ freeHosts s) :
    HasLink (buildLinkTable s) p₁.host p₂.host := by
  unfold buildLinkTable
  dsimp only
  -- the links of the chunks only add to the table
  refine List.foldlRecOn (motive := fun t => HasLink t p₁.host p₂.host) _ _ ?_ fun t ht c _ =>
    List.foldlRecOn (motive := fun t => HasLink t p₁.host p₂.host) _ _ ht fun t ht _ _ =>
      (ht.linkAdd _ _ _).linkAdd _ _ _
  -- the zero entries: the pass over `p₁` and `p₂` adds the link, every other pass keeps it
  have hkeep : ∀ (q₁ : ProxyResource) (t : OrdMap String (OrdMap String Nat)) (q₂ : ProxyResource),
      HasLink t p₁.host p₂.host →
      HasLink (if q₁.host = q₂.host then t
        else if !(freeHosts s).contains q₁.host && !(freeHosts s).contains q₂.host then t
        else linkAdd (linkAdd t q₁.host q₂.host 0) q₂.host q₁.host 0) p₁.host p₂.host := by
    intro q₁ t q₂ ht
    split_ifs
    · exact ht
    · exact ht
    · exact (ht.linkAdd _ _ _).linkAdd _ _ _
  refine List.foldl_of_mem (P := fun t => HasLink t p₁.host p₂.host)
    (fun t q₁ ht => List.foldlRecOn (motive := fun t => HasLink t p₁.host p₂.host) _ _ ht
      fun t ht q₂ _ => hkeep q₁ t q₂ ht)
    (fun t => List.foldl_of_mem (P := fun t => HasLink t p₁.host p₂.host) (fun t q₂ ht => hkeep p₁ t q₂ ht)
      (fun t => ?_) h₂ t) h₁ _
  have hc : (freeHosts s).contains p₁.host = true := List.contains_iff_mem.mpr hfree
  rw [if_neg hne, hc]
  exact (hasLink_linkAdd _ _ _ _).linkAdd _ _ _

/-- A host with proxies in `generate_free_host_proxies` has a proxy of the
store in no cluster. -/
theorem exists_free_of_generateFreeHostProxies {s : MetaStore} {host : String} {proxies : List String}
    (h : (generateFreeHostProxies s).get? host = some proxies) (hne : proxies ≠ []) :
    ∃ r ∈ s.allProxies.values, r.host = host ∧ r.cluster = none := by
  unfold generateFreeHostProxies at h
  revert proxies
  refine List.foldlRecOn _ _ (motive := fun m : OrdMap String (List String) => ∀ {l : List String},
    m.get? host = some l → l ≠ [] → ∃ r ∈ s.allProxies.values, r.host = host ∧ r.cluster = none) ?_ ?_
  · intro l hl _
    simp [get?] at hl
  · intro m hm hostProxy hmem l hl hne
    by_cases hk : host = hostProxy.1
    · -- the host of a free proxy
      simp only [MetaStoreQuery.getFreeProxies, MetaStoreQuery.getFreeProxyResource, List.mem_map,
        List.mem_filter, Bool.and_eq_true, Option.isNone_iff_eq_none] at hmem
      obtain ⟨r, ⟨hr, ⟨hfree, -⟩, -⟩, rfl⟩ := hmem
      exact ⟨r, hr, hk.symm, hfree⟩
    · rw [get?_upsert_ne _ _ _ hk] at hl
      exact hm hl hne

/-- The link table of a store links every two hosts with free proxies. -/
theorem linksAll_buildLinkTable (s : MetaStore) : LinksAll (generateFreeHostProxies s) (buildLinkTable s) := by
  intro a b la lb hab ha hla hb hlb
  obtain ⟨r₁, hr₁, rfl, hc₁⟩ := exists_free_of_generateFreeHostProxies ha hla
  obtain ⟨r₂, hr₂, rfl, -⟩ := exists_free_of_generateFreeHostProxies hb hlb
  refine buildLinkTable_hasLink s hr₁ hr₂ hab ?_
  exact List.mem_map.mpr ⟨r₁, List.mem_filter.mpr ⟨hr₁, by simp [hc₁]⟩, rfl⟩

/-! ## One round -/

section Step

variable {hostProxies hostProxies' : OrdMap String (List String)}
  {linkTable linkTable' : OrdMap String (OrdMap String Nat)} {pair : String × String}

/-- What a round of `allocate_chunk` does when it does not panic: the first
proxy is the last one of a host holding the most, the second the last one of
another host, and the link table is incremented both ways. -/
theorem allocateStep_cases (h : allocateStep hostProxies linkTable = some (hostProxies', linkTable', pair)) :
    ∃ first second fl sl, first ≠ second ∧ hostProxies.get? first = some fl ∧
      (∀ l ∈ hostProxies.values, l.length ≤ fl.length) ∧ fl.getLast? = some pair.1 ∧
      hostProxies.get? second = some sl ∧ sl.getLast? = some pair.2 ∧
      hostProxies' = (hostProxies.replace first fl.dropLast).replace second sl.dropLast ∧
      ∃ t, incLink linkTable first second = some t ∧ incLink t second first = some linkTable' := by
  unfold allocateStep at h
  simp only [Option.bind_eq_bind, Option.bind_eq_some_iff, Option.pure_def, Option.some.injEq, Prod.mk.injEq] at h
  obtain ⟨first, hfirst, x, hx, peers, -, second, hsecond, secondList, hsl, y, hy, t, ht, t', ht', rfl, rfl, rfl⟩ := h
  have hcand := (List.mem_filter.mp (List.firstMinBy_mem hsecond)).2
  simp only [Bool.and_eq_true, decide_eq_true_eq] at hcand
  have hget : hostProxies.get? first.1 = some first.2 := mem_of_mem_entries (List.lastMaxByKey_mem hfirst)
  rw [get?_replace _ _ _ _ (mem_of_get?_eq_some hget), if_neg hcand.1] at hsl
  refine ⟨first.1, second.1, first.2, secondList, Ne.symm hcand.1, hget, fun l hl => ?_, hx, hsl, hy, rfl,
    t, ht, ht'⟩
  obtain ⟨e, he, rfl⟩ := List.mem_map.mp hl
  exact List.lastMaxByKey_ge hfirst e he

/-- A round takes one proxy from each of two hosts. -/
theorem allocateStep_spec (h : allocateStep hostProxies linkTable = some (hostProxies', linkTable', pair)) :
    Shrinks hostProxies hostProxies' ∧ SplitHosts hostProxies pair ∧
      (LinksAll hostProxies linkTable → LinksAll hostProxies' linkTable') := by
  obtain ⟨first, second, fl, sl, hne, hf, -, hx, hs, hy, rfl, t, ht, ht'⟩ := allocateStep_cases h
  have hmid : get? (hostProxies.replace first fl.dropLast) second = some sl := by
    rw [get?_replace _ _ _ _ (mem_of_get?_eq_some hf), if_neg (Ne.symm hne)]
    exact hs
  have hshrink : Shrinks hostProxies ((hostProxies.replace first fl.dropLast).replace second sl.dropLast) :=
    (Shrinks.replace hf (List.dropLast_prefix fl)).trans (Shrinks.replace hmid (List.dropLast_prefix sl))
  refine ⟨hshrink, ⟨first, second, fl, sl, hne, hf, List.mem_of_getLast? hx, hs, List.mem_of_getLast? hy⟩,
    fun hl => ?_⟩
  -- the rounds only add to entries of the link table, and the map only loses proxies
  intro a b la lb hab ha hla hb hlb
  exact ((hl.of_shrinks hshrink a b la lb hab ha hla hb hlb).incLink ht).incLink ht'

/-- A round keeps the map balanced, whichever partner it picks. -/
theorem Balanced.allocateStep (hb : Balanced hostProxies)
    (h : allocateStep hostProxies linkTable = some (hostProxies', linkTable', pair)) :
    Balanced hostProxies' ∧ hostProxies'.poolSize + 2 = hostProxies.poolSize := by
  obtain ⟨first, second, fl, sl, hne, hf, hmax, hx, hs, hy, rfl, -⟩ := allocateStep_cases h
  have hfl : fl ≠ [] := List.getLast?_isSome.mp (by rw [hx]; rfl)
  have hsl : sl ≠ [] := List.getLast?_isSome.mp (by rw [hy]; rfl)
  have hfl1 := List.length_pos_of_ne_nil hfl
  have hsl1 := List.length_pos_of_ne_nil hsl
  have hsf : sl.length ≤ fl.length := hmax sl (mem_values.mpr ⟨second, hs⟩)
  have hbf := hb first fl hf
  have hmid : get? (hostProxies.replace first fl.dropLast) second = some sl := by
    rw [get?_replace _ _ _ _ (mem_of_get?_eq_some hf), if_neg (Ne.symm hne)]
    exact hs
  have hsize₁ := poolSize_replace fl.dropLast hf
  have hsize₂ := poolSize_replace sl.dropLast hmid
  rw [List.length_dropLast] at hsize₁ hsize₂
  have hpool : poolSize ((hostProxies.replace first fl.dropLast).replace second sl.dropLast) + 2 =
      hostProxies.poolSize := by omega
  refine ⟨fun host proxies hget => ?_, hpool⟩
  have hfirst' : get? ((hostProxies.replace first fl.dropLast).replace second sl.dropLast) first =
      some fl.dropLast := by
    rw [get?_replace _ _ _ _ (mem_of_get?_eq_some hmid), if_neg hne,
      get?_replace _ _ _ _ (mem_of_get?_eq_some hf), if_pos rfl]
  rw [get?_replace _ _ _ _ (mem_of_get?_eq_some hmid),
    get?_replace _ _ _ _ (mem_of_get?_eq_some hf)] at hget
  split_ifs at hget with h₂ h₁
  · -- the host that gave the second proxy
    cases hget
    rw [List.length_dropLast]
    omega
  · -- the host that gave the first proxy
    cases hget
    rw [List.length_dropLast]
    omega
  · -- any other host holds no more than the first, and both are still in the pool
    have hle := hmax proxies (mem_values.mpr ⟨host, hget⟩)
    have hhost' : get? ((hostProxies.replace first fl.dropLast).replace second sl.dropLast) host =
        some proxies := by
      rw [get?_replace _ _ _ _ (mem_of_get?_eq_some hmid), if_neg h₂,
        get?_replace _ _ _ _ (mem_of_get?_eq_some hf), if_neg h₁]
      exact hget
    have htwo := length_add_length_le_poolSize hfirst' hhost' (Ne.symm h₁)
    rw [List.length_dropLast] at htwo
    omega

/-- On a balanced map with two proxies left, a round finds both of them and
its link table entries. -/
theorem allocateStep_isSome (hb : Balanced hostProxies) (hsize : 2 ≤ hostProxies.poolSize)
    (hl : LinksAll hostProxies linkTable) : (allocateStep hostProxies linkTable).isSome := by
  -- the first host holds the most proxies, so at least one
  obtain ⟨k₀, v₀, hk₀, hv₀⟩ := exists_ne_nil_of_poolSize_pos (by omega : 0 < hostProxies.poolSize)
  have hsome : (hostProxies.entries.lastMaxByKey fun e => e.2.length).isSome :=
    List.lastMaxByKey_isSome (List.ne_nil_of_mem (AList.mem_lookup_iff.mp hk₀))
  obtain ⟨first, hfirst⟩ := Option.isSome_iff_exists.mp hsome
  have hget : hostProxies.get? first.1 = some first.2 := mem_of_mem_entries (List.lastMaxByKey_mem hfirst)
  have hle₀ := List.lastMaxByKey_ge hfirst ⟨k₀, v₀⟩ (AList.mem_lookup_iff.mp hk₀)
  have hfl : first.2 ≠ [] := List.ne_nil_of_length_pos (Nat.lt_of_lt_of_le (List.length_pos_of_ne_nil hv₀) hle₀)
  obtain ⟨x, hx⟩ := Option.isSome_iff_exists.mp (List.getLast?_isSome.mpr hfl)
  -- as it holds at most half, another host has a proxy left
  have hrest := poolSize_replace [] hget
  have hbf := hb _ _ hget
  rw [List.length_nil] at hrest
  obtain ⟨b, lb, hb', hlb⟩ := exists_ne_nil_of_poolSize_pos (by omega : 0 < poolSize (hostProxies.replace first.1 []))
  have hbne : b ≠ first.1 := by
    intro hbf'
    rw [hbf', get?_replace _ _ _ _ (mem_of_get?_eq_some hget), if_pos rfl] at hb'
    exact hlb (Option.some.inj hb').symm
  rw [get?_replace _ _ _ _ (mem_of_get?_eq_some hget), if_neg hbne] at hb'
  obtain ⟨peers, n, hpeers, hn⟩ := hl first.1 b first.2 lb (Ne.symm hbne) hget hfl hb' hlb
  have hmid : ∀ host, host ≠ first.1 → get? (hostProxies.replace first.1 first.2.dropLast) host = hostProxies.get? host :=
    fun host hh => by rw [get?_replace _ _ _ _ (mem_of_get?_eq_some hget), if_neg hh]
  unfold allocateStep
  simp only [Option.bind_eq_bind, hfirst, Option.bind_some, hx, hpeers, Option.isSome_bind, Option.any_eq_true]
  refine Option.exists_eq_some_of_isSome ?_ fun second hsecond => ?_
  · -- `b` is a candidate
    refine Option.isSome_iff_ne_none.mpr fun hnone => ?_
    refine List.ne_nil_of_mem (List.mem_filter.mpr ⟨AList.mem_lookup_iff.mp hn, ?_⟩) (List.firstMinBy_eq_none.mp hnone)
    simp only [Bool.and_eq_true, decide_eq_true_eq, hmid b hbne, hb']
    exact ⟨hbne, by simpa using hlb⟩
  · -- the candidate picked has a proxy, and the table has its entries
    have hcand := List.mem_filter.mp (List.firstMinBy_mem hsecond)
    simp only [Bool.and_eq_true, decide_eq_true_eq] at hcand
    obtain ⟨-, hsne, hslen⟩ := hcand
    rw [hmid _ hsne] at hslen
    cases hsl : hostProxies.get? second.1 with
    | none => rw [hsl] at hslen; cases hslen
    | some sl =>
        rw [hsl] at hslen
        simp only [decide_eq_true_eq, ne_eq, List.length_eq_zero_iff] at hslen
        have hslne : sl ≠ [] := hslen
        obtain ⟨y, hy⟩ := Option.isSome_iff_exists.mp (List.getLast?_isSome.mpr hslne)
        have hl₁ := hl first.1 second.1 first.2 sl (Ne.symm hsne) hget hfl hsl hslne
        have hl₂ := hl second.1 first.1 sl first.2 hsne hsl hslne hget hfl
        obtain ⟨t, ht⟩ := Option.isSome_iff_exists.mp (incLink_isSome hl₁)
        obtain ⟨t', ht'⟩ := Option.isSome_iff_exists.mp (incLink_isSome (hl₂.incLink ht))
        simp [hmid _ hsne, hsl, hy, ht, ht']

end Step

/-! ## The loop -/

/-- On a balanced map with enough proxies, the loop runs all its rounds, and
each pair it adds is split across two hosts. -/
theorem allocateLoop_spec : ∀ (rounds : Nat) {hostProxies : OrdMap String (List String)}
    {linkTable : OrdMap String (OrdMap String Nat)} (pairs : List (String × String)),
    Balanced hostProxies → 2 * rounds ≤ hostProxies.poolSize → LinksAll hostProxies linkTable →
    ∃ out, allocateLoop rounds hostProxies linkTable pairs = some out ∧ out.length = pairs.length + rounds ∧
      ∀ pair ∈ out, pair ∈ pairs ∨ SplitHosts hostProxies pair
  | 0, _, _, pairs, _, _, _ => ⟨pairs, rfl, rfl, fun _ h => .inl h⟩
  | rounds + 1, hostProxies, linkTable, pairs, hb, hsize, hl => by
      obtain ⟨⟨hostProxies', linkTable', pair⟩, hstep⟩ :=
        Option.isSome_iff_exists.mp (allocateStep_isSome hb (by omega) hl)
      obtain ⟨hb', hpool⟩ := hb.allocateStep hstep
      obtain ⟨hshrink, hsplit, hlinks⟩ := allocateStep_spec hstep
      obtain ⟨out, hout, hlen, hmem⟩ := allocateLoop_spec rounds (pairs ++ [pair]) hb' (by omega) (hlinks hl)
      refine ⟨out, ?_, ?_, fun p hp => ?_⟩
      · simp only [allocateLoop, hstep, Option.bind_eq_bind, Option.bind_some]
        exact hout
      · rw [hlen, List.length_append, List.length_singleton]
        omega
      · rcases hmem p hp with hin | hsp
        · rcases List.mem_append.mp hin with h | h
          · exact .inl h
          · rw [List.mem_singleton.mp h]
            exact .inr hsplit
        · exact .inr (hsp.of_shrinks hshrink)

theorem poolSize_eq_sum (hostProxies : OrdMap String (List String)) :
    (hostProxies.values.map List.length).sum = hostProxies.poolSize :=
  List.length_flatten.symm

/-- With no host over half, `allocate_chunk` passes its checks and pairs
`expected_num / 2` times. -/
theorem allocateChunk_spec {hostProxies : OrdMap String (List String)}
    {linkTable : OrdMap String (OrdMap String Nat)} {expectedNum : Nat}
    (hhalf : ∀ host proxies, hostProxies.get? host = some proxies → 2 * proxies.length ≤ hostProxies.poolSize)
    (hsize : expectedNum ≤ hostProxies.poolSize) (heven : expectedNum % 2 = 0)
    (hl : LinksAll hostProxies linkTable) :
    ∃ pairs, allocateChunk hostProxies linkTable expectedNum = some (.ok pairs) ∧
      pairs.length = expectedNum / 2 ∧ ∀ pair ∈ pairs, SplitHosts hostProxies pair := by
  have hhalf' : ∀ x ∈ hostProxies.values.map List.length, x ≤ hostProxies.poolSize / 2 := by
    intro x hx
    obtain ⟨proxies, hp, rfl⟩ := List.mem_map.mp hx
    obtain ⟨host, hget⟩ := mem_values.mp hp
    have := hhalf host proxies hget
    omega
  have hmax := List.max?_getD_le hhalf'
  have hbal : Balanced hostProxies := fun host proxies hget => by
    have := hhalf host proxies hget
    omega
  obtain ⟨out, hout, hlen, hsplit⟩ := allocateLoop_spec ((expectedNum + 1) / 2) [] hbal (by omega) hl
  refine ⟨out, ?_, by rw [hlen, List.length_nil]; omega, fun pair hp => (hsplit pair hp).resolve_left List.not_mem_nil⟩
  unfold allocateChunk
  dsimp only
  rw [poolSize_eq_sum, if_neg (by omega), if_neg (by omega), hout, Option.map_some]

/-! ## Trimming the host that holds too many -/

/-- The inner loop pops `k` proxies: it stops at the first count that no
longer exceeds half, or when its fuel runs out, and it pops only while the
count exceeds half. -/
theorem popRedundant_spec : ∀ (fuel : Nat) (proxies : List String) (free max : Nat),
    ∃ k, popRedundant fuel proxies free max = (proxies.take (proxies.length - k), free - k, max - k) ∧
      k ≤ fuel ∧ (k < fuel → 2 * (max - k) ≤ free - k) ∧ (0 < k → free < 2 * max) ∧
      (0 < k → free - (k - 1) < 2 * (max - (k - 1)))
  | 0, proxies, free, max => ⟨0, by simp only [popRedundant, Nat.sub_zero, List.take_length], Nat.le_refl _,
      fun h => absurd h (Nat.lt_irrefl 0), fun h => absurd h (Nat.lt_irrefl 0), fun h => absurd h (Nat.lt_irrefl 0)⟩
  | fuel + 1, proxies, free, max => by
      rw [popRedundant]
      split
      · next hgt =>
          obtain ⟨k, hk, hle, hstop, -, hlast⟩ := popRedundant_spec fuel proxies.dropLast (free - 1) (max - 1)
          refine ⟨k + 1, ?_, by omega, fun hlt => ?_, fun _ => by omega, fun _ => ?_⟩
          · rw [hk, List.length_dropLast, List.dropLast_eq_take, List.take_take, Prod.mk.injEq, Prod.mk.injEq]
            exact ⟨by congr 1; omega, by omega, by omega⟩
          · have := hstop (by omega)
            omega
          · rcases Nat.eq_zero_or_pos k with rfl | hpos
            · omega
            · have := hlast hpos
              omega
      · next hle =>
          exact ⟨0, by simp only [Nat.sub_zero, List.take_length], Nat.zero_le _,
            fun _ => by omega, fun h => absurd h (Nat.lt_irrefl 0), fun h => absurd h (Nat.lt_irrefl 0)⟩

/-- `remove_redundant_chunks` leaves every host with at most half of the
proxies and at least as many proxies as asked for, and it changes one host
only, popping proxies off it only when it held more than half. -/
theorem removeRedundantChunks_spec {hostProxies hostProxies' : OrdMap String (List String)} {expectedNum : Nat}
    (h : removeRedundantChunks hostProxies expectedNum = .ok hostProxies') :
    expectedNum ≤ hostProxies'.poolSize ∧ Shrinks hostProxies hostProxies' ∧
    (∀ host proxies, hostProxies'.get? host = some proxies → 2 * proxies.length ≤ hostProxies'.poolSize) ∧
    ∃ host, (∀ host', host' ≠ host → hostProxies'.get? host' = hostProxies.get? host') ∧
      ∀ proxies proxies', hostProxies.get? host = some proxies → hostProxies'.get? host = some proxies' →
        proxies' <+: proxies ∧ (proxies' ≠ proxies → hostProxies.poolSize < 2 * proxies.length) := by
  unfold removeRedundantChunks at h
  dsimp only at h
  rw [poolSize_eq_sum] at h
  -- every count is at most the largest, which some host attains
  have hle_max : ∀ host proxies, hostProxies.get? host = some proxies →
      proxies.length ≤ (hostProxies.values.map List.length).max?.getD 0 := fun host proxies hget =>
    List.le_max?_getD_of_mem (List.mem_map_of_mem (mem_values.mpr ⟨host, hget⟩))
  split at h
  · next e he =>
      have hget := mem_of_mem_entries (List.mem_of_find?_eq_some he)
      have hlen := List.find?_some he
      simp only [decide_eq_true_eq] at hlen
      obtain ⟨k, hpop, hkle, hstop, hfirst, hlast⟩ := popRedundant_spec
        ((hostProxies.values.map List.length).max?.getD 0) e.2 hostProxies.poolSize
        ((hostProxies.values.map List.length).max?.getD 0)
      rw [hpop] at h
      dsimp only at h
      split at h
      · cases h
      · next hexp =>
          cases h
          have hsize := poolSize_replace (e.2.take (e.2.length - k)) hget
          rw [List.length_take, Nat.min_eq_left (Nat.sub_le _ _)] at hsize
          have hpool : poolSize (hostProxies.replace e.1 (e.2.take (e.2.length - k))) =
              hostProxies.poolSize - k := by omega
          refine ⟨by omega, Shrinks.replace hget (List.take_prefix _ _), fun host proxies hget' => ?_, e.1,
            fun host' hne => ?_, fun proxies proxies' hp hp' => ?_⟩
          · rw [hpool]
            rw [get?_replace _ _ _ _ (mem_of_get?_eq_some hget)] at hget'
            split_ifs at hget' with hhost
            · -- the trimmed host
              cases hget'
              rw [List.length_take, Nat.min_eq_left (Nat.sub_le _ _)]
              rcases Nat.lt_or_ge k e.2.length with hk | hk
              · have := hstop (by omega)
                omega
              · omega
            · -- any other host: no more than the trimmed one held, and both in the pool
              have hle := hle_max host proxies hget'
              have htwo := length_add_length_le_poolSize hget hget' (Ne.symm hhost)
              rcases Nat.eq_zero_or_pos k with hk | hk
              · rcases Nat.eq_zero_or_pos e.2.length with hm | hm
                · omega
                · have := hstop (by omega)
                  omega
              · have := hlast hk
                rcases Nat.lt_or_ge k e.2.length with hk' | hk'
                · have := hstop (by omega)
                  omega
                · omega
          · rw [get?_replace _ _ _ _ (mem_of_get?_eq_some hget), if_neg hne]
          · rw [hget] at hp
            cases hp
            rw [get?_replace _ _ _ _ (mem_of_get?_eq_some hget), if_pos rfl] at hp'
            cases hp'
            refine ⟨List.take_prefix _ _, fun hne => ?_⟩
            have hk : 0 < k := by
              rcases Nat.eq_zero_or_pos k with hk | hk
              · rw [hk, Nat.sub_zero, List.take_length] at hne
                exact absurd rfl hne
              · exact hk
            have := hfirst hk
            omega
  · next he =>
      -- no host attains the largest count, so the map is empty
      have hempty : ∀ host proxies, hostProxies.get? host = some proxies → False := by
        intro host proxies hget
        have hin : proxies.length ∈ hostProxies.values.map List.length :=
          List.mem_map_of_mem (mem_values.mpr ⟨host, hget⟩)
        cases hm : (hostProxies.values.map List.length).max? with
        | none => exact absurd (List.max?_eq_none_iff.mp hm) (List.ne_nil_of_mem hin)
        | some m =>
            obtain ⟨l, hl, hlm⟩ := List.mem_map.mp (List.max?_mem hm)
            obtain ⟨e, he', rfl⟩ := List.mem_map.mp hl
            have := List.find?_eq_none.mp he e he'
            rw [hm] at this
            exact this (by simpa using hlm)
      dsimp only at h
      split at h
      · cases h
      · cases h
        exact ⟨by omega, Shrinks.refl _, fun host proxies hget => (hempty host proxies hget).elim, "", fun _ _ => rfl,
          fun proxies _ hget _ => (hempty _ proxies hget).elim⟩

/-! ## Choosing the pairs of new chunks -/

/-- `remove_redundant_chunks` pops proxies off one host only, and only when
that host holds more than half of them, and it leaves no host with more than
half. On what it leaves, `allocate_chunk`, with a link table that links every
two hosts with free proxies (as `build_link_table`'s does), neither panics nor
finds the proxies unbalanced, and it returns `expected_num / 2` pairs, each of
proxies of the map on two different hosts, with no proxy twice. -/
theorem allocateChunk_pairs_distinct_hosts (hostProxies hostProxies' : OrdMap String (List String))
    (linkTable : OrdMap String (OrdMap String Nat)) (expectedNum : Nat)
    (hnodup : hostProxies.values.flatten.Nodup) (heven : expectedNum % 2 = 0)
    (hrem : removeRedundantChunks hostProxies expectedNum = .ok hostProxies')
    (hlinks : LinksAll hostProxies linkTable) :
    (∀ s : MetaStore, LinksAll (generateFreeHostProxies s) (buildLinkTable s)) ∧
    (∃ host, (∀ host', host' ≠ host → hostProxies'.get? host' = hostProxies.get? host') ∧
      ∀ proxies proxies', hostProxies.get? host = some proxies → hostProxies'.get? host = some proxies' →
        proxies' <+: proxies ∧ (proxies' ≠ proxies → hostProxies.poolSize < 2 * proxies.length)) ∧
    (∀ host proxies, hostProxies'.get? host = some proxies → 2 * proxies.length ≤ hostProxies'.poolSize) ∧
    ∃ pairs, allocateChunk hostProxies' linkTable expectedNum = some (.ok pairs) ∧
      pairs.length = expectedNum / 2 ∧ (∀ pair ∈ pairs, SplitHosts hostProxies pair) ∧
      (pairsFlat pairs).Nodup ∧ ∀ a ∈ pairsFlat pairs, a ∈ hostProxies.values.flatten := by
  obtain ⟨hsize, hshrink, hhalf, hone⟩ := removeRedundantChunks_spec hrem
  obtain ⟨pairs, hpairs, hlen, hsplit⟩ := allocateChunk_spec hhalf hsize heven (hlinks.of_shrinks hshrink)
  -- what is paired comes from the pool, which holds every address once
  have hpool : List.Subperm (pairsFlat pairs) hostProxies.values.flatten :=
    (allocateChunk_pool hpairs).trans (removeRedundantChunks_pool hrem)
  obtain ⟨l, hperm, hsub⟩ := hpool
  refine ⟨linksAll_buildLinkTable, hone, hhalf, pairs, hpairs, hlen,
    fun pair hp => (hsplit pair hp).of_shrinks hshrink, hperm.nodup_iff.mp (hnodup.sublist hsub),
    fun a ha => hsub.subset (hperm.symm.subset ha)⟩

/-- Three hosts, the first with two free proxies. -/
def threeHosts : OrdMap String (List String) :=
  ⟨[⟨"h1", ["a1", "a2"]⟩, ⟨"h2", ["b1"]⟩, ⟨"h3", ["c1"]⟩], by unfold List.NodupKeys; decide⟩

/-- No chunk yet between any two of them. -/
def threeLinks : OrdMap String (OrdMap String Nat) :=
  ⟨[⟨"h1", ⟨[⟨"h2", 0⟩, ⟨"h3", 0⟩], by unfold List.NodupKeys; decide⟩⟩,
    ⟨"h2", ⟨[⟨"h1", 0⟩, ⟨"h3", 0⟩], by unfold List.NodupKeys; decide⟩⟩,
    ⟨"h3", ⟨[⟨"h1", 0⟩, ⟨"h2", 0⟩], by unfold List.NodupKeys; decide⟩⟩], by unfold List.NodupKeys; decide⟩

theorem allocateChunk_pairs_distinct_hosts_threeHosts :
    ∃ pairs, allocateChunk threeHosts threeLinks 4 = some (.ok pairs) ∧ pairs.length = 2 ∧
      (∀ pair ∈ pairs, SplitHosts threeHosts pair) ∧ (pairsFlat pairs).Nodup := by
  obtain ⟨-, -, -, pairs, hpairs, hlen, hsplit, hnodup, -⟩ :=
    allocateChunk_pairs_distinct_hosts threeHosts threeHosts threeLinks 4 (by decide) rfl rfl
      (LinksAll.of_keys (by decide))
  exact ⟨pairs, hpairs, hlen, hsplit, hnodup⟩

end MetaStoreUpdate

end Undermoon
