import Undermoon.Proofs.Allocation
import Undermoon.Proofs.Layout
import Undermoon.Proofs.FailedCalls
import Undermoon.Proofs.Steps

/-!
# Every proxy where the store says it is

The store keeps each server proxy twice: once in the proxy table, with the
cluster it serves, and once in a half of a chunk of that cluster, with the
chunk's copy of its host and nodes. `check_metadata` tests that the two
agree. `MetaStore.Consistent` is that agreement as a property: every chunk
half is a proxy of the table tagged with its cluster and carrying the half's
host and nodes, no cluster holds an address twice, and every tagged proxy is
in its cluster.

It holds of the new store and every operation keeps it, so `check_metadata`
holds of every store the broker reaches. The calls that leave the table and
every chunk layout alone keep it at once (`Proofs/Layout`); the others add
chunks of free proxies (`add_cluster`, `auto_add_nodes`), drop chunks and free
their proxies (`remove_cluster`, `auto_delete_free_nodes`), add or remove a
free proxy, or hand one half of one chunk to a free proxy
(`replace_failed_proxy`), and each of those has its lemma here.
-/

namespace Undermoon

namespace MetaStore

/-- Half `i` of `chunk`, in cluster `name`, is the proxy the table has at its
address: tagged with the cluster, on the chunk's host, with the half's two
nodes. -/
def Backs (s : MetaStore) (name : ClusterName) (chunk : ChunkStore) (i : Fin 2) : Prop :=
  ∃ r, s.allProxies.get? (chunk.proxyAddresses i) = some r ∧ r.cluster = some name ∧
    r.host = chunk.hosts i ∧ r.nodeAddresses = chunk.halfNodes i

/-- The cross references of the proxy table and the clusters. -/
structure Consistent (s : MetaStore) : Prop where
  keyed : s.Keyed
  backed : ∀ name c, s.clusters.get? name = some c → ∀ chunk ∈ c.chunks, ∀ i, s.Backs name chunk i
  nodup : ∀ name c, s.clusters.get? name = some c → c.getProxyAddresses.Nodup
  tagged : ∀ a r name, s.allProxies.get? a = some r → r.cluster = some name →
    ∃ c, s.clusters.get? name = some c ∧ a ∈ c.getProxyAddresses

theorem consistent_new (b : Bool) : (MetaStore.new b).Consistent where
  keyed _ _ h := by cases h
  backed _ _ h := by cases h
  nodup _ _ h := by cases h
  tagged _ _ _ h := by cases h

theorem mem_getProxyAddresses {c : ClusterStore} {a : String} :
    a ∈ c.getProxyAddresses ↔ ∃ chunk ∈ c.chunks, ∃ i, chunk.proxyAddresses i = a := by
  unfold ClusterStore.getProxyAddresses
  simp only [List.mem_flatMap, List.mem_cons, List.not_mem_nil, or_false]
  constructor
  · rintro ⟨chunk, hc, ha | ha⟩
    · exact ⟨chunk, hc, 0, ha.symm⟩
    · exact ⟨chunk, hc, 1, ha.symm⟩
  · rintro ⟨chunk, hc, i, rfl⟩
    refine ⟨chunk, hc, ?_⟩
    fin_cases i
    · exact .inl rfl
    · exact .inr rfl

variable {s : MetaStore}

/-- A proxy of a cluster is tagged with it. -/
theorem Consistent.tag_of_mem (hs : s.Consistent) {name : ClusterName} {c : ClusterStore}
    (hc : s.clusters.get? name = some c) {a : String} (ha : a ∈ c.getProxyAddresses) :
    ∃ r, s.allProxies.get? a = some r ∧ r.cluster = some name := by
  obtain ⟨chunk, hchunk, i, rfl⟩ := mem_getProxyAddresses.mp ha
  obtain ⟨r, hr, hcl, -⟩ := hs.backed name c hc chunk hchunk i
  exact ⟨r, hr, hcl⟩

/-- A free proxy is in no cluster. -/
theorem Consistent.not_mem_of_free (hs : s.Consistent) {r : ProxyResource} (hr : s.FreeProxy r)
    {name : ClusterName} {c : ClusterStore} (hc : s.clusters.get? name = some c) :
    r.proxyAddress ∉ c.getProxyAddresses := by
  intro ha
  obtain ⟨r', hr', hcl⟩ := hs.tag_of_mem hc ha
  rw [hr.1] at hr'
  cases hr'
  rw [hr.2] at hcl
  cases hcl

/-- The proxies of two clusters are tagged apart. -/
theorem Consistent.not_mem_of_tag (hs : s.Consistent) {name name' : ClusterName}
    {c : ClusterStore} (hc : s.clusters.get? name = some c) {a : String} {r : ProxyResource}
    (hr : s.allProxies.get? a = some r) (hcl : r.cluster = some name') (hne : name' ≠ name) :
    a ∉ c.getProxyAddresses := by
  intro ha
  obtain ⟨r', hr', hcl'⟩ := hs.tag_of_mem hc ha
  rw [hr] at hr'
  cases hr'
  rw [hcl] at hcl'
  exact hne (Option.some.inj hcl')

end MetaStore

/-! ## The check -/

namespace MetaStoreQuery

variable {s : MetaStore}

theorem checkHalf_of_backs (hk : s.Keyed) {name : ClusterName} {chunk : ChunkStore} {i : Fin 2}
    (hb : s.Backs name chunk i) {seen : List String} (hn : chunk.proxyAddresses i ∉ seen) :
    checkHalf s name chunk i seen = (true, chunk.proxyAddresses i :: seen) := by
  obtain ⟨r, hr, hcl, hhost, hnodes⟩ := hb
  simp only [checkHalf, hr]
  simp [hk _ _ hr, hcl, hhost, hnodes, hn]

/-- The first loop of `check_metadata` passes over chunks whose halves are
backed and whose addresses are new. -/
theorem checkCluster_fold (hk : s.Keyed) (name : ClusterName) :
    ∀ (chunks : List ChunkStore) (seen : List String),
      (∀ chunk ∈ chunks, ∀ i, s.Backs name chunk i) →
      (MetaStoreUpdate.chunkProxyAddresses chunks).Nodup →
      (∀ a ∈ MetaStoreUpdate.chunkProxyAddresses chunks, a ∉ seen) →
      (chunks.foldl (fun (acc : Bool × List String) chunk =>
        let (ok0, seen) := checkHalf s name chunk 0 acc.2
        let (ok1, seen) := checkHalf s name chunk 1 seen
        (acc.1 && ok0 && ok1, seen)) (true, seen)).1 = true
  | [], _, _, _, _ => rfl
  | chunk :: rest, seen, hb, hnd, hfresh => by
      simp only [MetaStoreUpdate.chunkProxyAddresses, List.flatMap_cons, List.cons_append,
        List.nil_append, List.nodup_cons, List.mem_cons] at hnd hfresh
      obtain ⟨h0, h1, hrest⟩ := hnd
      rw [List.foldl_cons]
      have hc0 := checkHalf_of_backs hk (hb chunk List.mem_cons_self 0) (hfresh _ (.inl rfl))
      have hc1 : checkHalf s name chunk 1 (chunk.proxyAddresses 0 :: seen) =
          (true, chunk.proxyAddresses 1 :: chunk.proxyAddresses 0 :: seen) :=
        checkHalf_of_backs hk (hb chunk List.mem_cons_self 1) (by
          rw [List.mem_cons, not_or]
          exact ⟨fun h => h0 (h ▸ .inl rfl), hfresh _ (.inr (.inl rfl))⟩)
      simp only [hc0, hc1, Bool.and_self]
      refine checkCluster_fold hk name rest _ (fun c hc => hb c (List.mem_cons_of_mem _ hc)) hrest ?_
      intro a ha
      simp only [List.mem_cons, not_or]
      refine ⟨fun h => h1 (h ▸ ha), fun h => h0 (h ▸ .inr ha), hfresh a (.inr (.inr ha))⟩

theorem checkMetadata_of_consistent (hs : s.Consistent) : checkMetadata s = true := by
  unfold checkMetadata
  rw [Bool.and_eq_true, List.all_eq_true, List.all_eq_true]
  refine ⟨fun e he => ?_, fun e he => ?_⟩
  · -- every cluster: backed halves, no address twice
    have hget := OrdMap.mem_of_mem_entries he
    exact checkCluster_fold hs.keyed e.1 e.2.chunks [] (hs.backed _ _ hget) (hs.nodup _ _ hget)
      (fun _ _ h => absurd h List.not_mem_nil)
  · -- every tagged proxy: in a chunk of its cluster
    have hget := OrdMap.mem_of_mem_entries he
    unfold checkProxy
    split
    · rfl
    · next name hcl =>
        obtain ⟨c, hc, ha⟩ := hs.tagged _ _ _ hget hcl
        rw [hc]
        obtain ⟨chunk, hchunk, i, hi⟩ := MetaStore.mem_getProxyAddresses.mp ha
        refine List.any_eq_true.mpr ⟨chunk, hchunk, ?_⟩
        fin_cases i
        · simp [← hi]
        · simp [← hi]

end MetaStoreQuery


/-! ## Along an unchanged layout -/

namespace MetaStore

variable {s s' : MetaStore}

theorem getProxyAddresses_eq_of_layout {c c' : ClusterStore} (h : c'.layout = c.layout) :
    c'.getProxyAddresses = c.getProxyAddresses := by
  have hl : ∀ c : ClusterStore,
      c.getProxyAddresses = c.layout.flatMap fun l => [l.1 0, l.1 1] := fun c => by
    unfold ClusterStore.getProxyAddresses ClusterStore.layout
    rw [List.flatMap_map]
    rfl
  rw [hl, hl, h]

theorem Backs.of_layout {name : ClusterName} {chunk chunk' : ChunkStore} {i : Fin 2}
    (hp : s'.allProxies = s.allProxies) (hl : chunk'.layout = chunk.layout) (hb : s.Backs name chunk i) :
    s'.Backs name chunk' i := by
  obtain ⟨r, hr, hcl, hhost, hnodes⟩ := hb
  have hpa : chunk'.proxyAddresses = chunk.proxyAddresses := congrArg Prod.fst hl
  have hh : chunk'.hosts = chunk.hosts := congrArg (·.2.1) hl
  have hn : chunk'.nodeAddresses = chunk.nodeAddresses := congrArg (·.2.2) hl
  refine ⟨r, ?_, hcl, ?_, ?_⟩
  · rw [hp, hpa]
    exact hr
  · rw [hh]
    exact hhost
  · unfold ChunkStore.halfNodes
    rw [hn]
    exact hnodes

theorem SameLayout.exists_before (h : s.SameLayout s') {name : ClusterName} {c' : ClusterStore}
    (hc : s'.clusters.get? name = some c') :
    ∃ c, s.clusters.get? name = some c ∧ c'.layout = c.layout := by
  have hm := h.clusters name
  rw [hc] at hm
  cases hs : s.clusters.get? name with
  | none => rw [hs] at hm; cases hm
  | some c => rw [hs] at hm; exact ⟨c, rfl, Option.some.inj hm⟩

theorem SameLayout.exists_after (h : s.SameLayout s') {name : ClusterName} {c : ClusterStore}
    (hc : s.clusters.get? name = some c) :
    ∃ c', s'.clusters.get? name = some c' ∧ c'.layout = c.layout := by
  have hm := h.clusters name
  rw [hc] at hm
  cases hs : s'.clusters.get? name with
  | none => rw [hs] at hm; cases hm
  | some c' => rw [hs] at hm; exact ⟨c', rfl, Option.some.inj hm⟩

/-- The cross references read only the table and the layouts. -/
theorem Consistent.of_sameLayout (hs : s.Consistent) (h : s.SameLayout s') : s'.Consistent where
  keyed a r hr := hs.keyed a r (h.allProxies ▸ hr)
  backed name c' hc' chunk' hchunk' i := by
    obtain ⟨c, hc, hl⟩ := h.exists_before hc'
    have hmem : chunk'.layout ∈ c.chunks.map ChunkStore.layout := by
      have : c'.chunks.map ChunkStore.layout = c.chunks.map ChunkStore.layout := hl
      rw [← this]
      exact List.mem_map_of_mem hchunk'
    obtain ⟨chunk, hchunk, hlc⟩ := List.mem_map.mp hmem
    exact Backs.of_layout h.allProxies hlc.symm (hs.backed name c hc chunk hchunk i)
  nodup name c' hc' := by
    obtain ⟨c, hc, hl⟩ := h.exists_before hc'
    rw [getProxyAddresses_eq_of_layout hl]
    exact hs.nodup name c hc
  tagged a r name hr hcl := by
    obtain ⟨c, hc, ha⟩ := hs.tagged a r name (h.allProxies ▸ hr) hcl
    obtain ⟨c', hc', hl⟩ := h.exists_after hc
    exact ⟨c', hc', (getProxyAddresses_eq_of_layout hl).symm ▸ ha⟩

theorem Consistent.of_eq (hs : s.Consistent) (hp : s'.allProxies = s.allProxies)
    (hc : s'.clusters = s.clusters) : s'.Consistent :=
  hs.of_sameLayout (.of_eq hp hc)

theorem Consistent.bump (hs : s.Consistent) : s.bumpGlobalEpoch.1.Consistent :=
  hs.of_eq rfl rfl

end MetaStore

/-! ## Tagging and freeing proxies -/

namespace MetaStoreUpdate

theorem get?_tagProxies {cluster : Option ClusterName} :
    ∀ {m m' : OrdMap String ProxyResource} {addresses : List String},
      tagProxies m addresses cluster = some m' →
      ∀ a, m'.get? a = if a ∈ addresses then (m.get? a).map fun r => { r with cluster }
        else m.get? a
  | m, m', [], h, a => by
      cases h
      rfl
  | m, m', b :: rest, h, a => by
      unfold tagProxies at h
      simp only [List.foldlM_cons, Option.bind_eq_bind, Option.bind_eq_some_iff, Option.pure_def,
        Option.some.injEq] at h
      obtain ⟨_, ⟨_, _, rfl⟩, h⟩ := h
      rw [get?_tagProxies h a]
      by_cases hab : a = b
      · subst hab
        rw [OrdMap.get?_modify_self, Option.map_map, if_pos List.mem_cons_self]
        split <;> rfl
      · rw [OrdMap.get?_modify_ne _ _ hab]
        simp only [List.mem_cons, hab, false_or]

theorem get?_freeProxies :
    ∀ (m : OrdMap String ProxyResource) (addresses : List String) (a : String),
      (freeProxies m addresses).get? a = if a ∈ addresses then
        (m.get? a).map fun r => { r with cluster := none } else m.get? a
  | m, [], a => rfl
  | m, b :: rest, a => by
      unfold freeProxies
      rw [List.foldl_cons]
      rw [← freeProxies, get?_freeProxies _ rest a]
      by_cases hab : a = b
      · subst hab
        rw [OrdMap.get?_modify_self, Option.map_map, if_pos List.mem_cons_self]
        split <;> rfl
      · rw [OrdMap.get?_modify_ne _ _ hab]
        simp only [List.mem_cons, hab, false_or]

end MetaStoreUpdate

/-! ## A free proxy in or out of the table -/

namespace MetaStore

variable {s s' : MetaStore}

/-- A new proxy, in no cluster, under its own address. -/
theorem Consistent.insertFree (hs : s.Consistent) {a : String} {r : ProxyResource}
    (hra : r.proxyAddress = a) (hfree : r.cluster = none)
    (hp : s'.allProxies = s.allProxies.insertIfAbsent a r) (hc : s'.clusters = s.clusters) :
    s'.Consistent := by
  unfold OrdMap.insertIfAbsent at hp
  split at hp
  · exact hs.of_eq hp hc
  · next hnew =>
      have hget : ∀ b, s'.allProxies.get? b = if b = a then some r else s.allProxies.get? b := by
        intro b
        rw [hp]
        exact OrdMap.get?_insert _ _ _ _
      refine ⟨fun b r' hr' => ?_, fun name c hc' chunk hchunk i => ?_,
        fun name c hc' => hs.nodup name c (hc ▸ hc'), fun b r' name hr' hcl => ?_⟩
      · rw [hget] at hr'
        split at hr'
        · cases hr'
          next hb => rw [hb]; exact hra
        · exact hs.keyed b r' hr'
      · -- a chunk's address is in the table already, so it is not the new one
        obtain ⟨r₀, hr₀, hrest⟩ := hs.backed name c (hc ▸ hc') chunk hchunk i
        have hne : chunk.proxyAddresses i ≠ a := fun h =>
          hnew (OrdMap.mem_of_get?_eq_some (h ▸ hr₀))
        exact ⟨r₀, by rw [hget, if_neg hne]; exact hr₀, hrest⟩
      · rw [hget] at hr'
        split at hr'
        · cases hr'
          rw [hfree] at hcl
          cases hcl
        · rw [hc]
          exact hs.tagged b r' name hr' hcl

/-- A proxy in no cluster leaves the table. -/
theorem Consistent.eraseFree (hs : s.Consistent) {a : String} {r : ProxyResource}
    (hr : s.allProxies.get? a = some r) (hfree : r.cluster = none)
    (hp : s'.allProxies = s.allProxies.erase a) (hc : s'.clusters = s.clusters) : s'.Consistent := by
  have hget : ∀ b, s'.allProxies.get? b = if b = a then none else s.allProxies.get? b := by
    intro b
    rw [hp]
    exact OrdMap.get?_erase _ _ _
  refine ⟨fun b r' hr' => ?_, fun name c hc' chunk hchunk i => ?_,
    fun name c hc' => hs.nodup name c (hc ▸ hc'), fun b r' name hr' hcl => ?_⟩
  · rw [hget] at hr'
    split at hr'
    · cases hr'
    · exact hs.keyed b r' hr'
  · -- a chunk's proxy is tagged, the erased one is not
    obtain ⟨r₀, hr₀, hcl₀, hrest⟩ := hs.backed name c (hc ▸ hc') chunk hchunk i
    have hne : chunk.proxyAddresses i ≠ a := by
      intro h
      rw [h, hr] at hr₀
      cases hr₀
      rw [hfree] at hcl₀
      cases hcl₀
    exact ⟨r₀, by rw [hget, if_neg hne]; exact hr₀, hcl₀, hrest⟩
  · rw [hget] at hr'
    split at hr'
    · cases hr'
    · rw [hc]
      exact hs.tagged b r' name hr' hcl

end MetaStore

/-! ## Chunks of free proxies join a cluster

`add_cluster` and `auto_add_nodes`: cluster `name`, which had the chunks
`old` (none when it did not exist), ends with `old ++ chunks`, where `chunks`
are made of free pairs; the proxies of the whole cluster are tagged with it,
and nothing else changes. -/

section AddChunks

variable {s s' : MetaStore} {name : ClusterName} {old chunks : List ChunkStore}
  {arr : List (ProxyResource × ProxyResource)} {tagged : List String}
  (hs : s.Consistent)
  (hold : ∀ c, s.clusters.get? name = some c → c.chunks = old)
  (hnone : s.clusters.get? name = none → old = [])
  (hcl : ∃ c', s'.clusters.get? name = some c' ∧ c'.chunks = old ++ chunks)
  (hothers : ∀ n, n ≠ name → s'.clusters.get? n = s.clusters.get? n)
  (hp : ∀ a, s'.allProxies.get? a = if a ∈ tagged then
    (s.allProxies.get? a).map fun r => { r with cluster := some name } else s.allProxies.get? a)
  (htags : ∀ a, a ∈ tagged ↔ a ∈ MetaStoreUpdate.chunkProxyAddresses (old ++ chunks))
  (hfree : s.FreePairs arr)
  (hmade : ∀ chunk ∈ chunks, ∃ p ∈ arr, ∃ st, chunk = MetaStoreUpdate.chunkStoreOf p.1 p.2 st)
  (haddr : MetaStoreUpdate.chunkProxyAddresses chunks = (pairsFlat arr).map ProxyResource.proxyAddress)

include hs hold hnone in
/-- The old proxies of the cluster are its own. -/
theorem addChunks_old_tag {a : String} (ha : a ∈ MetaStoreUpdate.chunkProxyAddresses old) :
    ∃ r, s.allProxies.get? a = some r ∧ r.cluster = some name := by
  cases hc : s.clusters.get? name with
  | none => rw [hnone hc] at ha; exact absurd ha List.not_mem_nil
  | some c =>
      have ha' : a ∈ c.getProxyAddresses := by
        unfold ClusterStore.getProxyAddresses
        rw [hold c hc]
        exact ha
      exact hs.tag_of_mem hc ha'

include hfree haddr in
/-- The new proxies are free. -/
theorem addChunks_new_free {a : String} (ha : a ∈ MetaStoreUpdate.chunkProxyAddresses chunks) :
    ∃ r, s.allProxies.get? a = some r ∧ r.cluster = none := by
  rw [haddr] at ha
  obtain ⟨r, hr, rfl⟩ := List.mem_map.mp ha
  exact ⟨r, (hfree.free r hr).1, (hfree.free r hr).2⟩

include hs hold hnone hfree haddr in
/-- A tagged address is either an old or a new one of the cluster, never one
of another cluster. -/
theorem addChunks_not_tagged {a : String} {r : ProxyResource} {n : ClusterName}
    (hr : s.allProxies.get? a = some r) (hn : r.cluster = some n) (hne : n ≠ name) :
    a ∉ MetaStoreUpdate.chunkProxyAddresses (old ++ chunks) := by
  intro ha
  rw [MetaStoreUpdate.chunkProxyAddresses, List.flatMap_append, List.mem_append] at ha
  rcases ha with ha | ha
  · obtain ⟨r', hr', hcl'⟩ := addChunks_old_tag hs hold hnone ha
    rw [hr] at hr'
    cases hr'
    rw [hn] at hcl'
    exact hne (Option.some.inj hcl')
  · obtain ⟨r', hr', hcl'⟩ := addChunks_new_free hfree haddr ha
    rw [hr] at hr'
    cases hr'
    rw [hn] at hcl'
    cases hcl'

include hs hold hnone hcl hothers hp htags hfree hmade haddr in
theorem MetaStore.Consistent.addChunks : s'.Consistent := by
  obtain ⟨c', hc', hchunks⟩ := hcl
  refine ⟨fun a r' hr' => ?_, fun n c hc chunk hchunk i => ?_, fun n c hc => ?_,
    fun a r' n hr' hn => ?_⟩
  · -- keyed: tagging keeps addresses
    rw [hp] at hr'
    split at hr'
    · obtain ⟨r, hr, rfl⟩ := Option.map_eq_some_iff.mp hr'
      exact hs.keyed a r hr
    · exact hs.keyed a r' hr'
  · by_cases hn : n = name
    · subst hn
      rw [hc'] at hc
      cases hc
      rw [hchunks, List.mem_append] at hchunk
      -- the address of the half is one of the cluster's, so it is tagged
      have hmem : chunk.proxyAddresses i ∈ MetaStoreUpdate.chunkProxyAddresses (old ++ chunks) := by
        rw [← hchunks]
        exact MetaStore.mem_getProxyAddresses.mpr ⟨chunk, hchunks ▸ List.mem_append.mpr hchunk, i, rfl⟩
      rw [MetaStore.Backs, hp, if_pos ((htags _).mpr hmem)]
      rcases hchunk with hold' | hnew
      · -- an old chunk: its proxy was tagged with the cluster already
        cases hcs : s.clusters.get? n with
        | none => rw [hnone hcs] at hold'; exact absurd hold' List.not_mem_nil
        | some c =>
            obtain ⟨r, hr, -, hhost, hnodes⟩ :=
              hs.backed n c hcs chunk (by rw [hold c hcs]; exact hold') i
            exact ⟨{ r with cluster := some n }, by rw [hr]; rfl, rfl, hhost, hnodes⟩
      · -- a new chunk: its proxies are the pair it was made of
        obtain ⟨p, hp', st, rfl⟩ := hmade chunk hnew
        have hq : ![p.1, p.2] i ∈ pairsFlat arr := by
          refine List.mem_flatMap.mpr ⟨p, hp', ?_⟩
          fin_cases i
          · exact List.mem_cons_self
          · exact List.mem_cons_of_mem _ List.mem_cons_self
        have hfq := hfree.free _ hq
        refine ⟨{ ![p.1, p.2] i with cluster := some n }, ?_, rfl, ?_, ?_⟩
        · rw [MetaStoreUpdate.chunkStoreOf_proxyAddresses]
          have : ![p.1.proxyAddress, p.2.proxyAddress] i = (![p.1, p.2] i).proxyAddress := by
            fin_cases i <;> rfl
          rw [this, hfq.1]
          rfl
        · fin_cases i <;> rfl
        · exact (MetaStoreUpdate.chunkStoreOf_halfNodes _ _ _ _).symm
    · rw [hothers n hn] at hc
      obtain ⟨r, hr, hrn, hrest⟩ := hs.backed n c hc chunk hchunk i
      have hnot := addChunks_not_tagged hs hold hnone hfree haddr hr hrn hn
      rw [← htags] at hnot
      exact ⟨r, by rw [hp, if_neg hnot]; exact hr, hrn, hrest⟩
  · by_cases hn : n = name
    · subst hn
      rw [hc'] at hc
      cases hc
      unfold ClusterStore.getProxyAddresses
      rw [hchunks, ← MetaStoreUpdate.chunkProxyAddresses, MetaStoreUpdate.chunkProxyAddresses,
        List.flatMap_append, List.nodup_append]
      refine ⟨?_, ?_, ?_⟩
      · cases hcs : s.clusters.get? n with
        | none => rw [hnone hcs]; exact List.nodup_nil
        | some c =>
            have := hs.nodup n c hcs
            unfold ClusterStore.getProxyAddresses at this
            rw [hold c hcs] at this
            exact this
      · rw [← MetaStoreUpdate.chunkProxyAddresses, haddr]
        exact hfree.nodup
      · -- old proxies are tagged, new ones free
        intro a ha b hb hab
        subst hab
        obtain ⟨r, hr, hrn⟩ := addChunks_old_tag hs hold hnone ha
        obtain ⟨r', hr', hrn'⟩ := addChunks_new_free hfree haddr hb
        rw [hr] at hr'
        cases hr'
        rw [hrn] at hrn'
        cases hrn'
    · rw [hothers n hn] at hc
      exact hs.nodup n c hc
  · rw [hp] at hr'
    split at hr'
    · next ha =>
        obtain ⟨r, -, rfl⟩ := Option.map_eq_some_iff.mp hr'
        cases hn
        refine ⟨c', hc', ?_⟩
        unfold ClusterStore.getProxyAddresses
        rw [hchunks]
        exact (htags a).mp ha
    · obtain ⟨c, hc, ha⟩ := hs.tagged a r' n hr' hn
      by_cases hnn : n = name
      · subst hnn
        refine ⟨c', hc', ?_⟩
        unfold ClusterStore.getProxyAddresses at ha ⊢
        rw [hchunks, List.flatMap_append, List.mem_append]
        rw [hold c hc] at ha
        exact .inl ha
      · exact ⟨c, by rw [hothers n hnn]; exact hc, ha⟩

end AddChunks

/-! ## Chunks leave a cluster and free their proxies

`auto_delete_free_nodes` keeps the chunks that fail a test and frees the
proxies of the others; `remove_cluster` drops the whole cluster. -/

section DropChunks

variable {s s' : MetaStore} {name : ClusterName} {c : ClusterStore} {q : ChunkStore → Bool}
  (hs : s.Consistent) (hc : s.clusters.get? name = some c)
  (hcl : ∃ c', s'.clusters.get? name = some c' ∧ c'.chunks = c.chunks.filter fun x => !q x)
  (hothers : ∀ n, n ≠ name → s'.clusters.get? n = s.clusters.get? n)
  (hp : ∀ a, s'.allProxies.get? a =
    if a ∈ MetaStoreUpdate.chunkProxyAddresses (c.chunks.filter q) then
      (s.allProxies.get? a).map fun r => { r with cluster := none }
    else s.allProxies.get? a)

/-- The removed and the kept addresses split the cluster's. -/
theorem dropChunks_perm (c : ClusterStore) (q : ChunkStore → Bool) :
    List.Perm (MetaStoreUpdate.chunkProxyAddresses (c.chunks.filter q) ++
      MetaStoreUpdate.chunkProxyAddresses (c.chunks.filter fun x => !q x)) c.getProxyAddresses := by
  unfold MetaStoreUpdate.chunkProxyAddresses ClusterStore.getProxyAddresses
  rw [← List.flatMap_append]
  exact (List.filter_append_perm q c.chunks).flatMap_right _

include hs hc hcl hothers hp in
theorem MetaStore.Consistent.dropChunks : s'.Consistent := by
  obtain ⟨c', hc', hchunks⟩ := hcl
  have hsplit := ((dropChunks_perm c q).nodup_iff.mpr (hs.nodup name c hc))
  rw [List.nodup_append] at hsplit
  obtain ⟨-, hkept, hdisj⟩ := hsplit
  have hmem : ∀ a, a ∈ c.getProxyAddresses ↔
      a ∈ MetaStoreUpdate.chunkProxyAddresses (c.chunks.filter q) ∨
        a ∈ MetaStoreUpdate.chunkProxyAddresses (c.chunks.filter fun x => !q x) := fun a => by
    rw [← List.mem_append]
    exact (dropChunks_perm c q).mem_iff.symm
  have hkeptAddr : c'.getProxyAddresses =
      MetaStoreUpdate.chunkProxyAddresses (c.chunks.filter fun x => !q x) := by
    unfold ClusterStore.getProxyAddresses
    rw [hchunks]
    rfl
  refine ⟨fun a r' hr' => ?_, fun n c'' hc'' chunk hchunk i => ?_, fun n c'' hc'' => ?_,
    fun a r' n hr' hn => ?_⟩
  · rw [hp] at hr'
    split at hr'
    · obtain ⟨r, hr, rfl⟩ := Option.map_eq_some_iff.mp hr'
      exact hs.keyed a r hr
    · exact hs.keyed a r' hr'
  · obtain ⟨r, hr, hrn, hrest⟩ : s.Backs n chunk i := by
      by_cases hn : n = name
      · subst hn
        rw [hc'] at hc''
        cases hc''
        rw [hchunks] at hchunk
        exact hs.backed n c hc chunk (List.mem_of_mem_filter hchunk) i
      · rw [hothers n hn] at hc''
        exact hs.backed n c'' hc'' chunk hchunk i
    -- a half that stays is not among the removed addresses
    have hnot : chunk.proxyAddresses i ∉
        MetaStoreUpdate.chunkProxyAddresses (c.chunks.filter q) := by
      intro hrem
      by_cases hn : n = name
      · subst hn
        rw [hc'] at hc''
        cases hc''
        have hk : chunk.proxyAddresses i ∈ c'.getProxyAddresses :=
          MetaStore.mem_getProxyAddresses.mpr ⟨chunk, hchunk, i, rfl⟩
        rw [hkeptAddr] at hk
        exact hdisj _ hrem _ hk rfl
      · exact hs.not_mem_of_tag hc hr hrn hn ((hmem _).mpr (.inl hrem))
    exact ⟨r, by rw [hp, if_neg hnot]; exact hr, hrn, hrest⟩
  · by_cases hn : n = name
    · subst hn
      rw [hc'] at hc''
      cases hc''
      rw [hkeptAddr]
      exact hkept
    · rw [hothers n hn] at hc''
      exact hs.nodup n c'' hc''
  · rw [hp] at hr'
    split at hr'
    · obtain ⟨r, -, rfl⟩ := Option.map_eq_some_iff.mp hr'
      cases hn
    · next hrem =>
        obtain ⟨c'', hc'', ha⟩ := hs.tagged a r' n hr' hn
        by_cases hnn : n = name
        · subst hnn
          rw [hc] at hc''
          cases hc''
          refine ⟨c', hc', ?_⟩
          rw [hkeptAddr]
          exact ((hmem a).mp ha).resolve_left hrem
        · exact ⟨c'', by rw [hothers n hnn]; exact hc'', ha⟩

end DropChunks

theorem MetaStore.Consistent.removeCluster {s s' : MetaStore} {name : ClusterName} {c : ClusterStore}
    (hs : s.Consistent) (hc : s.clusters.get? name = some c)
    (hcl : ∀ n, s'.clusters.get? n = if n = name then none else s.clusters.get? n)
    (hp : ∀ a, s'.allProxies.get? a = if a ∈ c.getProxyAddresses then
      (s.allProxies.get? a).map (fun r => { r with cluster := none }) else s.allProxies.get? a) :
    s'.Consistent := by
  refine ⟨fun a r' hr' => ?_, fun n c'' hc'' chunk hchunk i => ?_, fun n c'' hc'' => ?_,
    fun a r' n hr' hn => ?_⟩
  · rw [hp] at hr'
    split at hr'
    · obtain ⟨r, hr, rfl⟩ := Option.map_eq_some_iff.mp hr'
      exact hs.keyed a r hr
    · exact hs.keyed a r' hr'
  · rw [hcl] at hc''
    split at hc''
    · cases hc''
    · next hn =>
        obtain ⟨r, hr, hrn, hrest⟩ := hs.backed n c'' hc'' chunk hchunk i
        exact ⟨r, by rw [hp, if_neg (hs.not_mem_of_tag hc hr hrn hn)]; exact hr, hrn, hrest⟩
  · rw [hcl] at hc''
    split at hc''
    · cases hc''
    · exact hs.nodup n c'' hc''
  · rw [hp] at hr'
    split at hr'
    · obtain ⟨r, -, rfl⟩ := Option.map_eq_some_iff.mp hr'
      cases hn
    · next hrem =>
        obtain ⟨c'', hc'', ha⟩ := hs.tagged a r' n hr' hn
        -- the proxies of the removed cluster are all freed
        have hnn : n ≠ name := by
          rintro rfl
          rw [hc] at hc''
          cases hc''
          exact hrem ha
        exact ⟨c'', by rw [hcl, if_neg hnn]; exact hc'', ha⟩

/-! ## One half of one chunk changes hands

`replace_failed_proxy`, outside ordered mode: the first half held by the
failed proxy goes to a free proxy, the failed proxy is freed and the new one
tagged. -/

namespace MetaStoreUpdate

theorem findHalf_spec {chunks : List ChunkStore} {a : String} {i : Nat} {p : Fin 2}
    (h : findHalf chunks a = some (i, p)) :
    ∃ chunk, chunks[i]? = some chunk ∧ chunk.proxyAddresses p = a := by
  unfold findHalf at h
  obtain ⟨⟨chunk, i'⟩, hfind, heq⟩ := Option.map_eq_some_iff.mp h
  have hget := List.mem_zipIdx_iff_getElem?.mp (List.mem_of_find?_eq_some hfind)
  have hhalf := List.find?_some hfind
  simp only [Bool.or_eq_true, beq_iff_eq] at hhalf
  simp only [Prod.mk.injEq] at heq
  obtain ⟨rfl, rfl⟩ := heq
  refine ⟨chunk, hget, ?_⟩
  by_cases h0 : chunk.proxyAddresses 0 = a
  · simp [h0]
  · simp only [beq_iff_eq, h0, if_false]
    exact hhalf.resolve_left h0

theorem findHalf_isSome {chunks : List ChunkStore} {a : String}
    (ha : a ∈ chunkProxyAddresses chunks) : ∃ ip, findHalf chunks a = some ip := by
  obtain ⟨chunk, hchunk, hmem⟩ := List.mem_flatMap.mp ha
  obtain ⟨i, hi, hgeti⟩ := List.getElem_of_mem hchunk
  -- the search succeeds, at the latest on `(chunk, i)`
  have hsome : (findHalf chunks a).isSome := by
    rw [findHalf, Option.isSome_map]
    refine List.find?_isSome.mpr ⟨(chunk, i), ?_, ?_⟩
    · rw [List.mem_zipIdx_iff_getElem?]
      exact List.getElem?_eq_some_iff.mpr ⟨hi, hgeti⟩
    · simp only [List.mem_cons, List.not_mem_nil, or_false] at hmem
      rcases hmem with h | h <;> simp [h]
  exact Option.isSome_iff_exists.mp hsome

theorem mem_chunkProxyAddresses {chunks : List ChunkStore} {x : ChunkStore} (hx : x ∈ chunks)
    (j : Fin 2) : x.proxyAddresses j ∈ chunkProxyAddresses chunks := by
  refine List.mem_flatMap.mpr ⟨x, hx, ?_⟩
  fin_cases j <;> simp

theorem chunkProxyAddresses_middle (A B : List ChunkStore) (x : ChunkStore) :
    chunkProxyAddresses (A ++ x :: B) =
      chunkProxyAddresses A ++ x.proxyAddresses 0 :: x.proxyAddresses 1 :: chunkProxyAddresses B := by
  simp [chunkProxyAddresses]

@[simp] theorem replaceHalf_proxyAddresses (chunk : ChunkStore) (p : Fin 2) (r : ProxyResource) :
    (replaceHalf chunk p r).proxyAddresses = Function.update chunk.proxyAddresses p r.proxyAddress :=
  rfl

@[simp] theorem replaceHalf_hosts (chunk : ChunkStore) (p : Fin 2) (r : ProxyResource) :
    (replaceHalf chunk p r).hosts = Function.update chunk.hosts p r.host := rfl

theorem replaceHalf_halfNodes_self (chunk : ChunkStore) (p : Fin 2) (r : ProxyResource) :
    (replaceHalf chunk p r).halfNodes p = r.nodeAddresses := by
  funext j
  fin_cases p <;> fin_cases j <;> rfl

theorem replaceHalf_halfNodes_ne (chunk : ChunkStore) {p q : Fin 2} (r : ProxyResource)
    (h : q ≠ p) : (replaceHalf chunk p r).halfNodes q = chunk.halfNodes q := by
  funext j
  fin_cases p <;> fin_cases q <;> fin_cases j <;> first | rfl | exact absurd rfl h

end MetaStoreUpdate

section ReplaceHalf

variable {s s' : MetaStore} {name : ClusterName} {c : ClusterStore} {f : String}
  {failed r : ProxyResource}
  (hs : s.Consistent) (hfail : s.allProxies.get? f = some failed) (hfcl : failed.cluster = some name)
  (hr : s.FreeProxy r) (hc : s.clusters.get? name = some c)
  (hcl : ∃ c', s'.clusters.get? name = some c' ∧
    c'.chunks = MetaStoreUpdate.replaceChunks c.chunks f r)
  (hothers : ∀ n, n ≠ name → s'.clusters.get? n = s.clusters.get? n)
  (hp : ∀ a, s'.allProxies.get? a =
    if a = r.proxyAddress then (s.allProxies.get? a).map fun r => { r with cluster := some name }
    else if a = f then (s.allProxies.get? a).map fun r => { r with cluster := none }
    else s.allProxies.get? a)

include hfail hfcl hr in
theorem replaceHalf_ne : r.proxyAddress ≠ f := by
  intro h
  rw [← h, hr.1] at hfail
  cases hfail
  rw [hr.2] at hfcl
  cases hfcl

include hs hfail hfcl hr hc hcl hothers hp in
theorem MetaStore.Consistent.replaceHalf : s'.Consistent := by
  obtain ⟨c', hc', hchunks⟩ := hcl
  have hne := replaceHalf_ne hfail hfcl hr
  -- the failed proxy holds a half of the cluster: split the chunks around it
  obtain ⟨cl, hclf, hfmem⟩ := hs.tagged f failed name hfail hfcl
  rw [hc] at hclf
  cases hclf
  obtain ⟨⟨i, p⟩, hfind⟩ := MetaStoreUpdate.findHalf_isSome hfmem
  obtain ⟨chunk, hget, hpa⟩ := MetaStoreUpdate.findHalf_spec hfind
  obtain ⟨hi, hgeti⟩ := List.getElem?_eq_some_iff.mp hget
  obtain ⟨A, B, hsplit, hlen⟩ : ∃ A B, c.chunks = A ++ chunk :: B ∧ A.length = i :=
    ⟨c.chunks.take i, c.chunks.drop (i + 1),
      by rw [← hgeti, List.getElem_cons_drop, List.take_append_drop], by simp; omega⟩
  have hnew : c'.chunks = A ++ MetaStoreUpdate.replaceHalf chunk p r :: B := by
    rw [hchunks]
    unfold MetaStoreUpdate.replaceChunks
    rw [hfind]
    dsimp only
    rw [hsplit, ← hlen, List.modify_eq_take_cons_drop (by simp)]
    simp
  -- what the cluster's addresses say about each other
  have hL : c.getProxyAddresses = MetaStoreUpdate.chunkProxyAddresses A ++
      chunk.proxyAddresses 0 :: chunk.proxyAddresses 1 :: MetaStoreUpdate.chunkProxyAddresses B := by
    unfold ClusterStore.getProxyAddresses
    rw [hsplit, ← MetaStoreUpdate.chunkProxyAddresses, MetaStoreUpdate.chunkProxyAddresses_middle]
  have hnodup := hs.nodup name c hc
  have hrfree := hs.not_mem_of_free hr hc
  rw [hL] at hnodup hrfree
  obtain ⟨-, hmid, hdisj⟩ := List.nodup_append.mp hnodup
  simp only [List.nodup_cons, List.mem_cons, not_or] at hmid
  obtain ⟨⟨h01, h0B⟩, h1B, -⟩ := hmid
  have hfar : ∀ x ∈ A ++ B, ∀ j, x.proxyAddresses j ≠ f := by
    intro x hx j hxf
    rcases List.mem_append.mp hx with hx | hx
    · exact hdisj _ (MetaStoreUpdate.mem_chunkProxyAddresses hx j) f
        (by rw [← hpa]; fin_cases p <;> simp) hxf
    · have hxB := MetaStoreUpdate.mem_chunkProxyAddresses hx j
      rw [hxf, ← hpa] at hxB
      fin_cases p
      · exact h0B hxB
      · exact h1B hxB
  have hhalf : ∀ j, j ≠ p → chunk.proxyAddresses j ≠ f := by
    intro j hj hjf
    rw [← hpa] at hjf
    fin_cases j <;> fin_cases p
    all_goals first | exact absurd rfl hj | exact h01 hjf | exact h01 hjf.symm
  have hgetOther : ∀ a, a ≠ r.proxyAddress → a ≠ f → s'.allProxies.get? a = s.allProxies.get? a :=
    fun a h₁ h₂ => by rw [hp, if_neg h₁, if_neg h₂]
  have hmemOld : ∀ x ∈ A ++ B, x ∈ c.chunks := by
    intro x hx
    rw [hsplit]
    rcases List.mem_append.mp hx with hx | hx
    · exact List.mem_append_left _ hx
    · exact List.mem_append_right _ (List.mem_cons_of_mem _ hx)
  have hnotR : ∀ a ∈ c.getProxyAddresses, a ≠ r.proxyAddress := fun a ha h =>
    hs.not_mem_of_free hr hc (h ▸ ha)
  refine ⟨fun a r' hr' => ?_, fun n c'' hc'' x hx j => ?_, fun n c'' hc'' => ?_,
    fun a r' n hr' hn => ?_⟩
  · -- keyed: tags change, addresses do not
    rw [hp] at hr'
    split at hr'
    · obtain ⟨r₀, hr₀, rfl⟩ := Option.map_eq_some_iff.mp hr'
      exact hs.keyed a r₀ hr₀
    · split at hr'
      · obtain ⟨r₀, hr₀, rfl⟩ := Option.map_eq_some_iff.mp hr'
        exact hs.keyed a r₀ hr₀
      · exact hs.keyed a r' hr'
  · by_cases hn : n = name
    · subst hn
      rw [hc'] at hc''
      cases hc''
      rw [hnew, List.mem_append, List.mem_cons] at hx
      rcases hx with hx | rfl | hx
      -- an untouched chunk of the cluster
      pick_goal 2
      · -- the chunk that changed hands: the new half, and the surviving one
        by_cases hj : j = p
        · subst hj
          refine ⟨{ r with cluster := some n }, ?_, rfl, ?_, ?_⟩
          · rw [MetaStoreUpdate.replaceHalf_proxyAddresses, Function.update_self, hp,
              if_pos rfl, hr.1]
            rfl
          · rw [MetaStoreUpdate.replaceHalf_hosts, Function.update_self]
          · exact (MetaStoreUpdate.replaceHalf_halfNodes_self _ _ _).symm
        · obtain ⟨r₀, hr₀, hcl₀, hhost, hnodes⟩ := hs.backed n c hc chunk
            (by rw [hsplit]; exact List.mem_append_right _ List.mem_cons_self) j
          refine ⟨r₀, ?_, hcl₀, ?_, ?_⟩
          · rw [MetaStoreUpdate.replaceHalf_proxyAddresses, Function.update_of_ne hj,
              hgetOther _ (hnotR _ (MetaStore.mem_getProxyAddresses.mpr
                ⟨chunk, by rw [hsplit]; exact List.mem_append_right _ List.mem_cons_self, j, rfl⟩))
                (hhalf j hj)]
            exact hr₀
          · rw [MetaStoreUpdate.replaceHalf_hosts, Function.update_of_ne hj]
            exact hhost
          · rw [MetaStoreUpdate.replaceHalf_halfNodes_ne _ _ hj]
            exact hnodes
      all_goals
        have hx' : x ∈ A ++ B := List.mem_append.mpr (by first | exact .inl hx | exact .inr hx)
        obtain ⟨r₀, hr₀, hrest⟩ := hs.backed n c hc x (hmemOld x hx') j
        exact ⟨r₀, by
          rw [hgetOther _ (hnotR _ (MetaStore.mem_getProxyAddresses.mpr
            ⟨x, hmemOld x hx', j, rfl⟩)) (hfar x hx' j)]
          exact hr₀, hrest⟩
    · rw [hothers n hn] at hc''
      obtain ⟨r₀, hr₀, hcl₀, hrest⟩ := hs.backed n c'' hc'' x hx j
      -- another cluster's proxy is neither the failed one nor the free one
      have h₁ : x.proxyAddresses j ≠ r.proxyAddress := by
        intro h
        rw [h, hr.1] at hr₀
        cases hr₀
        rw [hr.2] at hcl₀
        cases hcl₀
      have h₂ : x.proxyAddresses j ≠ f := by
        intro h
        rw [h, hfail] at hr₀
        cases hr₀
        rw [hfcl] at hcl₀
        exact hn (Option.some.inj hcl₀).symm
      exact ⟨r₀, by rw [hgetOther _ h₁ h₂]; exact hr₀, hcl₀, hrest⟩
  · by_cases hn : n = name
    · subst hn
      rw [hc'] at hc''
      cases hc''
      -- the new address takes the failed one's place
      have hL' : c'.getProxyAddresses =
          (c.getProxyAddresses).set ((MetaStoreUpdate.chunkProxyAddresses A).length + p.val)
            r.proxyAddress := by
        rw [hL]
        unfold ClusterStore.getProxyAddresses
        rw [hnew, ← MetaStoreUpdate.chunkProxyAddresses, MetaStoreUpdate.chunkProxyAddresses_middle]
        fin_cases p <;> simp
      rw [hL']
      exact (hs.nodup n c hc).set (hs.not_mem_of_free hr hc)
    · rw [hothers n hn] at hc''
      exact hs.nodup n c'' hc''
  · rw [hp] at hr'
    split at hr'
    · next ha =>
        obtain ⟨r₀, -, rfl⟩ := Option.map_eq_some_iff.mp hr'
        cases hn
        refine ⟨c', hc', MetaStore.mem_getProxyAddresses.mpr
          ⟨MetaStoreUpdate.replaceHalf chunk p r, ?_, p, ?_⟩⟩
        · rw [hnew]
          exact List.mem_append_right _ List.mem_cons_self
        · rw [MetaStoreUpdate.replaceHalf_proxyAddresses, Function.update_self, ha]
    · split at hr'
      · obtain ⟨r₀, -, rfl⟩ := Option.map_eq_some_iff.mp hr'
        cases hn
      · next ha₁ ha₂ =>
          obtain ⟨c'', hc'', ha⟩ := hs.tagged a r' n hr' hn
          by_cases hnn : n = name
          · subst hnn
            rw [hc] at hc''
            cases hc''
            refine ⟨c', hc', ?_⟩
            obtain ⟨x, hx, j, rfl⟩ := MetaStore.mem_getProxyAddresses.mp ha
            rw [hsplit, List.mem_append, List.mem_cons] at hx
            refine MetaStore.mem_getProxyAddresses.mpr ?_
            rw [hnew]
            rcases hx with hx | rfl | hx
            · exact ⟨x, List.mem_append_left _ hx, j, rfl⟩
            · -- the surviving half of the changed chunk
              have hj : j ≠ p := fun h => ha₂ (h ▸ hpa)
              refine ⟨_, List.mem_append_right _ List.mem_cons_self, j, ?_⟩
              rw [MetaStoreUpdate.replaceHalf_proxyAddresses, Function.update_of_ne hj]
            · exact ⟨x, List.mem_append_right _ (List.mem_cons_of_mem _ hx), j, rfl⟩
          · exact ⟨c'', by rw [hothers n hnn]; exact hc'', ha⟩

end ReplaceHalf

end Undermoon
