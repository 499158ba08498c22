import Undermoon.Proofs.Live
import Undermoon.Proofs.Preservation

/-!
# The StatefulSet order of ordered proxies

With `enable_ordered_proxy` the broker serves one cluster on proxies that
Kubernetes numbers as a StatefulSet, and the order Kubernetes relies on is
the one `check_cluster_proxy_order` of `broker/ordered_proxy.rs` tests: the
`k`-th proxy of the cluster, listing its chunks in order and each chunk half
0 before half 1, is the proxy of index `k`.

The order rests on four facts of the calls. New chunks are made of the free
proxies of lowest index, which must count up from twice the number of chunks
there are, so adding a cluster or chunks extends the order
(`generateFreeChunksForOrderedProxyIndex_inOrder`). No call changes the index
of a proxy, or removes a proxy that is in a cluster. The chunks
`auto_delete_free_nodes` removes are the last ones, because the live chunks
come first (`Proofs.Live`). And in this mode failover only moves the masters
to the surviving half: the replacement branch of `replace_failed_proxy` is
never reached.
-/

namespace Undermoon

namespace MetaStore

/-- The proxies at `addresses` are the table's proxies of index `first`,
`first + 1`, ..., in order. -/
def InOrder (s : MetaStore) (first : Nat) (addresses : List String) : Prop :=
  ∀ k a, addresses[k]? = some a → ∃ r, s.allProxies.get? a = some r ∧ r.index = first + k

/-- What ordered mode keeps of a store: the mode itself, at most one
cluster, its proxies in index order, and its live chunks first. -/
structure OrderedLayout (s : MetaStore) : Prop where
  ordered : s.enableOrderedProxy = true
  single : ∀ n₁ n₂ c₁ c₂, s.clusters.get? n₁ = some c₁ → s.clusters.get? n₂ = some c₂ → n₁ = n₂
  inOrder : ∀ name c, s.clusters.get? name = some c → s.InOrder 0 c.getProxyAddresses
  liveFirst : ∀ name c, s.clusters.get? name = some c → c.chunks.FrontLoaded ChunkStore.isLive

variable {s s' : MetaStore}

/-! ## Index order of a list of proxies -/

section InOrder

variable {first : Nat} {addresses : List String}

theorem InOrder.append {more : List String} (h : s.InOrder first addresses)
    (h' : s.InOrder (first + addresses.length) more) : s.InOrder first (addresses ++ more) := by
  intro k a hk
  by_cases hlt : k < addresses.length
  · rw [List.getElem?_append_left hlt] at hk
    exact h k a hk
  · rw [List.getElem?_append_right (Nat.le_of_not_lt hlt)] at hk
    obtain ⟨r, hr, hidx⟩ := h' _ a hk
    exact ⟨r, hr, by omega⟩

theorem InOrder.of_isPrefix {addresses' : List String} (h : s.InOrder first addresses)
    (hp : addresses' <+: addresses) : s.InOrder first addresses' := by
  intro k a hk
  have hlt : k < addresses'.length := (List.getElem?_eq_some_iff.mp hk).1
  rw [List.prefix_iff_eq_take.mp hp, List.getElem?_take_of_lt hlt] at hk
  exact h k a hk

/-- A table that keeps the index of every listed proxy keeps the order. -/
theorem InOrder.of_index (h : s.InOrder first addresses)
    (hidx : ∀ a ∈ addresses, ∀ r, s.allProxies.get? a = some r →
      ∃ r', s'.allProxies.get? a = some r' ∧ r'.index = r.index) :
    s'.InOrder first addresses := by
  intro k a hk
  obtain ⟨r, hr, hi⟩ := h k a hk
  obtain ⟨r', hr', hi'⟩ := hidx a (List.mem_of_getElem? hk) r hr
  exact ⟨r', hr', hi'.trans hi⟩

/-- Tagging or freeing proxies changes no index. -/
theorem InOrder.of_retag {L : List String} {x : Option ClusterName} (h : s.InOrder first addresses)
    (hp : ∀ a, s'.allProxies.get? a = if a ∈ L then
      (s.allProxies.get? a).map (fun r => { r with cluster := x }) else s.allProxies.get? a) :
    s'.InOrder first addresses := by
  refine h.of_index fun a _ r hr => ?_
  rw [hp a]
  split
  · rw [hr]
    exact ⟨_, rfl, rfl⟩
  · exact ⟨r, hr, rfl⟩

end InOrder

/-! ## Building the invariant -/

theorem orderedLayout_new : (MetaStore.new true).OrderedLayout where
  ordered := rfl
  single _ _ _ _ h := by cases h
  inOrder _ _ h := by cases h
  liveFirst _ _ h := by cases h

/-- A store without clusters is in order. -/
theorem OrderedLayout.of_none (hf : s'.enableOrderedProxy = true)
    (hc : ∀ name, s'.clusters.get? name = none) : s'.OrderedLayout where
  ordered := hf
  single n₁ _ _ _ h := by rw [hc n₁] at h; cases h
  inOrder name _ h := by rw [hc name] at h; cases h
  liveFirst name _ h := by rw [hc name] at h; cases h

/-- The clusters as they were, and a table that keeps the index of their
proxies. -/
theorem OrderedLayout.of_table (ho : s.OrderedLayout)
    (hf : s'.enableOrderedProxy = s.enableOrderedProxy) (hc : s'.clusters = s.clusters)
    (hidx : ∀ name c, s.clusters.get? name = some c → ∀ a ∈ c.getProxyAddresses, ∀ r,
      s.allProxies.get? a = some r → ∃ r', s'.allProxies.get? a = some r' ∧ r'.index = r.index) :
    s'.OrderedLayout where
  ordered := hf.trans ho.ordered
  single n₁ n₂ c₁ c₂ h₁ h₂ := ho.single n₁ n₂ c₁ c₂ (hc ▸ h₁) (hc ▸ h₂)
  inOrder name c h := (ho.inOrder name c (hc ▸ h)).of_index (hidx name c (hc ▸ h))
  liveFirst name c h := ho.liveFirst name c (hc ▸ h)

theorem OrderedLayout.bump (ho : s.OrderedLayout) : s.bumpGlobalEpoch.1.OrderedLayout :=
  ho.of_table rfl rfl fun _ _ _ _ _ r hr => ⟨r, hr, rfl⟩

/-- At most one cluster, given only which names there are. -/
theorem single_of_mem {m m' : OrdMap ClusterName ClusterStore}
    (hs : ∀ n₁ n₂ c₁ c₂, m.get? n₁ = some c₁ → m.get? n₂ = some c₂ → n₁ = n₂)
    (hm : ∀ n, n ∈ m' → n ∈ m) :
    ∀ n₁ n₂ c₁ c₂, m'.get? n₁ = some c₁ → m'.get? n₂ = some c₂ → n₁ = n₂ := by
  have hsome : ∀ n c, m'.get? n = some c → ∃ d, m.get? n = some d := fun n c h => by
    cases hd : m.get? n with
    | none => exact absurd (hm n (OrdMap.mem_of_get?_eq_some h)) (OrdMap.get?_eq_none.mp hd)
    | some d => exact ⟨d, rfl⟩
  intro n₁ n₂ c₁ c₂ h₁ h₂
  obtain ⟨d₁, hd₁⟩ := hsome n₁ c₁ h₁
  obtain ⟨d₂, hd₂⟩ := hsome n₂ c₂ h₂
  exact hs n₁ n₂ d₁ d₂ hd₁ hd₂

/-- With one cluster, the cluster rewritten in place is the only one left. -/
theorem OrderedLayout.get?_replace (ho : s.OrderedLayout) {name n : ClusterName}
    {c c' c'' : ClusterStore} (hc : s.clusters.get? name = some c)
    (h : OrdMap.get? (s.clusters.replace name c') n = some c'') : n = name ∧ c'' = c' := by
  rw [OrdMap.get?_replace _ _ _ _ (OrdMap.mem_of_get?_eq_some hc)] at h
  split at h
  · next hn => exact ⟨hn, (Option.some.inj h).symm⟩
  · next hn => exact absurd (ho.single n name c'' c h hc) hn

/-- Cluster `name` rewritten in place, its proxies in order and its live
chunks first. -/
theorem OrderedLayout.replaceCluster (ho : s.OrderedLayout) {name : ClusterName}
    {c c' : ClusterStore} (hc : s.clusters.get? name = some c)
    (hf : s'.enableOrderedProxy = s.enableOrderedProxy)
    (hcl : s'.clusters = s.clusters.replace name c') (hin : s'.InOrder 0 c'.getProxyAddresses)
    (hlive : c'.chunks.FrontLoaded ChunkStore.isLive) : s'.OrderedLayout where
  ordered := hf.trans ho.ordered
  single := hcl ▸ single_of_mem ho.single fun _ hn => AList.mem_replace.mp hn
  inOrder n c'' h := by
    rw [hcl] at h
    obtain ⟨-, rfl⟩ := ho.get?_replace hc h
    exact hin
  liveFirst n c'' h := by
    rw [hcl] at h
    obtain ⟨-, rfl⟩ := ho.get?_replace hc h
    exact hlive

/-- The table and every chunk layout as they were, and the live chunks
first in every cluster. -/
theorem OrderedLayout.of_sameLayout (ho : s.OrderedLayout) (hl : s.SameLayout s')
    (hf : s'.enableOrderedProxy = s.enableOrderedProxy)
    (hlive : ∀ name c', s'.clusters.get? name = some c' → c'.chunks.FrontLoaded ChunkStore.isLive) :
    s'.OrderedLayout where
  ordered := hf.trans ho.ordered
  single n₁ n₂ c₁ c₂ h₁ h₂ := by
    obtain ⟨d₁, hd₁, -⟩ := hl.exists_before h₁
    obtain ⟨d₂, hd₂, -⟩ := hl.exists_before h₂
    exact ho.single n₁ n₂ d₁ d₂ hd₁ hd₂
  inOrder name c' h := by
    obtain ⟨c, hc, hlay⟩ := hl.exists_before h
    rw [getProxyAddresses_eq_of_layout hlay]
    intro k a hk
    rw [hl.allProxies]
    exact ho.inOrder name c hc k a hk
  liveFirst := hlive

/-- Calls that keep the table, every layout and every chunk's liveness. -/
theorem OrderedLayout.of_same (ho : s.OrderedLayout) (hl : s.SameLayout s')
    (hv : s.SameLiveness s') : s'.OrderedLayout :=
  ho.of_sameLayout hl hv.ordered fun name c' h => by
    obtain ⟨c, hc, hlive⟩ := hv.clusters.exists_before h
    exact (ho.liveFirst name c hc).of_map_eq hlive

/-- Cluster `name` rewritten in place with chunks of the same layout, the
live ones first. -/
theorem OrderedLayout.replace (ho : s.OrderedLayout) {name : ClusterName} {c c' : ClusterStore}
    (hget : s.clusters.get? name = some c) (hl : c'.layout = c.layout)
    (hlive : c'.chunks.FrontLoaded ChunkStore.isLive) :
    ({ s with clusters := s.clusters.replace name c' }).OrderedLayout := by
  refine ho.replaceCluster hget rfl rfl ?_ hlive
  rw [getProxyAddresses_eq_of_layout hl]
  exact ho.inOrder name c hget

end MetaStore

/-! ## The ordered choice of new chunks -/

namespace MetaStoreUpdate

variable {s : MetaStore}

theorem consecutiveFrom_getElem :
    ∀ {last : Nat} {l : List Nat}, consecutiveFrom last l = true →
      ∀ k (hk : k < l.length), l[k] = last + 1 + k
  | _, [], _, k, hk => absurd hk (Nat.not_lt_zero _)
  | last, i :: rest, h, k, hk => by
      unfold consecutiveFrom at h
      simp only [Bool.and_eq_true, beq_iff_eq] at h
      cases k with
      | zero => exact h.1.symm
      | succ k =>
          rw [List.getElem_cons_succ, consecutiveFrom_getElem h.2 k (by simpa using hk), ← h.1]
          omega

/-- The proxies taken in ordered mode: a prefix of the free proxies sorted
by index, with indices `firstIndex`, `firstIndex + 1`, ..., paired up. -/
theorem generateFreeChunksForOrderedProxyIndex_spec {proxyNum firstIndex : Nat}
    {arr : List (ProxyResource × ProxyResource)}
    (h : generateFreeChunksForOrderedProxyIndex s proxyNum firstIndex = .ok arr) :
    (∀ k (hk : k < ((MetaStoreQuery.getFreeProxyResource s).insertionSort
        (fun a b => a.index ≤ b.index) |>.take proxyNum).length),
      ((MetaStoreQuery.getFreeProxyResource s).insertionSort
        (fun a b => a.index ≤ b.index) |>.take proxyNum)[k].index = firstIndex + k) ∧
    pairUp ((MetaStoreQuery.getFreeProxyResource s).insertionSort
      (fun a b => a.index ≤ b.index) |>.take proxyNum) = .ok arr := by
  unfold generateFreeChunksForOrderedProxyIndex at h
  dsimp only at h
  repeat' split at h
  all_goals first | cases h | skip
  · -- nothing taken
    rename_i hmap _
    refine ⟨fun k hk => absurd hk ?_, h⟩
    have := congrArg List.length hmap
    simp only [List.length_map, List.length_nil] at this
    omega
  · rename_i first rest hmap hcond
    simp only [Bool.not_eq_eq_eq_not, Bool.not_true, Bool.not_eq_false, Bool.and_eq_true,
      beq_iff_eq] at hcond
    refine ⟨fun k hk => ?_, h⟩
    have hk' : k < (first :: rest).length := by
      rw [← hmap, List.length_map]
      exact hk
    have hidx := List.getElem_of_eq hmap (by rw [List.length_map]; exact hk)
    rw [List.getElem_map] at hidx
    rw [hidx]
    cases k with
    | zero => exact hcond.1
    | succ k =>
        rw [List.getElem_cons_succ, consecutiveFrom_getElem hcond.2 k (by simpa using hk'),
          hcond.1]
        omega

/-- The proxies of the new chunks are the free proxies of index
`firstIndex`, `firstIndex + 1`, ..., in order. -/
theorem generateFreeChunksForOrderedProxyIndex_inOrder (hk : s.Keyed) {proxyNum firstIndex : Nat}
    {arr : List (ProxyResource × ProxyResource)}
    (h : generateFreeChunksForOrderedProxyIndex s proxyNum firstIndex = .ok arr) :
    s.InOrder firstIndex ((pairsFlat arr).map ProxyResource.proxyAddress) := by
  obtain ⟨hidx, hpair⟩ := generateFreeChunksForOrderedProxyIndex_spec h
  have hperm := List.perm_insertionSort (fun a b : ProxyResource => a.index ≤ b.index)
    (MetaStoreQuery.getFreeProxyResource s)
  intro k a hka
  rw [pairsFlat_of_pairUp hpair, List.getElem?_map] at hka
  obtain ⟨r, hr, rfl⟩ := Option.map_eq_some_iff.mp hka
  obtain ⟨hlt, hget⟩ := List.getElem?_eq_some_iff.mp hr
  have hfree := MetaStoreQuery.freeProxy_of_mem_getFreeProxyResource hk
    (hperm.subset (List.mem_of_mem_take (hget ▸ List.getElem_mem hlt)))
  exact ⟨r, hfree.1, hget ▸ hidx k hlt⟩

/-- In ordered mode new chunks come from the ordered choice. -/
theorem generateChunks_ordered {proxyNum firstIndex : Nat}
    {arr : List (ProxyResource × ProxyResource)} (ho : s.enableOrderedProxy = true)
    (h : generateChunks s proxyNum firstIndex = some (.ok arr)) :
    generateFreeChunksForOrderedProxyIndex s proxyNum firstIndex = .ok arr := by
  unfold generateChunks at h
  rw [if_pos ho] at h
  exact Option.some.inj h

theorem getProxyAddresses_length (c : ClusterStore) :
    c.getProxyAddresses.length = 2 * c.chunks.length := by
  unfold ClusterStore.getProxyAddresses
  induction c.chunks with
  | nil => rfl
  | cons chunk rest ih =>
      rw [List.flatMap_cons, List.length_append, ih, List.length_cons]
      simp only [List.length_cons, List.length_nil]
      omega

theorem getProxyAddresses_append (c : ClusterStore) (chunks : List ChunkStore) (e : UInt64) :
    ClusterStore.getProxyAddresses { c with chunks := c.chunks ++ chunks, epoch := e } =
      c.getProxyAddresses ++ chunkProxyAddresses chunks :=
  List.flatMap_append

theorem flatMap_isPrefix {α β : Type} {l l' : List α} (f : α → List β) (h : l' <+: l) :
    l'.flatMap f <+: l.flatMap f := by
  obtain ⟨t, rfl⟩ := h
  rw [List.flatMap_append]
  exact List.prefix_append _ _

/-! ## Each call keeps the order -/

theorem addProxy_enableOrderedProxy {a : String} {nodes : Fin 2 → String} {host : Option String}
    {index : Option Nat} {s' : MetaStore} {res : Except MetaStoreError Unit}
    (h : addProxy s a nodes host index = (s', res)) :
    s'.enableOrderedProxy = s.enableOrderedProxy := by
  unfold addProxy at h
  dsimp only at h
  repeat' split at h
  all_goals cases h; rfl

theorem addProxy_orderedLayout (ho : s.OrderedLayout) {a : String} {nodes : Fin 2 → String}
    {host : Option String} {index : Option Nat} {s' : MetaStore} {res : Except MetaStoreError Unit}
    (h : addProxy s a nodes host index = (s', res)) : s'.OrderedLayout := by
  have hf := addProxy_enableOrderedProxy h
  rcases addProxy_cases h with rfl | ⟨r, -, -, hp, hc, -⟩
  · exact ho
  -- a known proxy keeps its resource
  refine ho.of_table hf hc fun _ _ _ b _ r' hr' => ⟨r', ?_, rfl⟩
  rw [hp]
  exact OrdMap.get?_insertIfAbsent_of_get? hr'

theorem removeProxy_orderedLayout (hs : s.Consistent) (ho : s.OrderedLayout) {a : String}
    {s' : MetaStore} {res : Except MetaStoreError Unit} (h : removeProxy s a = (s', res)) :
    s'.OrderedLayout := by
  rcases removeProxy_cases h with rfl | ⟨r, hr, hfree, rfl⟩
  · exact ho
  refine MetaStore.OrderedLayout.bump (ho.of_table rfl rfl fun name c hc b hb r' hr' => ?_)
  -- a proxy of a cluster is tagged with it, so it is not the free one removed
  have hne : b ≠ a := by
    rintro rfl
    obtain ⟨r'', hr'', hcl⟩ := hs.tag_of_mem hc hb
    rw [hr] at hr''
    cases hr''
    rw [hfree] at hcl
    cases hcl
  refine ⟨r', ?_, rfl⟩
  show OrdMap.get? (s.allProxies.erase a) b = some r'
  rw [OrdMap.get?_erase, if_neg hne]
  exact hr'

theorem addCluster_orderedLayout (hs : s.Consistent) (ho : s.OrderedLayout) {clusterName : String}
    {nodeNum : Nat} {config : ClusterConfig} {s' : MetaStore} {res : Except MetaStoreError Unit}
    (h : addCluster s clusterName nodeNum config = some (s', res)) : s'.OrderedLayout := by
  rcases addCluster_cases h with rfl | ⟨name, arr, chunks, allProxies, -, -, hempty, harr, hchunks,
    htag, rfl⟩
  · exact ho
  -- in ordered mode a cluster is only added to a store without one
  have hnone : ∀ n, s.clusters.get? n = none := fun n => by
    show List.dlookup n s.clusters.entries = none
    rw [hempty ho.ordered]
    rfl
  have hget : ∀ n c, OrdMap.get? (s.clusters.insert name ⟨s.globalEpoch + 1, name, chunks, config⟩) n =
      some c → n = name ∧ c = ⟨s.globalEpoch + 1, name, chunks, config⟩ := fun n c h => by
    rw [OrdMap.get?_insert, hnone n] at h
    split at h
    · next hn => exact ⟨hn, (Option.some.inj h).symm⟩
    · cases h
  obtain ⟨-, haddr⟩ := proxyResourceToChunkStore_spec hchunks
  have hnew := generateFreeChunksForOrderedProxyIndex_inOrder hs.keyed
    (generateChunks_ordered ho.ordered harr)
  refine ⟨ho.ordered, fun n₁ n₂ c₁ c₂ h₁ h₂ => ?_, fun n c hc => ?_, fun n c hc => ?_⟩
  · exact (hget n₁ c₁ h₁).1.trans (hget n₂ c₂ h₂).1.symm
  · -- its proxies are the ordered choice, tagged with it
    obtain ⟨-, rfl⟩ := hget n c hc
    have hin : s.InOrder 0 (chunkProxyAddresses chunks) := by
      rw [haddr]
      exact hnew
    exact hin.of_retag (get?_tagProxies htag)
  · obtain ⟨-, rfl⟩ := hget n c hc
    have hlive := proxyResourceToChunkStore_isLive hchunks
    exact List.pairwise_of_forall_mem_list fun _ ha _ _ _ => hlive _ ha

theorem removeCluster_orderedLayout (ho : s.OrderedLayout) {clusterName : String} {s' : MetaStore}
    {res : Except MetaStoreError Unit} (h : removeCluster s clusterName = (s', res)) :
    s'.OrderedLayout := by
  rcases removeCluster_cases h with rfl | ⟨name, c, hc, rfl⟩
  · exact ho
  -- the one cluster goes
  refine MetaStore.OrderedLayout.of_none ho.ordered fun n => ?_
  show OrdMap.get? (s.clusters.erase name) n = none
  rw [OrdMap.get?_erase]
  split
  · rfl
  · next hn =>
      cases hn' : s.clusters.get? n with
      | none => rfl
      | some c' => exact absurd (ho.single n name c' c hn' hc) hn

theorem autoAddNodes_orderedLayout (hs : s.Consistent) (ho : s.OrderedLayout) {clusterName : String}
    {num : Nat} {s' : MetaStore} {res : Except MetaStoreError (List Node)}
    (h : autoAddNodes s clusterName num = some (s', res)) : s'.OrderedLayout := by
  rcases autoAddNodes_cases h with rfl | ⟨name, c, arr, chunks, cluster, allProxies, hc, -, harr,
    hchunks, -, htag, rfl⟩
  · exact ho
  obtain ⟨-, haddr⟩ := proxyResourceToChunkStore_spec hchunks
  have hnew := generateFreeChunksForOrderedProxyIndex_inOrder hs.keyed
    (generateChunks_ordered ho.ordered harr)
  refine ho.replaceCluster hc rfl rfl ?_
    ((ho.liveFirst name c hc).append_of_not (proxyResourceToChunkStore_isLive hchunks))
  -- the old proxies and then the new ones, whose indices go on from there
  have hin : s.InOrder 0 (c.getProxyAddresses ++ chunkProxyAddresses chunks) := by
    refine (ho.inOrder name c hc).append ?_
    rw [haddr, getProxyAddresses_length, Nat.zero_add, Nat.mul_comm]
    exact hnew
  rw [getProxyAddresses_append]
  exact hin.of_retag (get?_tagProxies htag)

theorem autoScaleUpNodes_orderedLayout (hs : s.Consistent) (ho : s.OrderedLayout)
    {clusterName : String} {num : Nat} {s' : MetaStore} {res : Except MetaStoreError (List Node)}
    (h : autoScaleUpNodes s clusterName num = some (s', res)) : s'.OrderedLayout :=
  (autoScaleUpNodes_preserves (fun t => t.Consistent ∧ t.OrderedLayout)
    (fun ⟨ht, hot⟩ hadd => ⟨autoAddNodes_consistent ht hadd, autoAddNodes_orderedLayout ht hot hadd⟩)
    ⟨hs, ho⟩ h).2

theorem autoDeleteFreeNodes_orderedLayout (ho : s.OrderedLayout) {clusterName : String}
    {s' : MetaStore} {res : Except MetaStoreError Unit}
    (h : autoDeleteFreeNodes s clusterName = (s', res)) : s'.OrderedLayout := by
  rcases autoDeleteFreeNodes_cases h with rfl | ⟨name, c, hc, hidle, rfl⟩
  · exact ho
  have hmig := ClusterStore.hasMigration_of_isMigrating hidle
  have hf := ho.liveFirst name c hc
  -- on a cluster that is not migrating the free chunks are those not live
  have hkeep : c.chunks.filter (!·.isFree) = c.chunks.filter ChunkStore.isLive :=
    List.filter_congr fun chunk hchunk => by
      rw [ChunkStore.isFree_of_hasMigration (hmig chunk hchunk),
        ChunkStore.isLive_of_hasMigration (hmig chunk hchunk), Bool.not_not]
  -- so the chunks kept are a prefix, and their proxies keep their positions
  have hpre : (c.chunks.filter (!·.isFree)).flatMap
      (fun chunk => [chunk.proxyAddresses 0, chunk.proxyAddresses 1]) <+: c.getProxyAddresses := by
    rw [hkeep]
    exact flatMap_isPrefix _ hf.filter_isPrefix
  refine MetaStore.OrderedLayout.bump (ho.replaceCluster hc rfl rfl ?_
    (hf.sublist List.filter_sublist))
  exact ((ho.inOrder name c hc).of_isPrefix hpre).of_retag (get?_freeProxies _ _)

/-- In ordered mode failover only moves masters: the replacement branch
needs the mode off. -/
theorem replaceFailedProxy_orderedLayout (ho : s.OrderedLayout) {f : String}
    {migrationLimit : UInt64} {s' : MetaStore} {res : Except MetaStoreError (Option Proxy)}
    (h : replaceFailedProxy s f migrationLimit = some (s', res)) : s'.OrderedLayout := by
  rcases replaceFailedProxy_cases h with rfl | ⟨-, -, -, rfl⟩ | ⟨-, name, t, tr, -, -, ht, hcases⟩
  · exact ho
  · exact ho.of_table rfl rfl fun _ _ _ _ _ r hr => ⟨r, hr, rfl⟩
  have ho' := ho.of_same (takeoverMaster_sameLayout ht) (takeoverMaster_sameLiveness ht)
  rcases hcases with rfl | rfl | rfl | ⟨r, c, hord, -, -, -⟩
  · exact ho'
  · exact ho'.bump
  · exact ho'.of_table rfl rfl fun _ _ _ _ _ r hr => ⟨r, hr, rfl⟩
  · rw [ho'.ordered] at hord
    cases hord

end MetaStoreUpdate

namespace MetaStoreMigrate

variable {s : MetaStore}

theorem migrateSlots_orderedLayout (ho : s.OrderedLayout) {clusterName : String} {s' : MetaStore}
    {r : Except MetaStoreError Unit} (h : migrateSlots s clusterName = some (s', r)) :
    s'.OrderedLayout := by
  rcases migrateSlots_cases h with rfl | rfl | ⟨name, c, chunks, ms, final, hc, hidle, hplan,
    hassign, rfl⟩
  · exact ho
  · exact ho.bump
  refine (ho.replace hc ?_ (removeSlotsFromSrc_frontLoaded hidle (ho.liveFirst name c hc) hplan
    hassign)).bump
  rw [ClusterStore.layout, ClusterStore.layout, assignDstSlots_layout hassign,
    removeSlotsFromSrc_layout hplan]

theorem migrateSlotsToScaleDown_orderedLayout (ho : s.OrderedLayout) {clusterName : String}
    {n : Nat} {s' : MetaStore} {r : Except MetaStoreError Unit}
    (h : migrateSlotsToScaleDown s clusterName n = some (s', r)) : s'.OrderedLayout := by
  rcases migrateSlotsToScaleDown_cases h with rfl | rfl | ⟨name, c, chunks, ms, final, hc, hidle,
    hfull, hplan, hassign, rfl⟩
  · exact ho
  · exact ho.bump
  have hstable : ∀ chunk ∈ c.chunks, chunk.hasStable = true := fun chunk hchunk => by
    rw [ChunkStore.hasStable, (hfull chunk hchunk).1, Bool.true_or]
  refine (ho.replace hc ?_ (removeSlotsFromSrcToScaleDown_frontLoaded hidle hstable hplan
    hassign)).bump
  rw [ClusterStore.layout, ClusterStore.layout, assignDstSlots_layout hassign,
    removeSlotsFromSrcToScaleDown_layout hplan]

end MetaStoreMigrate

/-! ## Over every run -/

namespace Op

variable {cfg : ServiceConfig} {s s' : MetaStore}

/-- Every call keeps the order, given a consistent store. -/
theorem apply_orderedLayout (hs : s.Consistent) (ho : s.OrderedLayout) {op : Op}
    (h : op.apply cfg s = some s') : s'.OrderedLayout := by
  -- the composite calls chain calls that keep both invariants
  have hadd : ∀ {t t' : MetaStore} {name : String} {num : Nat}
      {r : Except MetaStoreError (List Node)}, t.Consistent ∧ t.OrderedLayout →
      MetaStoreUpdate.autoAddNodes t name num = some (t', r) → t'.Consistent ∧ t'.OrderedLayout :=
    fun ⟨ht, hot⟩ h => ⟨MetaStoreUpdate.autoAddNodes_consistent ht h,
      MetaStoreUpdate.autoAddNodes_orderedLayout ht hot h⟩
  have hdel : ∀ {t t' : MetaStore} {name : String} {r : Except MetaStoreError Unit},
      t.Consistent ∧ t.OrderedLayout → MetaStoreUpdate.autoDeleteFreeNodes t name = (t', r) →
      t'.Consistent ∧ t'.OrderedLayout :=
    fun ⟨ht, hot⟩ h => ⟨MetaStoreUpdate.autoDeleteFreeNodes_consistent ht h,
      MetaStoreUpdate.autoDeleteFreeNodes_orderedLayout hot h⟩
  have hdown : ∀ {t t' : MetaStore} {name : String} {n : Nat} {r : Except MetaStoreError Unit},
      t.Consistent ∧ t.OrderedLayout → MetaStoreMigrate.migrateSlotsToScaleDown t name n = some (t', r) →
      t'.Consistent ∧ t'.OrderedLayout :=
    fun ⟨ht, hot⟩ h => ⟨ht.of_sameLayout (MetaStoreMigrate.migrateSlotsToScaleDown_sameLayout h),
      MetaStoreMigrate.migrateSlotsToScaleDown_orderedLayout hot h⟩
  have hmig : ∀ {t t' : MetaStore} {name : String} {r : Except MetaStoreError Unit},
      t.Consistent ∧ t.OrderedLayout → MetaStoreMigrate.migrateSlots t name = some (t', r) →
      t'.Consistent ∧ t'.OrderedLayout :=
    fun ⟨ht, hot⟩ h => ⟨ht.of_sameLayout (MetaStoreMigrate.migrateSlots_sameLayout h),
      MetaStoreMigrate.migrateSlots_orderedLayout hot h⟩
  have hcommit : ∀ {t t' : MetaStore} {task : MigrationTaskMeta} {r : Except MetaStoreError Unit},
      t.Consistent ∧ t.OrderedLayout → MetaStoreMigrate.commitMigration t task = (t', r) →
      t'.Consistent ∧ t'.OrderedLayout :=
    fun ⟨ht, hot⟩ h => ⟨ht.of_sameLayout (MetaStoreMigrate.commitMigration_sameLayout h),
      hot.of_same (MetaStoreMigrate.commitMigration_sameLayout h)
        (MetaStoreMigrate.commitMigration_sameLiveness h)⟩
  cases op <;> simp only [apply] at h
  -- the calls that move proxies or plan migrations
  case addProxy =>
    cases h
    exact of_fst fun _ _ => MetaStoreUpdate.addProxy_orderedLayout ho
  case addCluster =>
    exact of_map_fst (fun _ _ => MetaStoreUpdate.addCluster_orderedLayout hs ho) h
  case removeCluster =>
    cases h
    exact of_fst fun _ _ => MetaStoreUpdate.removeCluster_orderedLayout ho
  case autoAddNodes =>
    exact of_map_fst (fun _ _ => MetaStoreUpdate.autoAddNodes_orderedLayout hs ho) h
  case autoScaleUpNodes =>
    exact of_map_fst (fun _ _ => MetaStoreUpdate.autoScaleUpNodes_orderedLayout hs ho) h
  case autoDeleteFreeNodes =>
    cases h
    exact of_fst fun _ _ => MetaStoreUpdate.autoDeleteFreeNodes_orderedLayout ho
  case removeProxy =>
    cases h
    exact of_fst fun _ _ => MetaStoreUpdate.removeProxy_orderedLayout hs ho
  case replaceFailedProxy =>
    exact of_map_fst (fun _ _ => MetaStoreUpdate.replaceFailedProxy_orderedLayout ho) h
  case migrateSlots =>
    exact of_map_fst (fun _ _ => MetaStoreMigrate.migrateSlots_orderedLayout ho) h
  case migrateSlotsToScaleDown =>
    exact of_map_fst (fun _ _ => MetaStoreMigrate.migrateSlotsToScaleDown_orderedLayout ho) h
  case autoChangeNodeNumber =>
    exact of_map_fst (fun _ _ hp =>
      (MetaStore.autoChangeNodeNumber_preserves _ hadd hdel hdown ⟨hs, ho⟩ hp).2) h
  case autoScaleOutNodeNumber =>
    exact of_map_fst (fun _ _ hp => (MetaStore.autoScaleOutNodeNumber_preserves _ hmig ⟨hs, ho⟩ hp).2) h
  case commitMigration =>
    cases h
    exact of_fst fun _ _ hp => (MetaStore.commitMigration_preserves _ hcommit hdel ⟨hs, ho⟩ hp).2
  -- the others keep every chunk's layout and liveness
  case changeConfig =>
    cases h
    exact of_fst fun _ _ hp => ho.of_same (MetaStoreUpdate.changeConfig_sameLayout hp)
      (MetaStoreUpdate.changeConfig_sameLiveness hp)
  case balanceMasters =>
    cases h
    exact of_fst fun _ _ hp => ho.of_same (MetaStoreUpdate.balanceMasters_sameLayout hp)
      (MetaStoreUpdate.balanceMasters_sameLiveness hp)
  case getFailures =>
    cases h
    exact ho.of_same (MetaStoreUpdate.getFailures_sameLayout _ _ _ _)
      (MetaStoreUpdate.getFailures_sameLiveness _ _ _ _)
  case addFailure =>
    cases h
    exact ho.of_same (MetaStoreUpdate.addFailure_sameLayout _ _ _ _)
      (MetaStoreUpdate.addFailure_sameLiveness _ _ _ _)
  case forceBumpAllEpoch =>
    cases h
    exact ho.of_same (MetaStore.forceBumpAllEpoch_sameLayout _ _)
      (MetaStore.forceBumpAllEpoch_sameLiveness _ _)
  case recoverEpoch =>
    cases h
    exact ho.of_same (MetaStore.recoverEpoch_sameLayout _ _) (MetaStore.recoverEpoch_sameLiveness _ _)

end Op

/-- Every store the broker reaches in ordered mode has at most one cluster,
and listing its chunks in order, the `k`-th proxy address is that of the
proxy of index `k`. -/
theorem ordered_proxy_layout {cfg : ServiceConfig} {s : MetaStore} (h : Reachable cfg true s) :
    (∀ n₁ n₂ c₁ c₂, s.clusters.get? n₁ = some c₁ → s.clusters.get? n₂ = some c₂ → n₁ = n₂) ∧
    ∀ name c, s.clusters.get? name = some c → ∀ k a, c.getProxyAddresses[k]? = some a →
      ∃ r, s.allProxies.get? a = some r ∧ r.index = k := by
  have ho : s.OrderedLayout :=
    (Machine.Reachable.invariant (fun t => t.Consistent ∧ t.OrderedLayout)
      ⟨MetaStore.consistent_new true, MetaStore.orderedLayout_new⟩
      (fun _ _ _ ⟨ht, hot⟩ hstep => ⟨Op.apply_consistent ht hstep, Op.apply_orderedLayout ht hot hstep⟩)
      h).2
  refine ⟨ho.single, fun name c hc k a hk => ?_⟩
  obtain ⟨r, hr, hidx⟩ := ho.inOrder name c hc k a hk
  exact ⟨r, hr, by rw [hidx, Nat.zero_add]⟩

/-- Two proxies of indices 0 and 1, and a cluster of one chunk on them. -/
def orderedRun : List Op :=
  [.addProxy "p0:6000" !["p0:7000", "p0:7001"] none (some 0),
   .addProxy "p1:6000" !["p1:7000", "p1:7001"] none (some 1),
   .addCluster "c" 4]

theorem ordered_proxy_layout_orderedRun :
    ∃ s, Machine.run (Op.apply (ServiceConfig.default id)) orderedRun (MetaStore.new true) = some s ∧
      s.clusters.values.map ClusterStore.getProxyAddresses = [["p0:6000", "p1:6000"]] ∧
      (∀ n₁ n₂ c₁ c₂, s.clusters.get? n₁ = some c₁ → s.clusters.get? n₂ = some c₂ → n₁ = n₂) ∧
      ∀ name c, s.clusters.get? name = some c → ∀ k a, c.getProxyAddresses[k]? = some a →
        ∃ r, s.allProxies.get? a = some r ∧ r.index = k := by
  have h : (Machine.run (Op.apply (ServiceConfig.default id)) orderedRun (MetaStore.new true)).map
      (fun s => s.clusters.values.map ClusterStore.getProxyAddresses) =
        some [["p0:6000", "p1:6000"]] := by
    decide +kernel
  obtain ⟨s, hs, hv⟩ := Option.map_eq_some_iff.mp h
  exact ⟨s, hs, hv, ordered_proxy_layout (Machine.reachable_of_run hs)⟩

end Undermoon
