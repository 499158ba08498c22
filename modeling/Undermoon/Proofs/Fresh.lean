import Undermoon.Proofs.Ordered
import Undermoon.Lib.Iter

/-!
# Stores built from nothing

Some behaviours of the planners only show on clusters of a hundred chunks
and more, where running `add_proxy` and `add_cluster` through the kernel is
out of reach. This module runs them symbolically: `n` proxies of indices
`0, ..., n - 1` added one by one to an ordered-mode store, then one cluster
over all of them (`run_orderedClusterRun`). The store reached is known
exactly in its clusters and epoch, which is all that the migration calls
read of it: they never look at the proxy table
(`migrateSlotsToScaleDown_allProxies`), so the table is kept only as
something that exists.
-/

namespace Undermoon

/-! ## Addresses -/

/-- The address `p<i>:<port>`. -/
def indexedAddress (i : Nat) (port : String) : String :=
  String.ofList ('p' :: Nat.toDigits 10 i ++ ':' :: port.toList)

theorem colon_notMem_toDigits (i : Nat) : ':' ∉ Nat.toDigits 10 i := fun h =>
  absurd (Nat.isDigit_of_mem_toDigits (by decide) (by decide) h) (by decide)

/-- An address with one colon splits into the part before it and the part
after it. -/
theorem splitColon_of_notMem {xs ys : List Char} (hx : ':' ∉ xs) (hy : ':' ∉ ys) :
    MetaStoreUpdate.splitColon (String.ofList (xs ++ ':' :: ys)) = [String.ofList xs, String.ofList ys] := by
  unfold MetaStoreUpdate.splitColon
  rw [String.toList_ofList, List.splitOn_append_cons_self_of_not_mem hx,
    List.splitOn_eq_singleton hy]
  rfl

theorem splitColon_indexedAddress (i : Nat) {port : String} (hport : ':' ∉ port.toList) :
    (MetaStoreUpdate.splitColon (indexedAddress i port)).length = 2 := by
  have hx : ':' ∉ 'p' :: Nat.toDigits 10 i := by
    rw [List.mem_cons, not_or]
    exact ⟨by decide, colon_notMem_toDigits i⟩
  rw [indexedAddress, splitColon_of_notMem hx hport]
  rfl

theorem indexedAddress_inj {i j : Nat} {port : String}
    (h : indexedAddress i port = indexedAddress j port) : i = j := by
  have hl := String.ofList_injective h
  rw [List.cons_append, List.cons_append, List.cons.injEq, List.append_cancel_right_eq] at hl
  rw [← Nat.ofDigitChars_toDigits (b := 10) (n := i) (by decide) (by decide), hl.2,
    Nat.ofDigitChars_toDigits (by decide) (by decide)]

/-- The proxy of index `i`, at `p<i>:6000` on host `p<i>`, with its nodes on
ports 7000 and 7001. -/
def orderedProxy (i : Nat) : ProxyResource :=
  ⟨indexedAddress i "6000", ![indexedAddress i "7000", indexedAddress i "7001"],
    String.ofList ('p' :: Nat.toDigits 10 i), i, none⟩

/-- The proxies of indices `0` to `n - 1`. -/
def orderedProxies (n : Nat) : List ProxyResource := (List.range n).map orderedProxy

theorem nodup_orderedProxies_addresses (n : Nat) :
    ((orderedProxies n).map ProxyResource.proxyAddress).Nodup := by
  rw [orderedProxies, List.map_map]
  exact (List.nodup_range).map fun _ _ h => indexedAddress_inj h

theorem orderedProxies_index (n : Nat) :
    (orderedProxies n).map ProxyResource.index = List.range n := by
  rw [orderedProxies, List.map_map]
  exact List.map_id _

/-! ## Adding fresh proxies -/

namespace MetaStoreUpdate

variable {s : MetaStore}

/-- `add_proxy` of an address the store has never seen, in ordered mode: a
free proxy enters the table and the epoch is bumped. -/
theorem addProxy_of_fresh {a host : String} {nodes : Fin 2 → String} {i : Nat}
    (hord : s.enableOrderedProxy = true) (hsegs : (splitColon a).length = 2)
    (ha : a ∉ s.allProxies) (hfp : a ∉ s.failedProxies) (hf : a ∉ s.failures) :
    addProxy s a nodes (some host) (some i) =
      ({ s with allProxies := s.allProxies.insert a ⟨a, nodes, host, i, none⟩
                globalEpoch := s.globalEpoch + 1 }, .ok ()) := by
  unfold addProxy
  simp only [hsegs, ne_eq, not_true_eq_false, if_false, hord, Option.getD_some,
    decide_eq_false ha, decide_eq_false hfp, decide_eq_false hf, Bool.not_false, Bool.true_or,
    Bool.false_or, if_true, OrdMap.insertIfAbsent, if_neg ha, Finset.erase_eq_of_notMem hfp,
    OrdMap.erase_of_notMem hf, MetaStore.bumpGlobalEpoch]
  rfl

/-- The table after inserting `ps` in order, each proxy at its own address. -/
def insertProxies (m : OrdMap String ProxyResource) (ps : List ProxyResource) :
    OrdMap String ProxyResource :=
  ps.foldl (fun m r => m.insert r.proxyAddress r) m

theorem mem_insertProxies {a : String} :
    ∀ {ps : List ProxyResource} {m : OrdMap String ProxyResource},
      a ∈ insertProxies m ps ↔ a ∈ m ∨ ∃ r ∈ ps, r.proxyAddress = a
  | [], m => by simp [insertProxies]
  | r :: ps, m => by
      rw [insertProxies, List.foldl_cons, ← insertProxies, mem_insertProxies, AList.mem_insert]
      simp only [List.mem_cons, exists_eq_or_imp]
      tauto

/-- Fresh addresses go to the front one after another: the values read
backwards. -/
theorem values_insertProxies :
    ∀ {ps : List ProxyResource} {m : OrdMap String ProxyResource},
      (ps.map ProxyResource.proxyAddress).Nodup → (∀ r ∈ ps, r.proxyAddress ∉ m) →
      (insertProxies m ps).values = ps.reverse ++ m.values
  | [], _, _, _ => rfl
  | r :: ps, m, hnodup, hfresh => by
      rw [List.map_cons, List.nodup_cons] at hnodup
      have hr : r.proxyAddress ∉ m := hfresh r List.mem_cons_self
      have hfresh' : ∀ r' ∈ ps, r'.proxyAddress ∉ m.insert r.proxyAddress r := by
        intro r' hr' hmem
        rcases (AList.mem_insert m).mp hmem with heq | hmem
        · exact hnodup.1 (heq ▸ List.mem_map_of_mem hr')
        · exact hfresh r' (List.mem_cons_of_mem _ hr') hmem
      rw [insertProxies, List.foldl_cons, ← insertProxies, values_insertProxies hnodup.2 hfresh',
        List.reverse_cons, List.append_assoc]
      unfold OrdMap.values
      rw [AList.entries_insert_of_notMem hr]
      rfl

/-- The call that adds proxy `r` with its own host and index. -/
def addProxyOp (r : ProxyResource) : Op :=
  .addProxy r.proxyAddress r.nodeAddresses (some r.host) (some r.index)

/-- Fresh proxies added one after another, in ordered mode: each enters the
table and bumps the epoch. -/
theorem run_addProxyOps (cfg : ServiceConfig) :
    ∀ (ps : List ProxyResource) (s : MetaStore), s.enableOrderedProxy = true →
      (ps.map ProxyResource.proxyAddress).Nodup →
      (∀ r ∈ ps, r.cluster = none ∧ (splitColon r.proxyAddress).length = 2 ∧
        r.proxyAddress ∉ s.allProxies ∧ r.proxyAddress ∉ s.failedProxies ∧
        r.proxyAddress ∉ s.failures) →
      Machine.run (Op.apply cfg) (ps.map addProxyOp) s =
        some { s with allProxies := insertProxies s.allProxies ps
                      globalEpoch := s.globalEpoch + UInt64.ofNat ps.length }
  | [], s, _, _, _ => by
      rw [List.map_nil, Machine.run_nil, List.length_nil]
      have he : s.globalEpoch + UInt64.ofNat 0 = s.globalEpoch := UInt64.add_zero _
      rw [he]
      rfl
  | r :: ps, s, hord, hnodup, hfresh => by
      obtain ⟨hfree, hsegs, ha, hfp, hf⟩ := hfresh r List.mem_cons_self
      rw [List.map_cons, List.nodup_cons] at hnodup
      have hstep : Op.apply cfg (addProxyOp r) s =
          some { s with allProxies := s.allProxies.insert r.proxyAddress r
                        globalEpoch := s.globalEpoch + 1 } := by
        show some (addProxy s _ _ _ _).1 = _
        rw [addProxy_of_fresh hord hsegs ha hfp hf]
        cases r
        cases hfree
        rfl
      have hrest : ∀ r' ∈ ps, r'.cluster = none ∧ (splitColon r'.proxyAddress).length = 2 ∧
          r'.proxyAddress ∉ s.allProxies.insert r.proxyAddress r ∧
          r'.proxyAddress ∉ s.failedProxies ∧ r'.proxyAddress ∉ s.failures := by
        intro r' hr'
        obtain ⟨h1, h2, h3, h4, h5⟩ := hfresh r' (List.mem_cons_of_mem _ hr')
        refine ⟨h1, h2, fun hmem => ?_, h4, h5⟩
        rcases (AList.mem_insert _).mp hmem with heq | hmem
        · exact hnodup.1 (heq ▸ List.mem_map_of_mem hr')
        · exact h3 hmem
      rw [List.map_cons, Machine.run_cons, hstep, Option.bind_some,
        run_addProxyOps cfg ps { s with allProxies := s.allProxies.insert r.proxyAddress r
                                        globalEpoch := s.globalEpoch + 1 } hord hnodup.2 hrest]
      have he : s.globalEpoch + 1 + UInt64.ofNat ps.length =
          s.globalEpoch + UInt64.ofNat (r :: ps).length := by
        rw [List.length_cons, UInt64.ofNat_add, UInt64.add_assoc, UInt64.add_comm 1]
        rfl
      rw [← he]
      rfl

/-! ## A first cluster over all of them -/

/-- Consecutive elements two by two, what `pairUp` returns on a list of even
length. -/
def pairOff {α : Type} : List α → List (α × α)
  | a :: b :: rest => (a, b) :: pairOff rest
  | _ => []

theorem length_pairOff {α : Type} : ∀ l : List α, (pairOff l).length = l.length / 2
  | [] => by simp [pairOff]
  | [_] => by simp [pairOff]
  | a :: b :: rest => by
      rw [pairOff, List.length_cons, length_pairOff rest, List.length_cons, List.length_cons]
      omega

theorem pairUp_of_even {α : Type} : ∀ {l : List α}, l.length % 2 = 0 → pairUp l = .ok (pairOff l)
  | [], _ => rfl
  | [_], h => absurd h (by simp)
  | a :: b :: rest, h => by
      rw [List.length_cons, List.length_cons] at h
      rw [pairUp, pairUp_of_even (l := rest) (by omega)]
      rfl

theorem consecutiveFrom_range' : ∀ (k m : Nat), consecutiveFrom k (List.range' (k + 1) m) = true
  | _, 0 => rfl
  | k, m + 1 => by
      rw [List.range'_succ, consecutiveFrom, consecutiveFrom_range' (k + 1) m]
      simp

/-- Setting the cluster of listed proxies fails only on an address the table
lacks. -/
theorem tagProxies_isSome {cluster : Option ClusterName} :
    ∀ {addresses : List String} {m : OrdMap String ProxyResource},
      (∀ a ∈ addresses, a ∈ m) → (tagProxies m addresses cluster).isSome
  | [], _, _ => rfl
  | a :: addresses, m, h => by
      have ha : a ∈ m := h a List.mem_cons_self
      obtain ⟨r, hr⟩ := Option.isSome_iff_exists.mp (AList.lookup_isSome.mpr ha)
      have hrest : ∀ a' ∈ addresses, a' ∈ m.modify a fun r => { r with cluster } := fun a' ha' =>
        (OrdMap.mem_modify m a' a _).mpr (h a' (List.mem_cons_of_mem _ ha'))
      unfold tagProxies
      rw [List.foldlM_cons]
      show ((m.get? a).bind fun _ => some (m.modify a fun r => { r with cluster })).bind _ |>.isSome
      rw [show m.get? a = some r from hr, Option.bind_some, Option.bind_some]
      exact tagProxies_isSome hrest

/-- The ordered choice when the free proxies, sorted by index, are `ps` of
indices `0` to `ps.length - 1`: all of them, two by two. -/
theorem generateFreeChunksForOrderedProxyIndex_of_free {ps : List ProxyResource}
    (hfree : (MetaStoreQuery.getFreeProxyResource s).insertionSort
      (fun a b => a.index ≤ b.index) = ps)
    (hidx : ps.map ProxyResource.index = List.range ps.length) (heven : ps.length % 2 = 0) :
    generateFreeChunksForOrderedProxyIndex s ps.length 0 = .ok (pairOff ps) := by
  have hlen : (MetaStoreQuery.getFreeProxyResource s).length = ps.length := by
    rw [← hfree, List.length_insertionSort]
  unfold generateFreeChunksForOrderedProxyIndex
  dsimp only
  rw [if_neg (by omega), hfree, List.take_length, hidx]
  cases hn : ps.length with
  | zero =>
      rw [hn] at heven
      exact pairUp_of_even (hn ▸ heven)
  | succ k =>
      rw [List.range_eq_range', List.range'_succ]
      simp only [beq_self_eq_true, consecutiveFrom_range' 0 k, Bool.and_self, Bool.not_true,
        Bool.false_eq_true, if_false]
      exact pairUp_of_even (hn ▸ heven)

/-- `add_cluster` in ordered mode on a store without clusters, over free
proxies `ps` of indices `0` to `ps.length - 1` that are all the free proxies:
one chunk for each two proxies of `ps`, with the slots laid out by
`proxy_resource_to_chunk_store`, and the proxies tagged. -/
theorem addCluster_of_free {clusterName : String} {name : ClusterName} {ps : List ProxyResource}
    (cfg : ClusterConfig) (hord : s.enableOrderedProxy = true) (hempty : s.clusters.entries = [])
    (hname : ClusterName.tryFrom clusterName = some name)
    (hfree : (MetaStoreQuery.getFreeProxyResource s).insertionSort
      (fun a b => a.index ≤ b.index) = ps)
    (hidx : ps.map ProxyResource.index = List.range ps.length) (heven : ps.length % 2 = 0)
    (hpos : 0 < ps.length) (hkeys : ∀ r ∈ ps, r.proxyAddress ∈ s.allProxies) :
    ∃ allProxies, addCluster s clusterName (2 * ps.length) cfg = some ({ s with
      allProxies
      clusters := s.clusters.insert name ⟨s.globalEpoch + 1, name,
        chunkStores (slotNum / ps.length) (slotNum - slotNum / ps.length * ps.length) true 0 0
          (pairOff ps), cfg⟩
      globalEpoch := s.globalEpoch + 1 }, .ok ()) := by
  have hchunks : proxyResourceToChunkStore (pairOff ps) true = some (chunkStores
      (slotNum / ps.length) (slotNum - slotNum / ps.length * ps.length) true 0 0 (pairOff ps)) := by
    have hm : (pairOff ps).length * 2 = ps.length := by
      rw [length_pairOff]
      omega
    unfold proxyResourceToChunkStore
    rw [hm, if_neg (by omega)]
  have hgen : generateChunks s (2 * ps.length / 2) 0 = some (.ok (pairOff ps)) := by
    rw [show 2 * ps.length / 2 = ps.length by omega]
    unfold generateChunks
    rw [if_pos hord, generateFreeChunksForOrderedProxyIndex_of_free hfree hidx heven]
  have haddr : chunkProxyAddresses (chunkStores (slotNum / ps.length)
      (slotNum - slotNum / ps.length * ps.length) true 0 0 (pairOff ps)) =
        ps.map ProxyResource.proxyAddress := by
    rw [chunkProxyAddresses_chunkStores, pairsFlat_of_pairUp (pairUp_of_even heven)]
  have htag : (tagProxies s.allProxies (chunkProxyAddresses (chunkStores (slotNum / ps.length)
      (slotNum - slotNum / ps.length * ps.length) true 0 0 (pairOff ps))) (some name)).isSome :=
    tagProxies_isSome fun a ha => by
      rw [haddr] at ha
      obtain ⟨r, hr, rfl⟩ := List.mem_map.mp ha
      exact hkeys r hr
  obtain ⟨allProxies, htag⟩ := Option.isSome_iff_exists.mp htag
  have hguard : (s.enableOrderedProxy && !s.clusters.entries.isEmpty) = false := by
    rw [hord, hempty]
    rfl
  have hnew : name ∉ s.clusters := fun h => by
    have hk : name ∈ s.clusters.entries.keys := h
    rw [hempty] at hk
    exact List.not_mem_nil hk
  refine ⟨allProxies, ?_⟩
  unfold addCluster
  simp only [hguard, Bool.false_eq_true, if_false, hname, if_neg hnew]
  rw [if_neg (by omega), if_neg (by omega), hgen]
  dsimp only
  rw [hchunks]
  simp only [Option.bind_eq_bind, Option.bind_some, MetaStore.bumpGlobalEpoch, htag]
  rfl

end MetaStoreUpdate

/-! ## What the migration calls read -/

namespace MetaStoreMigrate

/-- `migrate_slots_to_scale_down` never reads the proxy table: on a store
with another table it does the same, and leaves that table. -/
theorem migrateSlotsToScaleDown_allProxies (s : MetaStore) (allProxies : OrdMap String ProxyResource)
    (clusterName : String) (newNodeNum : Nat) :
    migrateSlotsToScaleDown { s with allProxies } clusterName newNodeNum =
      (migrateSlotsToScaleDown s clusterName newNodeNum).map
        fun r => ({ r.1 with allProxies }, r.2) := by
  unfold migrateSlotsToScaleDown MetaStore.bumpGlobalEpoch
  cases ClusterName.tryFrom clusterName with
  | none => rfl
  | some name =>
      dsimp only
      cases s.clusters.get? name with
      | none => rfl
      | some c =>
          dsimp only
          repeat' split
          all_goals first | rfl | skip
          -- the successful plan: each stage is read off the cluster alone
          cases removeSlotsFromSrcToScaleDown c (s.globalEpoch + 1) (newNodeNum / 4) with
          | none => rfl
          | some p =>
              simp only [Option.bind_eq_bind, Option.bind_some]
              cases assignDstSlots p.1 p.2 with
              | none => rfl
              | some chunks =>
                  simp only [Option.bind_some]
                  cases printMigrationSlot chunks <;> rfl

end MetaStoreMigrate

/-! ## The run -/

open MetaStoreUpdate

/-- From a new store: `n` proxies of indices `0` to `n - 1`, then a cluster of
`2 * n` nodes over all of them. -/
def orderedClusterRun (n : Nat) (clusterName : String) : List Op :=
  (orderedProxies n).map addProxyOp ++ [.addCluster clusterName (2 * n)]

/-- The store that run reaches, but for its proxy table. -/
def orderedClusterStore (n : Nat) (name : ClusterName) (cfg : ClusterConfig) : MetaStore :=
  { MetaStore.new true with
    clusters := (∅ : OrdMap ClusterName ClusterStore).insert name ⟨UInt64.ofNat n + 1, name,
      chunkStores (slotNum / n) (slotNum - slotNum / n * n) true 0 0 (pairOff (orderedProxies n)), cfg⟩
    globalEpoch := UInt64.ofNat n + 1 }

theorem length_orderedProxies (n : Nat) : (orderedProxies n).length = n := by
  rw [orderedProxies, List.length_map, List.length_range]

/-- An ordered-mode store with one cluster of `n / 2` chunks over `n`
proxies, each chunk two proxies in index order, is reachable for every even
`n`. -/
theorem run_orderedClusterRun (cfg : ServiceConfig) {n : Nat} (heven : n % 2 = 0) (hpos : 0 < n)
    {clusterName : String} {name : ClusterName} (hname : ClusterName.tryFrom clusterName = some name) :
    ∃ allProxies, Machine.run (Op.apply cfg) (orderedClusterRun n clusterName) (MetaStore.new true) =
      some { orderedClusterStore n name cfg.defaultClusterConfig with allProxies } := by
  let ps := orderedProxies n
  have hlen : ps.length = n := length_orderedProxies n
  -- the proxies go in one by one
  have hfresh : ∀ r ∈ ps, r.cluster = none ∧ (splitColon r.proxyAddress).length = 2 ∧
      r.proxyAddress ∉ (MetaStore.new true).allProxies ∧
      r.proxyAddress ∉ (MetaStore.new true).failedProxies ∧
      r.proxyAddress ∉ (MetaStore.new true).failures := by
    intro r hr
    obtain ⟨i, -, rfl⟩ := List.mem_map.mp hr
    exact ⟨rfl, splitColon_indexedAddress i (by decide), AList.notMem_empty _,
      Finset.notMem_empty _, AList.notMem_empty _⟩
  have hprox := run_addProxyOps cfg ps (MetaStore.new true) rfl
    (nodup_orderedProxies_addresses n) hfresh
  let s₀ : MetaStore := { MetaStore.new true with
    allProxies := insertProxies ∅ ps, globalEpoch := 0 + UInt64.ofNat ps.length }
  -- every proxy is free, and sorting by index undoes the insertion order
  have hvalues : s₀.allProxies.values = ps.reverse := by
    rw [values_insertProxies (nodup_orderedProxies_addresses n)
      (fun r _ => AList.notMem_empty _)]
    exact List.append_nil _
  have hfree : (MetaStoreQuery.getFreeProxyResource s₀).insertionSort
      (fun a b => a.index ≤ b.index) = ps := by
    unfold MetaStoreQuery.getFreeProxyResource
    rw [hvalues, List.filter_eq_self.mpr]
    · have hpair : ps.Pairwise fun a b => a.index < b.index := by
        rw [← List.pairwise_map, orderedProxies_index]
        exact List.pairwise_lt_range
      exact List.insertionSort_reverse_of_pairwise hpair
    · intro r hr
      obtain ⟨i, -, rfl⟩ := List.mem_map.mp (List.mem_reverse.mp hr)
      rfl
  have hkeys : ∀ r ∈ ps, r.proxyAddress ∈ s₀.allProxies := fun r hr =>
    mem_insertProxies.mpr (.inr ⟨r, hr, rfl⟩)
  -- then the cluster
  obtain ⟨allProxies, hcluster⟩ := addCluster_of_free cfg.defaultClusterConfig rfl rfl
    hname hfree (by rw [orderedProxies_index, hlen]) (by rw [hlen]; exact heven)
    (by rw [hlen]; exact hpos) hkeys
  refine ⟨allProxies, ?_⟩
  rw [orderedClusterRun, Machine.run_append, hprox, Option.bind_some, Machine.run_cons]
  have h2 : 2 * n = 2 * ps.length := by rw [hlen]
  show (Option.map (·.1) (addCluster s₀ clusterName (2 * n) cfg.defaultClusterConfig)).bind _ = _
  rw [h2, hcluster, Option.map_some, Option.bind_some, Machine.run_nil, hlen]
  have he : (0 : UInt64) + UInt64.ofNat n = UInt64.ofNat n := UInt64.zero_add _
  simp only [s₀]
  rw [hlen, he]
  rfl

end Undermoon
