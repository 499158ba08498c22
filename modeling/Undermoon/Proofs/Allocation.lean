import Undermoon.Broker.Update

/-!
# The proxies new chunks are made of

`add_cluster`, `auto_add_nodes` and `replace_failed_proxy` build chunks out of
proxies they choose, and every cross reference of the store rests on the
choice: each chosen proxy is in the table under its own address, in no
cluster, and none is chosen twice.

The index-ordered choice takes a sorted prefix of the free proxies, and the
failover choice looks one up. The greedy pairing of `allocate_chunk` is the
intricate one: it pops proxies off the per-host lists of a map, trimmed first
by `remove_redundant_chunks`. What it pops, together with what it leaves, is
what it started with, up to order (the pool lemmas of `OrdMap`), and that
pool is the list of free proxies.
-/

namespace Undermoon

/-- The elements of a list of pairs, first before second. -/
def pairsFlat {α : Type} (arr : List (α × α)) : List α := arr.flatMap fun p => [p.1, p.2]

@[simp] theorem pairsFlat_nil {α : Type} : pairsFlat ([] : List (α × α)) = [] := rfl

@[simp] theorem pairsFlat_cons {α : Type} (p : α × α) (arr : List (α × α)) :
    pairsFlat (p :: arr) = p.1 :: p.2 :: pairsFlat arr := rfl

theorem pairsFlat_append {α : Type} (arr arr' : List (α × α)) :
    pairsFlat (arr ++ arr') = pairsFlat arr ++ pairsFlat arr' := List.flatMap_append

namespace MetaStore

/-- Every proxy of the table is stored under its own address. -/
def Keyed (s : MetaStore) : Prop :=
  ∀ a r, s.allProxies.get? a = some r → r.proxyAddress = a

/-- A proxy the table has, under its own address, in no cluster. -/
def FreeProxy (s : MetaStore) (r : ProxyResource) : Prop :=
  s.allProxies.get? r.proxyAddress = some r ∧ r.cluster = none

/-- What new chunks are made of: free proxies, no address twice. -/
structure FreePairs (s : MetaStore) (arr : List (ProxyResource × ProxyResource)) : Prop where
  free : ∀ r ∈ pairsFlat arr, s.FreeProxy r
  nodup : ((pairsFlat arr).map ProxyResource.proxyAddress).Nodup

variable {s : MetaStore}

theorem Keyed.get?_of_mem_values (hk : s.Keyed) {r : ProxyResource}
    (hr : r ∈ s.allProxies.values) : s.allProxies.get? r.proxyAddress = some r := by
  obtain ⟨a, ha⟩ := OrdMap.mem_values.mp hr
  rw [hk a r ha]
  exact ha

/-- The addresses of the table's proxies are its keys. -/
theorem Keyed.nodup_addresses (hk : s.Keyed) :
    (s.allProxies.values.map ProxyResource.proxyAddress).Nodup := by
  have h : s.allProxies.values.map ProxyResource.proxyAddress = s.allProxies.keys := by
    unfold OrdMap.values AList.keys List.keys
    rw [List.map_map]
    apply List.map_congr_left
    intro e he
    exact hk e.1 e.2 (OrdMap.mem_of_mem_entries he)
  rw [h]
  exact s.allProxies.keys_nodup

/-- Two proxies of the table at one address are one. -/
theorem FreeProxy.eq_of_get? {r r' : ProxyResource} (hr : s.FreeProxy r)
    (h : s.allProxies.get? r.proxyAddress = some r') : r' = r :=
  Option.some.inj (h.symm.trans hr.1)

end MetaStore

namespace MetaStoreQuery

variable {s : MetaStore}

theorem freeProxy_of_mem_getFreeProxyResource (hk : s.Keyed) {r : ProxyResource}
    (hr : r ∈ getFreeProxyResource s) : s.FreeProxy r := by
  obtain ⟨hv, hfree⟩ := List.mem_filter.mp hr
  simp only [Bool.and_eq_true, Option.isNone_iff_eq_none] at hfree
  exact ⟨hk.get?_of_mem_values hv, hfree.1.1⟩

theorem nodup_getFreeProxyResource (hk : s.Keyed) :
    ((getFreeProxyResource s).map ProxyResource.proxyAddress).Nodup :=
  hk.nodup_addresses.sublist (List.filter_sublist.map _)

/-- An address of `get_free_proxies` is the address of a free proxy. -/
theorem exists_of_mem_getFreeProxies {a : String}
    (ha : a ∈ (getFreeProxies s).map Prod.snd) :
    ∃ r ∈ getFreeProxyResource s, r.proxyAddress = a := by
  unfold getFreeProxies at ha
  rw [List.map_map] at ha
  exact List.mem_map.mp ha

end MetaStoreQuery

namespace MetaStoreUpdate

variable {s : MetaStore}

/-! ## Choosing by index -/

theorem pairsFlat_of_pairUp {α : Type} : ∀ {l : List α} {arr : List (α × α)},
    pairUp l = .ok arr → pairsFlat arr = l
  | [], _, h => by cases h; rfl
  | [_], _, h => by cases h
  | a :: b :: rest, arr, h => by
      unfold pairUp at h
      cases hr : pairUp rest with
      | error e => rw [hr] at h; cases h
      | ok arr' =>
          rw [hr] at h
          cases h
          rw [pairsFlat_cons, pairsFlat_of_pairUp hr]

theorem generateFreeChunksForOrderedProxyIndex_freePairs (hk : s.Keyed) {proxyNum firstIndex : Nat}
    {arr : List (ProxyResource × ProxyResource)}
    (h : generateFreeChunksForOrderedProxyIndex s proxyNum firstIndex = .ok arr) :
    s.FreePairs arr := by
  unfold generateFreeChunksForOrderedProxyIndex at h
  dsimp only at h
  -- every branch but the last refuses
  have hpair : pairUp ((MetaStoreQuery.getFreeProxyResource s).insertionSort
      (fun a b => a.index ≤ b.index) |>.take proxyNum) = .ok arr := by
    repeat' split at h
    all_goals first | cases h | exact h
  have hflat := pairsFlat_of_pairUp hpair
  have hperm := List.perm_insertionSort (fun a b : ProxyResource => a.index ≤ b.index)
    (MetaStoreQuery.getFreeProxyResource s)
  refine ⟨fun r hr => ?_, ?_⟩
  · rw [hflat] at hr
    exact MetaStoreQuery.freeProxy_of_mem_getFreeProxyResource hk
      (hperm.subset (List.mem_of_mem_take hr))
  · rw [hflat]
    exact ((hperm.map _).nodup_iff.mpr (MetaStoreQuery.nodup_getFreeProxyResource hk)).sublist
      ((List.take_sublist _ _).map _)

/-! ## Choosing by hosts -/

/-- The host map holds exactly the free proxies. -/
theorem generateFreeHostProxies_pool (s : MetaStore) :
    List.Perm (generateFreeHostProxies s).values.flatten ((MetaStoreQuery.getFreeProxies s).map Prod.snd) := by
  unfold generateFreeHostProxies
  -- the fold adds each proxy to the pool
  have hfold : ∀ (l : List (String × String)) (m : OrdMap String (List String)),
      List.Perm (OrdMap.values (l.foldl (fun m (hostProxy : String × String) =>
        m.upsert hostProxy.1 [] (· ++ [hostProxy.2])) m)).flatten
        (m.values.flatten ++ l.map Prod.snd) := by
    intro l
    induction l with
    | nil => intro m; rw [List.foldl_nil, List.map_nil, List.append_nil]
    | cons hp l ih =>
        intro m
        rw [List.foldl_cons, List.map_cons]
        refine (ih _).trans ?_
        have hu := OrdMap.values_flatten_upsert_append m hp.1 hp.2
        exact (hu.append_right _).trans (by rw [List.append_assoc]; exact List.Perm.refl _)
  exact hfold _ ∅

theorem popRedundant_isPrefix :
    ∀ (fuel : Nat) (proxies : List String) (free max : Nat),
      (popRedundant fuel proxies free max).1 <+: proxies
  | 0, _, _, _ => List.prefix_refl _
  | fuel + 1, proxies, free, max => by
      unfold popRedundant
      split
      · exact (popRedundant_isPrefix fuel _ _ _).trans (List.dropLast_prefix proxies)
      · exact List.prefix_refl _

theorem removeRedundantChunks_pool {hostProxies hostProxies' : OrdMap String (List String)}
    {expectedNum : Nat} (h : removeRedundantChunks hostProxies expectedNum = .ok hostProxies') :
    List.Subperm hostProxies'.values.flatten hostProxies.values.flatten := by
  unfold removeRedundantChunks at h
  dsimp only at h
  split at h
  · next e he =>
      split at h
      · cases h
      · cases h
        exact OrdMap.values_flatten_prefix_subperm
          (OrdMap.mem_of_mem_entries (List.mem_of_find?_eq_some he)) (popRedundant_isPrefix _ _ _ _)
  · split at h
    · cases h
    · cases h
      exact List.Subperm.refl _

/-- One round pops two proxies off the pool. -/
theorem allocateStep_pool {hostProxies hostProxies' : OrdMap String (List String)}
    {linkTable linkTable' : OrdMap String (OrdMap String Nat)} {pair : String × String}
    (h : allocateStep hostProxies linkTable = some (hostProxies', linkTable', pair)) :
    List.Perm (hostProxies'.values.flatten ++ [pair.1, pair.2]) hostProxies.values.flatten := by
  unfold allocateStep at h
  simp only [Option.bind_eq_bind, Option.bind_eq_some_iff, Option.pure_def, Option.some.injEq] at h
  obtain ⟨first, hfirst, x, hx, _, _, second, _, secondList, hsecond, y, hy, _, _, _, _, h⟩ := h
  simp only [Prod.mk.injEq] at h
  obtain ⟨rfl, -, rfl⟩ := h
  show List.Perm (_ ++ [x, y]) _
  have h₁ := OrdMap.values_flatten_dropLast_perm
    (OrdMap.mem_of_mem_entries (List.lastMaxByKey_mem hfirst)) hx
  have h₂ := OrdMap.values_flatten_dropLast_perm hsecond hy
  -- `x` left first, `y` second
  have hswap : ∀ l : List String, List.Perm (l ++ [x, y]) (l ++ [y] ++ [x]) := fun l => by
    rw [List.append_assoc]
    exact (List.Perm.swap y x []).append_left l
  exact (hswap _).trans ((h₂.append_right [x]).trans h₁)

/-- What the loop hands out, with what it started with, comes from the pool. -/
theorem allocateLoop_pool :
    ∀ {rounds : Nat} {hostProxies : OrdMap String (List String)}
      {linkTable : OrdMap String (OrdMap String Nat)} {pairs out : List (String × String)},
      allocateLoop rounds hostProxies linkTable pairs = some out →
      List.Subperm (pairsFlat out) (pairsFlat pairs ++ hostProxies.values.flatten)
  | 0, _, _, _, _, h => by
      cases h
      exact (List.sublist_append_left _ _).subperm
  | rounds + 1, hostProxies, linkTable, pairs, out, h => by
      unfold allocateLoop at h
      simp only [Option.bind_eq_bind, Option.bind_eq_some_iff] at h
      obtain ⟨⟨hostProxies', linkTable', pair⟩, hstep, h⟩ := h
      refine (allocateLoop_pool h).trans ?_
      rw [pairsFlat_append, pairsFlat_cons, pairsFlat_nil, List.append_assoc]
      refine (List.Perm.append_left _ ?_).subperm
      exact List.perm_append_comm.trans (allocateStep_pool hstep)

theorem allocateChunk_pool {hostProxies : OrdMap String (List String)}
    {linkTable : OrdMap String (OrdMap String Nat)} {expectedNum : Nat}
    {pairs : List (String × String)}
    (h : allocateChunk hostProxies linkTable expectedNum = some (.ok pairs)) :
    List.Subperm (pairsFlat pairs) hostProxies.values.flatten := by
  unfold allocateChunk at h
  dsimp only at h
  split at h
  · cases h
  · split at h
    · cases h
    · obtain ⟨pairs', hloop, hok⟩ := Option.map_eq_some_iff.mp h
      cases hok
      simpa using allocateLoop_pool hloop

/-- Looking the chosen addresses up gives proxies at those addresses. -/
theorem resolvePairs_spec (hk : s.Keyed) :
    ∀ {pairs : List (String × String)} {arr : List (ProxyResource × ProxyResource)},
      (pairs.mapM fun (pair : String × String) => do
          let a ← s.allProxies.get? pair.1
          let b ← s.allProxies.get? pair.2
          pure (a, b)) = some arr →
      (pairsFlat arr).map ProxyResource.proxyAddress = pairsFlat pairs ∧
        ∀ r ∈ pairsFlat arr, s.allProxies.get? r.proxyAddress = some r
  | [], arr, h => by
      cases h
      exact ⟨rfl, fun _ hr => absurd hr List.not_mem_nil⟩
  | pair :: pairs, arr, h => by
      simp only [List.mapM_cons, Option.bind_eq_bind, Option.bind_eq_some_iff, Option.pure_def,
        Option.some.injEq] at h
      obtain ⟨⟨a, b⟩, hab, rest, hrest, rfl⟩ := h
      obtain ⟨a', ha, b', hb, hab'⟩ := hab
      cases hab'
      obtain ⟨hmap, hget⟩ := resolvePairs_spec hk hrest
      have hka := hk _ _ ha
      have hkb := hk _ _ hb
      refine ⟨?_, ?_⟩
      · rw [pairsFlat_cons, List.map_cons, List.map_cons, hmap, hka, hkb]
        rfl
      · intro r hr
        rw [pairsFlat_cons] at hr
        rcases List.mem_cons.mp hr with rfl | hr
        · rw [hka]; exact ha
        · rcases List.mem_cons.mp hr with rfl | hr
          · rw [hkb]; exact hb
          · exact hget r hr

theorem generateFreeChunks_freePairs (hk : s.Keyed) {proxyNum : Nat}
    {arr : List (ProxyResource × ProxyResource)}
    (h : generateFreeChunks s proxyNum = some (.ok arr)) : s.FreePairs arr := by
  unfold generateFreeChunks at h
  split at h
  · cases h
  · next hostProxies hremove =>
      split at h
      · cases h
      · cases h
      · next pairs halloc =>
          obtain ⟨arr', hresolve, hok⟩ := Option.map_eq_some_iff.mp h
          cases hok
          obtain ⟨hmap, hget⟩ := resolvePairs_spec hk hresolve
          -- every chosen address is in the pool of free proxies
          have hsub : List.Subperm (pairsFlat pairs) ((MetaStoreQuery.getFreeProxies s).map Prod.snd) :=
            ((allocateChunk_pool halloc).trans (removeRedundantChunks_pool hremove)).trans
              (generateFreeHostProxies_pool s).subperm
          have hnodup : ((MetaStoreQuery.getFreeProxies s).map Prod.snd).Nodup := by
            unfold MetaStoreQuery.getFreeProxies
            rw [List.map_map]
            exact MetaStoreQuery.nodup_getFreeProxyResource hk
          refine ⟨fun r hr => ?_, ?_⟩
          rotate_left
          · obtain ⟨l, hpl, hsl⟩ := hsub
            rw [hmap]
            exact hpl.nodup_iff.mp (hnodup.sublist hsl)
          have ha : r.proxyAddress ∈ pairsFlat pairs := by
            rw [← hmap]; exact List.mem_map_of_mem hr
          obtain ⟨r', hr', hra⟩ := MetaStoreQuery.exists_of_mem_getFreeProxies (hsub.subset ha)
          obtain ⟨hget', hcluster⟩ := MetaStoreQuery.freeProxy_of_mem_getFreeProxyResource hk hr'
          rw [hra] at hget'
          have hrr : r = r' := Option.some.inj ((hget r hr).symm.trans hget')
          exact ⟨hget r hr, by rw [hrr]; exact hcluster⟩

theorem generateChunks_freePairs (hk : s.Keyed) {proxyNum firstIndex : Nat}
    {arr : List (ProxyResource × ProxyResource)}
    (h : generateChunks s proxyNum firstIndex = some (.ok arr)) : s.FreePairs arr := by
  unfold generateChunks at h
  split at h
  · exact generateFreeChunksForOrderedProxyIndex_freePairs hk (Option.some.inj h)
  · exact generateFreeChunks_freePairs hk h

/-- The proxy a failover hands a half to is a free proxy. -/
theorem generateNewFreeProxy_free (hk : s.Keyed) {a : String} {r : ProxyResource}
    (h : generateNewFreeProxy s a = some (.ok r)) : s.FreeProxy r := by
  unfold generateNewFreeProxy at h
  dsimp only at h
  repeat' split at h
  all_goals try cases h
  -- the one branch that answers: a free proxy of the chosen host, looked up by address
  next hp hfind =>
    obtain ⟨r', hget, hok⟩ := Option.map_eq_some_iff.mp h
    cases hok
    unfold MetaStoreQuery.getFreeProxies at hfind
    obtain ⟨fp, hfp, rfl⟩ := List.mem_map.mp (List.mem_of_find?_eq_some hfind)
    have hfree := MetaStoreQuery.freeProxy_of_mem_getFreeProxyResource hk hfp
    rw [hfree.eq_of_get? hget]
    exact hfree

/-! ## The chunks made of the chosen pairs -/

@[simp] theorem chunkStoreOf_proxyAddresses (a b : ProxyResource) (st : Fin 2 → Option SlotRange) :
    (chunkStoreOf a b st).proxyAddresses = ![a.proxyAddress, b.proxyAddress] := rfl

@[simp] theorem chunkStoreOf_hosts (a b : ProxyResource) (st : Fin 2 → Option SlotRange) :
    (chunkStoreOf a b st).hosts = ![a.host, b.host] := rfl

theorem chunkStoreOf_halfNodes (a b : ProxyResource) (st : Fin 2 → Option SlotRange) (i : Fin 2) :
    (chunkStoreOf a b st).halfNodes i = (![a, b] i).nodeAddresses := by
  funext j
  fin_cases i <;> fin_cases j <;> rfl

theorem mem_chunkStores {average remainder : Nat} {withSlots : Bool} :
    ∀ {i currSlot : Nat} {arr : List (ProxyResource × ProxyResource)} {chunk : ChunkStore},
      chunk ∈ chunkStores average remainder withSlots i currSlot arr →
      ∃ p ∈ arr, ∃ st, chunk = chunkStoreOf p.1 p.2 st
  | _, _, [], _, h => absurd h List.not_mem_nil
  | i, currSlot, (first, second) :: rest, chunk, h => by
      unfold chunkStores at h
      split at h
      all_goals
        rcases List.mem_cons.mp h with rfl | h
        · exact ⟨_, List.mem_cons_self, _, rfl⟩
        · obtain ⟨p, hp, st, rfl⟩ := mem_chunkStores h
          exact ⟨p, List.mem_cons_of_mem _ hp, st, rfl⟩

theorem chunkProxyAddresses_chunkStores {average remainder : Nat} {withSlots : Bool} :
    ∀ (i currSlot : Nat) (arr : List (ProxyResource × ProxyResource)),
      chunkProxyAddresses (chunkStores average remainder withSlots i currSlot arr) =
        (pairsFlat arr).map ProxyResource.proxyAddress
  | _, _, [] => rfl
  | i, currSlot, (first, second) :: rest => by
      unfold chunkStores
      split
      all_goals
        simp only [chunkProxyAddresses, List.flatMap_cons, pairsFlat_cons, List.map_cons] at *
        rw [← chunkProxyAddresses, chunkProxyAddresses_chunkStores]
        rfl

theorem proxyResourceToChunkStore_spec {arr : List (ProxyResource × ProxyResource)}
    {withSlots : Bool} {chunks : List ChunkStore}
    (h : proxyResourceToChunkStore arr withSlots = some chunks) :
    (∀ chunk ∈ chunks, ∃ p ∈ arr, ∃ st, chunk = chunkStoreOf p.1 p.2 st) ∧
      chunkProxyAddresses chunks = (pairsFlat arr).map ProxyResource.proxyAddress := by
  unfold proxyResourceToChunkStore at h
  dsimp only at h
  split at h
  · cases h
  · cases h
    exact ⟨fun _ hc => mem_chunkStores hc, chunkProxyAddresses_chunkStores _ _ _⟩

end MetaStoreUpdate

end Undermoon
