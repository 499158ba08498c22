import Undermoon.Broker.Query
import Undermoon.Lib.Iter

/-!
# Choosing proxies for new chunks

The private helpers of `broker/update.rs` that pick free proxies: the link
table of host pairs, the greedy pairing of `allocate_chunk` with the trimming
of `remove_redundant_chunks` before it, the index-ordered pairing used for a
Kubernetes StatefulSet, the replacement of one failed proxy, and the layout
`proxy_resource_to_chunk_store` gives a list of proxy pairs.

Maps built here (`host_proxies`, the link table) are `OrdMap`s like the
store's own, built in the order the code fills them. Panics (`expect`,
division by zero) are `none`.
-/

namespace Undermoon

namespace MetaStoreUpdate

/-- `generate_free_host_proxies`: the free proxies grouped by host. -/
def generateFreeHostProxies (s : MetaStore) : OrdMap String (List String) :=
  (MetaStoreQuery.getFreeProxies s).foldl (fun m (hostProxy : String × String) =>
    m.upsert hostProxy.1 [] (· ++ [hostProxy.2])) ∅

/-- One `entry(a).or_insert_with(HashMap::new).entry(b).or_insert(0)` of the
link table, with `n` added to the count. -/
def linkAdd (t : OrdMap String (OrdMap String Nat)) (a b : String) (n : Nat) :
    OrdMap String (OrdMap String Nat) :=
  t.upsert a ∅ fun inner => inner.upsert b 0 (· + n)

/-- The hosts that still have a free proxy (failed ones included). -/
def freeHosts (s : MetaStore) : List String :=
  (s.allProxies.values.filter fun r => r.cluster.isNone).map ProxyResource.host

/-- `build_link_table`: a zero entry for every pair of distinct hosts one of
which has a free proxy, then one link per chunk, in both directions. -/
def buildLinkTable (s : MetaStore) : OrdMap String (OrdMap String Nat) :=
  let free := freeHosts s
  let proxies := s.allProxies.values
  let zeros := proxies.foldl (fun t (p1 : ProxyResource) => proxies.foldl (fun t p2 =>
    if p1.host = p2.host then t
    else if !free.contains p1.host && !free.contains p2.host then t
    else linkAdd (linkAdd t p1.host p2.host 0) p2.host p1.host 0) t) ∅
  s.clusters.values.foldl (fun t (c : ClusterStore) => c.chunks.foldl (fun t chunk =>
    linkAdd (linkAdd t (chunk.hosts 0) (chunk.hosts 1) 1) (chunk.hosts 1) (chunk.hosts 0) 1) t)
    zeros

/-- `second_host_cmp`: fewer links first, then more free proxies first. Both
callers filter the candidates to hosts of `free`, so the `expect`s on the
free counts cannot fire and the counts are read with a default. -/
def secondHostCmp (host1 : String) (count1 : Nat) (host2 : String) (count2 : Nat)
    (free : OrdMap String (List String)) : Ordering :=
  let r := compare count1 count2
  if r ≠ .eq then r
  else
    let free1 := ((free.get? host1).map List.length).getD 0
    let free2 := ((free.get? host2).map List.length).getD 0
    compare free2 free1

/-- One `*link_table.get_mut(a).expect(..).get_mut(b).expect(..) += 1`. -/
def incLink (t : OrdMap String (OrdMap String Nat)) (a b : String) :
    Option (OrdMap String (OrdMap String Nat)) := do
  let inner ← t.get? a
  let _ ← inner.get? b
  pure (t.modify a fun inner => inner.modify b (· + 1))

/-- One round of the `allocate_chunk` loop: the host with the most free
proxies (the last one on a tie) gives its last proxy, and the least linked
host with a free proxy left gives its last one to pair with it. -/
def allocateStep (hostProxies : OrdMap String (List String))
    (linkTable : OrdMap String (OrdMap String Nat)) :
    Option (OrdMap String (List String) × OrdMap String (OrdMap String Nat) × (String × String)) := do
  let first ← hostProxies.entries.lastMaxByKey fun e => e.2.length
  let firstAddress ← first.2.getLast?
  let hostProxies : OrdMap String (List String) := hostProxies.replace first.1 first.2.dropLast
  let peers ← linkTable.get? first.1
  let candidates := peers.entries.filter fun e =>
    e.1 ≠ first.1 && match hostProxies.get? e.1 with
      | some l => l.length ≠ 0
      | none => false
  let second ← candidates.firstMinBy fun a b => secondHostCmp a.1 a.2 b.1 b.2 hostProxies
  let secondList ← hostProxies.get? second.1
  let secondAddress ← secondList.getLast?
  let hostProxies : OrdMap String (List String) :=
    hostProxies.replace second.1 secondList.dropLast
  let linkTable ← incLink linkTable first.1 second.1
  let linkTable ← incLink linkTable second.1 first.1
  pure (hostProxies, linkTable, (firstAddress, secondAddress))

/-- The `while new_proxy_pairs.len() * 2 < expected_num` loop, run for its
number of rounds. -/
def allocateLoop : Nat → OrdMap String (List String) → OrdMap String (OrdMap String Nat) →
    List (String × String) → Option (List (String × String))
  | 0, _, _, pairs => some pairs
  | k + 1, hostProxies, linkTable, pairs => do
      let (hostProxies, linkTable, pair) ← allocateStep hostProxies linkTable
      allocateLoop k hostProxies linkTable (pairs ++ [pair])

/-- `allocate_chunk`: refuse too few proxies or one host with more than half
of them, then pair greedily. -/
def allocateChunk (hostProxies : OrdMap String (List String))
    (linkTable : OrdMap String (OrdMap String Nat)) (expectedNum : Nat) :
    Option (Except MetaStoreError (List (String × String))) :=
  let counts := hostProxies.values.map List.length
  let maxProxyNum := counts.max?.getD 0
  let sumProxyNum := counts.sum
  if sumProxyNum < expectedNum then some (.error .noAvailableResource)
  else if maxProxyNum * 2 > sumProxyNum then some (.error .resourceNotBalance)
  else (allocateLoop ((expectedNum + 1) / 2) hostProxies linkTable []).map .ok

/-- The inner `while max_proxy_num * 2 > free_proxy_num` loop of
`remove_redundant_chunks`, on fuel `max_proxy_num`, which it decrements. -/
def popRedundant : Nat → List String → Nat → Nat → List String × Nat × Nat
  | 0, proxies, free, max => (proxies, free, max)
  | fuel + 1, proxies, free, max =>
      if max * 2 > free then popRedundant fuel proxies.dropLast (free - 1) (max - 1)
      else (proxies, free, max)

/-- `remove_redundant_chunks`: the first host with the most free proxies gives
up proxies until it holds no more than the others together. -/
def removeRedundantChunks (hostProxies : OrdMap String (List String)) (expectedNum : Nat) :
    Except MetaStoreError (OrdMap String (List String)) :=
  let counts := hostProxies.values.map List.length
  let freeProxyNum := counts.sum
  let maxProxyNum := counts.max?.getD 0
  let (hostProxies, freeProxyNum) :=
    match hostProxies.entries.find? fun e => e.2.length = maxProxyNum with
    | some e =>
        let (proxies, free, _) := popRedundant maxProxyNum e.2 freeProxyNum maxProxyNum
        (hostProxies.replace e.1 proxies, free)
    | none => (hostProxies, freeProxyNum)
  if freeProxyNum < expectedNum then .error .noAvailableResource else .ok hostProxies

/-- `generate_free_chunks`. -/
def generateFreeChunks (s : MetaStore) (proxyNum : Nat) :
    Option (Except MetaStoreError (List (ProxyResource × ProxyResource))) :=
  match removeRedundantChunks (generateFreeHostProxies s) proxyNum with
  | .error e => some (.error e)
  | .ok hostProxies =>
      match allocateChunk hostProxies (buildLinkTable s) proxyNum with
      | none => none
      | some (.error e) => some (.error e)
      | some (.ok pairs) =>
          (pairs.mapM fun (pair : String × String) => do
            let a ← s.allProxies.get? pair.1
            let b ← s.allProxies.get? pair.2
            pure (a, b)).map .ok

/-- Whether a list of indices counts up by one from `first`. -/
def consecutiveFrom : Nat → List Nat → Bool
  | _, [] => true
  | last, i :: rest => last + 1 == i && consecutiveFrom i rest

/-- `chunks(CHUNK_HALF_NODE_NUM)`, each chunk required to be full. -/
def pairUp {α : Type} : List α → Except MetaStoreError (List (α × α))
  | [] => .ok []
  | [_] => .error .invalidNodeNum
  | a :: b :: rest => (pairUp rest).map ((a, b) :: ·)

/-- `generate_free_chunks_for_ordered_proxy_index`: the free proxies of lowest
index, which must be `first_index`, `first_index + 1`, ..., taken in pairs. -/
def generateFreeChunksForOrderedProxyIndex (s : MetaStore) (proxyNum firstIndex : Nat) :
    Except MetaStoreError (List (ProxyResource × ProxyResource)) :=
  let free := MetaStoreQuery.getFreeProxyResource s
  if free.length < proxyNum then .error .noAvailableResource
  else
    -- `sort_by_key` is stable, as the insertion sort is
    let taken := (free.insertionSort fun a b => a.index ≤ b.index).take proxyNum
    let inOrder := match taken.map ProxyResource.index with
      | [] => true
      | first :: rest => first == firstIndex && consecutiveFrom first rest
    if !inOrder then .error .proxyResourceOutOfOrder else pairUp taken

/-- `generate_new_free_proxy`: a free proxy on the free host least linked to
the failed proxy's host. -/
def generateNewFreeProxy (s : MetaStore) (failedProxyAddress : String) :
    Option (Except MetaStoreError ProxyResource) :=
  let free := generateFreeHostProxies s
  let linkTable := buildLinkTable s
  match s.allProxies.get? failedProxyAddress with
  | none => some (.error .proxyNotFound)
  | some failed =>
      match linkTable.get? failed.host with
      | none => none
      | some counts =>
          let candidates := counts.entries.filter fun e => decide (e.1 ∈ free)
          match candidates.firstMinBy fun a b => secondHostCmp a.1 a.2 b.1 b.2 free with
          | none => some (.error .noAvailableResource)
          | some peer =>
              match (MetaStoreQuery.getFreeProxies s).find? fun hp => hp.1 == peer.1 with
              | none => none
              | some hp => (s.allProxies.get? hp.2).map .ok

/-! ## The slot layout of new chunks -/

/-- The `create_slots` closure: the next `average` slots, one more for the
first `remainder` masters. -/
def createSlots (average remainder index currSlot : Nat) : SlotRange × Nat :=
  let r := if index < remainder then 1 else 0
  let stop := currSlot + average + r
  (⟨RangeList.fromSingleRange ⟨currSlot, stop - 1⟩, .none⟩, stop)

/-- A fresh chunk over two proxies, in normal role position. -/
def chunkStoreOf (first second : ProxyResource) (stableSlots : Fin 2 → Option SlotRange) :
    ChunkStore :=
  ⟨.normal, stableSlots, fun _ => [], ![first.proxyAddress, second.proxyAddress],
    ![first.host, second.host],
    ![first.nodeAddresses 0, first.nodeAddresses 1, second.nodeAddresses 0,
      second.nodeAddresses 1]⟩

/-- The loop of `proxy_resource_to_chunk_store` from chunk `i` on, with the
next free slot `currSlot`. -/
def chunkStores (average remainder : Nat) (withSlots : Bool) :
    Nat → Nat → List (ProxyResource × ProxyResource) → List ChunkStore
  | _, _, [] => []
  | i, currSlot, (first, second) :: rest =>
      if withSlots then
        let (a, currSlot) := createSlots average remainder (2 * i) currSlot
        let (b, currSlot) := createSlots average remainder (2 * i + 1) currSlot
        chunkStoreOf first second ![some a, some b] ::
          chunkStores average remainder withSlots (i + 1) currSlot rest
      else
        chunkStoreOf first second ![none, none] ::
          chunkStores average remainder withSlots (i + 1) currSlot rest

/-- `proxy_resource_to_chunk_store`: chunks in the order of the pairs; with
slots, master `k` gets the `k`-th run of `SLOT_NUM / masters` slots, one more
for the first `SLOT_NUM % masters`. No pairs divide by zero and panic. -/
def proxyResourceToChunkStore (arr : List (ProxyResource × ProxyResource)) (withSlots : Bool) :
    Option (List ChunkStore) :=
  let masterNum := arr.length * 2
  if masterNum = 0 then none
  else
    let average := slotNum / masterNum
    let remainder := slotNum - average * masterNum
    some (chunkStores average remainder withSlots 0 0 arr)

end MetaStoreUpdate

end Undermoon
