import Undermoon.Broker.Service

/-!
# Both halves of a chunk on one host

A chunk is a master and its replica on two proxies; `allocate_chunk` pairs a
proxy only with a proxy of another host, so that losing one host never takes
both halves. `replace_failed_proxy` does not keep this: it asks
`generate_new_free_proxy` for the free proxy of the least linked free host,
and the surviving half's own host is a candidate like any other.

Two hosts suffice: `A` with one proxy and `B` with two. The cluster's chunk
pairs `a1` with a proxy of `B`; when `a1` fails, `B` is the only host with a
free proxy, and the chunk ends with both halves on `B`.
-/

namespace Undermoon

/-- Three proxies on hosts `A`, `B`, `B`, a cluster of one chunk, and the
failure of the proxy on `A`. -/
def sameHostRun : List Op :=
  [.addProxy "a1:6000" !["a1:7000", "a1:7001"] (some "A") none,
   .addProxy "b1:6000" !["b1:7000", "b1:7001"] (some "B") none,
   .addProxy "b2:6000" !["b2:7000", "b2:7001"] (some "B") none,
   .addCluster "c" 4,
   .replaceFailedProxy "a1:6000"]

theorem replaceFailedProxy_same_host (toLowercase : String → String) :
    ∃ s, Machine.run (Op.apply (ServiceConfig.default toLowercase)) sameHostRun
        (MetaStore.new false) = some s ∧
      ∃ c ∈ s.clusters.values, ∃ chunk ∈ c.chunks, chunk.hosts 0 = chunk.hosts 1 := by
  -- the run changes no config, so the lowercase map is not read
  have hcfg : ServiceConfig.default toLowercase = { ServiceConfig.default id with toLowercase } :=
    rfl
  rw [hcfg, run_toLowercase _ _ (by decide)]
  have h : ((Machine.run (Op.apply (ServiceConfig.default id)) sameHostRun (MetaStore.new false)).map
      fun s => s.clusters.values.any fun c => c.chunks.any fun chunk =>
        chunk.hosts 0 == chunk.hosts 1) = some true := by
    decide +kernel
  obtain ⟨s, hs, hany⟩ := Option.map_eq_some_iff.mp h
  obtain ⟨c, hc, hchunk⟩ := List.any_eq_true.mp hany
  obtain ⟨chunk, hmem, heq⟩ := List.any_eq_true.mp hchunk
  exact ⟨s, hs, c, hc, chunk, hmem, beq_iff_eq.mp heq⟩

end Undermoon
