import Undermoon.Proofs.Preservation

/-!
# Epochs

The coordinator hands every proxy its view, `get_proxy_by_address`, as
`UMCTL SETCLUSTER`, and a proxy drops a view whose epoch is not above the one
it holds (`MetaManager::set_meta`). A change of a view therefore reaches the
proxy only if the view's epoch rises with it. A free proxy's view carries the
global epoch, that of a proxy in a cluster its cluster's epoch (`stamp`).

The epochs are `u64` and the release build does not check overflow:
`force_bump_all_epoch` takes any larger epoch, `u64::MAX` included, and the
next bump wraps the global epoch to zero. The results hold along runs that
keep room for the two bumps one call makes at most (`EpochRoom`).

`EpochStep s s'` is what one call may do to the epochs: the global epoch does
not go down; a cluster that changes is stamped above the old global epoch and
not above the new one; a proxy entry keeps its address and nodes, and moves
only to a place shown above the old global epoch. Every call makes such a
step (`Op.apply_epochStep`), and a step raises the epoch of every view it
changes (`EpochStep.view`).
-/

namespace Undermoon

namespace MetaStore

/-- Room for the two bumps of the global epoch one call makes at most. -/
def EpochRoom (s : MetaStore) : Prop := s.globalEpoch.toNat + 2 < 2 ^ 64

instance (s : MetaStore) : Decidable s.EpochRoom := Nat.decLt _ _

/-- The epoch a proxy tagged `x` is shown at: the global epoch when it is
free, its cluster's when it is in one. -/
def stamp (s : MetaStore) : Option ClusterName → Option UInt64
  | none => some s.globalEpoch
  | some n => (s.clusters.get? n).map ClusterStore.epoch

/-- No cluster is ahead of the global epoch. -/
def EpochsBounded (s : MetaStore) : Prop :=
  ∀ n c, s.clusters.get? n = some c → c.epoch.toNat ≤ s.globalEpoch.toNat

/-- An entry `r` of the table before a call is `r'` after it, in the store
`s'`: the same address and nodes, and the same place or one shown above the
epoch `g` of the store before. -/
def Retag (s' : MetaStore) (g : UInt64) (r r' : ProxyResource) : Prop :=
  r'.proxyAddress = r.proxyAddress ∧ r'.nodeAddresses = r.nodeAddresses ∧
    (r'.cluster = r.cluster ∨ ∀ e, s'.stamp r'.cluster = some e → g.toNat < e.toNat)

/-- What one call may do to the epochs. -/
structure EpochStep (s s' : MetaStore) : Prop where
  global : s.globalEpoch.toNat ≤ s'.globalEpoch.toNat
  clusters : ∀ n c', s'.clusters.get? n = some c' → s'.clusters.get? n = s.clusters.get? n ∨
    (s.globalEpoch.toNat < c'.epoch.toNat ∧ c'.epoch.toNat ≤ s'.globalEpoch.toNat)
  proxies : ∀ a r r', s.allProxies.get? a = some r → s'.allProxies.get? a = some r' →
    Retag s' s.globalEpoch r r'

/-- A call that loses no entry of the proxy table. -/
def KeepsProxies (s s' : MetaStore) : Prop :=
  ∀ a r, s.allProxies.get? a = some r → ∃ r', s'.allProxies.get? a = some r'

variable {s s' s'' : MetaStore}

theorem toNat_add_one {g : UInt64} (h : g.toNat + 1 < 2 ^ 64) : (g + 1).toNat = g.toNat + 1 := by
  rw [UInt64.toNat_add, UInt64.toNat_one, Nat.mod_eq_of_lt h]

theorem bumpGlobalEpoch_toNat_le (s : MetaStore) :
    s.bumpGlobalEpoch.1.globalEpoch.toNat ≤ s.globalEpoch.toNat + 1 := by
  rw [bumpGlobalEpoch_fst_globalEpoch, UInt64.toNat_add, UInt64.toNat_one]
  exact Nat.mod_le _ _

theorem EpochsBounded.stamp_le (hb : s.EpochsBounded) {x : Option ClusterName} {e : UInt64}
    (h : s.stamp x = some e) : e.toNat ≤ s.globalEpoch.toNat := by
  cases x with
  | none =>
      cases h
      exact Nat.le_refl _
  | some n =>
      obtain ⟨c, hc, rfl⟩ := Option.map_eq_some_iff.mp h
      exact hb n c hc

theorem epochsBounded_new (b : Bool) : (MetaStore.new b).EpochsBounded := fun _ _ h => by
  cases h

theorem Retag.refl (s' : MetaStore) (g : UInt64) (r : ProxyResource) : Retag s' g r r :=
  ⟨rfl, rfl, .inl rfl⟩

theorem EpochStep.bounded (h : EpochStep s s') (hb : s.EpochsBounded) : s'.EpochsBounded := by
  intro n c' hc'
  rcases h.clusters n c' hc' with hsame | ⟨-, hle⟩
  · rw [hsame] at hc'
    exact (hb n c' hc').trans h.global
  · exact hle

/-- A stamp after a step is the one before, or above the epoch before. -/
theorem EpochStep.stamp_after (h : EpochStep s s') {x : Option ClusterName} {e : UInt64}
    (he : s'.stamp x = some e) : s.stamp x = some e ∨ s.globalEpoch.toNat < e.toNat := by
  cases x with
  | none =>
      cases he
      rcases Nat.lt_or_eq_of_le h.global with hlt | heq
      · exact .inr hlt
      · exact .inl (congrArg some (UInt64.toNat_inj.mp heq))
  | some n =>
      obtain ⟨c', hc', rfl⟩ := Option.map_eq_some_iff.mp he
      rcases h.clusters n c' hc' with hsame | ⟨hlt, -⟩
      · left
        rw [stamp, ← hsame, hc']
        rfl
      · exact .inr hlt

theorem EpochStep.refl (s : MetaStore) : EpochStep s s where
  global := Nat.le_refl _
  clusters _ _ _ := .inl rfl
  proxies a r r' hr hr' := by
    rw [hr] at hr'
    cases hr'
    exact Retag.refl _ _ _

/-- A step whose proxy table is the one before. -/
theorem EpochStep.of_proxies_eq (hg : s.globalEpoch.toNat ≤ s'.globalEpoch.toNat)
    (hp : s'.allProxies = s.allProxies)
    (hc : ∀ n c', s'.clusters.get? n = some c' → s'.clusters.get? n = s.clusters.get? n ∨
      (s.globalEpoch.toNat < c'.epoch.toNat ∧ c'.epoch.toNat ≤ s'.globalEpoch.toNat)) :
    EpochStep s s' where
  global := hg
  clusters := hc
  proxies a r r' hr hr' := by
    rw [hp, hr] at hr'
    cases hr'
    exact Retag.refl _ _ _

/-- A step whose tables are the ones before. -/
theorem EpochStep.of_tables_eq (hg : s.globalEpoch.toNat ≤ s'.globalEpoch.toNat)
    (hp : s'.allProxies = s.allProxies) (hc : s'.clusters = s.clusters) : EpochStep s s' :=
  .of_proxies_eq hg hp fun n _ _ => .inl (by rw [hc])

theorem EpochStep.bump (hroom : s.globalEpoch.toNat + 1 < 2 ^ 64) :
    EpochStep s s.bumpGlobalEpoch.1 :=
  .of_tables_eq (by rw [bumpGlobalEpoch_fst_globalEpoch, toNat_add_one hroom]; omega) rfl rfl

theorem Retag.trans (hg : s.globalEpoch.toNat ≤ s'.globalEpoch.toNat) {r r' r'' : ProxyResource}
    (h₁ : Retag s' s.globalEpoch r r') (h₂ : EpochStep s' s'')
    (h₂r : Retag s'' s'.globalEpoch r' r'') : Retag s'' s.globalEpoch r r'' := by
  obtain ⟨ha₁, hn₁, hcl₁ | hup₁⟩ := h₁ <;> obtain ⟨ha₂, hn₂, hcl₂ | hup₂⟩ := h₂r
  · exact ⟨ha₂.trans ha₁, hn₂.trans hn₁, .inl (hcl₂.trans hcl₁)⟩
  · exact ⟨ha₂.trans ha₁, hn₂.trans hn₁, .inr fun e he => lt_of_le_of_lt hg (hup₂ e he)⟩
  · -- the second call leaves the entry where the first put it: its stamp
    -- stayed, or rose above the epoch between the calls
    refine ⟨ha₂.trans ha₁, hn₂.trans hn₁, .inr fun e he => ?_⟩
    rw [hcl₂] at he
    rcases h₂.stamp_after he with hbefore | hlt
    · exact hup₁ e hbefore
    · exact lt_of_le_of_lt hg hlt
  · exact ⟨ha₂.trans ha₁, hn₂.trans hn₁, .inr fun e he => lt_of_le_of_lt hg (hup₂ e he)⟩

/-- Two steps make one, through a store that lost no proxy. -/
theorem EpochStep.trans (h₁ : EpochStep s s') (h₂ : EpochStep s' s'') (hkeep : KeepsProxies s s') :
    EpochStep s s'' where
  global := h₁.global.trans h₂.global
  clusters n c'' hc'' := by
    rcases h₂.clusters n c'' hc'' with hsame | ⟨hlt, hle⟩
    · rw [hsame] at hc'' ⊢
      rcases h₁.clusters n c'' hc'' with hsame₁ | ⟨hlt₁, hle₁⟩
      · exact .inl hsame₁
      · exact .inr ⟨hlt₁, hle₁.trans h₂.global⟩
    · exact .inr ⟨lt_of_le_of_lt h₁.global hlt, hle⟩
  proxies a r r'' hr hr'' := by
    obtain ⟨r', hr'⟩ := hkeep a r hr
    exact (h₁.proxies a r r' hr hr').trans h₁.global h₂ (h₂.proxies a r' r'' hr' hr'')

theorem KeepsProxies.of_proxies_eq (hp : s'.allProxies = s.allProxies) : KeepsProxies s s' :=
  fun _ r hr => ⟨r, hp ▸ hr⟩

/-- The entries of a table whose proxies at `L` move to `x` and whose others
stay, when `x` is shown above the epoch before. -/
theorem retag_of_get? {L : List String} {x : Option ClusterName}
    (hx : ∀ e, s'.stamp x = some e → s.globalEpoch.toNat < e.toNat)
    (hp : ∀ a, s'.allProxies.get? a = if a ∈ L then
      (s.allProxies.get? a).map (fun r => { r with cluster := x }) else s.allProxies.get? a) :
    ∀ a r r', s.allProxies.get? a = some r → s'.allProxies.get? a = some r' →
      Retag s' s.globalEpoch r r' := by
  intro a r r' hr hr'
  rw [hp, hr] at hr'
  split at hr'
  · cases hr'
    exact ⟨rfl, rfl, .inr hx⟩
  · cases hr'
    exact Retag.refl _ _ _

theorem keepsProxies_of_get? {L : List String} {x : Option ClusterName}
    (hp : ∀ a, s'.allProxies.get? a = if a ∈ L then
      (s.allProxies.get? a).map (fun r => { r with cluster := x }) else s.allProxies.get? a) :
    KeepsProxies s s' := by
  intro a r hr
  rw [hp, hr]
  split
  · exact ⟨_, rfl⟩
  · exact ⟨r, rfl⟩

/-- A rewrite of one cluster at the bumped epoch, with room for the bump. -/
theorem Restamp.epochStep (hroom : s.globalEpoch.toNat + 1 < 2 ^ 64) (h : s.Restamp s') :
    EpochStep s s' := by
  rcases h with rfl | rfl | ⟨name, c, hmem, hc, rfl⟩
  · exact .refl _
  · exact .bump hroom
  · have hup : (s.globalEpoch + 1).toNat = s.globalEpoch.toNat + 1 := toNat_add_one hroom
    refine .of_proxies_eq (by dsimp only [bumpGlobalEpoch]; omega) rfl fun n c' hc' => ?_
    dsimp only [bumpGlobalEpoch] at hc' ⊢
    rw [OrdMap.get?_replace _ _ _ _ hmem] at hc' ⊢
    split at hc'
    · cases hc'
      rw [hc, hup]
      exact .inr ⟨by omega, by omega⟩
    · next hne => exact .inl (if_neg hne)

theorem Restamp.keepsProxies (h : s.Restamp s') : KeepsProxies s s' := by
  rcases h with rfl | rfl | ⟨name, c, -, -, rfl⟩ <;> exact .of_proxies_eq rfl

theorem Restamp.globalEpoch_le (h : s.Restamp s') :
    s'.globalEpoch.toNat ≤ s.globalEpoch.toNat + 1 := by
  rcases h with rfl | rfl | ⟨name, c, -, -, rfl⟩
  · omega
  · exact bumpGlobalEpoch_toNat_le s
  · exact bumpGlobalEpoch_toNat_le s

theorem stamp_some_eq {n : ClusterName} {c : ClusterStore} (hc : s.clusters.get? n = some c) :
    s.stamp (some n) = some c.epoch := by
  rw [stamp, hc]
  rfl

/-- An entry after a re-tagging `modify`, from one before it. -/
theorem retag_modify {g : UInt64} {m : OrdMap String ProxyResource} {a b : String}
    {x : Option ClusterName} {r₀ r' : ProxyResource}
    (hx : ∀ e, s'.stamp x = some e → g.toNat < e.toNat)
    (hm : ∀ r₁, m.get? a = some r₁ → Retag s' g r₀ r₁)
    (h : (m.modify b fun p => { p with cluster := x }).get? a = some r') : Retag s' g r₀ r' := by
  by_cases hab : a = b
  · subst hab
    rw [OrdMap.get?_modify_self] at h
    obtain ⟨r₁, hr₁, rfl⟩ := Option.map_eq_some_iff.mp h
    obtain ⟨haddr, hnodes, -⟩ := hm r₁ hr₁
    exact ⟨haddr, hnodes, .inr hx⟩
  · rw [OrdMap.get?_modify_ne _ _ hab] at h
    exact hm r' h

end MetaStore

/-! ## The view of a proxy -/

namespace MetaStoreQuery

variable {s s' : MetaStore}

theorem limitMigration_epoch {c c₁ : ClusterStore} {migrationLimit : UInt64}
    (h : c.limitMigration migrationLimit = some c₁) : c₁.epoch = c.epoch := by
  unfold ClusterStore.limitMigration at h
  split at h
  · cases h
    rfl
  · obtain ⟨_, -, rfl⟩ := Option.map_eq_some_iff.mp h
    rfl

theorem clusterStoreToCluster_epoch {c : ClusterStore} {cluster : Cluster}
    (h : clusterStoreToCluster c = some cluster) : cluster.epoch = c.epoch := by
  unfold clusterStoreToCluster at h
  simp only [Option.bind_eq_bind, Option.bind_eq_some_iff, Option.pure_def,
    Option.some.injEq] at h
  obtain ⟨_, _, rfl⟩ := h
  rfl

theorem getProxyByAddress_free {a : String} {r : ProxyResource} (migrationLimit : UInt64)
    (hr : s.allProxies.get? a = some r) (hx : r.cluster = none) :
    getProxyByAddress s a migrationLimit = some (some (freeProxy s a r)) := by
  unfold getProxyByAddress
  simp only [hr, hx]

/-- The view of a proxy in a cluster is read from that cluster alone. -/
theorem getProxyByAddress_cluster {a : String} {r : ProxyResource} {n : ClusterName}
    {c : ClusterStore} (migrationLimit : UInt64) (hr : s.allProxies.get? a = some r)
    (hx : r.cluster = some n) (hc : s.clusters.get? n = some c) :
    getProxyByAddress s a migrationLimit = (c.limitMigration migrationLimit).bind fun c₁ =>
      (clusterStoreToCluster c₁).map fun cluster => some (proxyInCluster a cluster) := by
  unfold getProxyByAddress getClusterStore
  simp only [hr, hx, hc]
  cases c.limitMigration migrationLimit <;> rfl

/-- A view is shown at the stamp of its proxy's entry. -/
theorem getProxyByAddress_stamp (hs : s.Consistent) {a : String} {migrationLimit : UInt64}
    {p : Proxy} (h : getProxyByAddress s a migrationLimit = some (some p)) :
    ∃ r, s.allProxies.get? a = some r ∧ s.stamp r.cluster = some p.epoch := by
  cases hr : s.allProxies.get? a with
  | none =>
      unfold getProxyByAddress at h
      rw [hr] at h
      cases h
  | some r =>
      refine ⟨r, rfl, ?_⟩
      cases hx : r.cluster with
      | none =>
          rw [getProxyByAddress_free _ hr hx] at h
          cases h
          rfl
      | some n =>
          -- a consistent store has the cluster the entry names
          obtain ⟨c, hc, -⟩ := hs.tagged a r n hr hx
          rw [getProxyByAddress_cluster _ hr hx hc] at h
          obtain ⟨c₁, hc₁, h⟩ := Option.bind_eq_some_iff.mp h
          obtain ⟨cluster, hcl, hp⟩ := Option.map_eq_some_iff.mp h
          cases hp
          simp only [MetaStore.stamp, hc, Option.map_some]
          rw [show (proxyInCluster a cluster).epoch = cluster.epoch from rfl,
            clusterStoreToCluster_epoch hcl, limitMigration_epoch hc₁]

end MetaStoreQuery

namespace MetaStore

variable {s s' : MetaStore}

open MetaStoreQuery in
/-- A step changes a view only by raising its epoch. -/
theorem EpochStep.view (h : EpochStep s s') (hb : s.EpochsBounded) (hs : s.Consistent)
    (hs' : s'.Consistent) {a : String} {migrationLimit : UInt64} {old new : Proxy}
    (hold : getProxyByAddress s a migrationLimit = some (some old))
    (hnew : getProxyByAddress s' a migrationLimit = some (some new)) :
    new = old ∨ old.epoch < new.epoch := by
  obtain ⟨r, hr, hstamp⟩ := getProxyByAddress_stamp hs hold
  obtain ⟨r', hr', hstamp'⟩ := getProxyByAddress_stamp hs' hnew
  have hle := hb.stamp_le hstamp
  rw [UInt64.lt_iff_toNat_lt]
  obtain ⟨haddr, hnodes, hcl | hup⟩ := h.proxies a r r' hr hr'
  · -- the same place: a free view follows the global epoch, a cluster view
    -- its cluster
    cases hx : r.cluster with
    | none =>
        have hx' : r'.cluster = none := hcl.trans hx
        rw [getProxyByAddress_free _ hr hx] at hold
        rw [getProxyByAddress_free _ hr' hx'] at hnew
        cases hold
        cases hnew
        rcases Nat.lt_or_eq_of_le h.global with hlt | heq
        · exact .inr hlt
        · left
          unfold freeProxy
          rw [UInt64.toNat_inj.mp heq, haddr, hnodes]
    | some n =>
        have hx' : r'.cluster = some n := hcl.trans hx
        obtain ⟨c', hc', -⟩ := hs'.tagged a r' n hr' hx'
        rcases h.clusters n c' hc' with hsame | ⟨hlt, -⟩
        · obtain ⟨c, hc, -⟩ := hs.tagged a r n hr hx
          have hcc : c' = c := Option.some.inj (hc'.symm.trans (hsame.trans hc))
          subst hcc
          rw [getProxyByAddress_cluster _ hr hx hc] at hold
          rw [getProxyByAddress_cluster _ hr' hx' hc', hold] at hnew
          exact .inl (Option.some.inj (Option.some.inj hnew)).symm
        · rw [hx', stamp, hc'] at hstamp'
          have he : c'.epoch = new.epoch := Option.some.inj hstamp'
          rw [← he]
          exact .inr (lt_of_le_of_lt hle hlt)
  · exact .inr (lt_of_le_of_lt hle (hup _ hstamp'))

end MetaStore

/-! ## Every call is an epoch step -/

namespace MetaStoreUpdate

open MetaStore

variable {s s' : MetaStore}

theorem addProxy_epochStep (hroom : s.globalEpoch.toNat + 1 < 2 ^ 64) {a : String}
    {nodes : Fin 2 → String} {host : Option String} {index : Option Nat}
    {res : Except MetaStoreError Unit} (h : addProxy s a nodes host index = (s', res)) :
    EpochStep s s' := by
  rcases addProxy_cases h with rfl | ⟨r, -, -, hp, hc, hg⟩
  · exact .refl _
  have hup := toNat_add_one hroom
  refine ⟨?_, fun n _ _ => .inl (by rw [hc]), fun b r₀ r' hr₀ hr' => ?_⟩
  · rcases hg with hg | ⟨hg, -⟩
    · rw [hg]
      omega
    · rw [hg]
  · -- an entry already there stays as it was
    rw [hp, OrdMap.get?_insertIfAbsent_of_get? hr₀] at hr'
    cases hr'
    exact Retag.refl _ _ _

theorem removeProxy_epochStep (hroom : s.globalEpoch.toNat + 1 < 2 ^ 64) {a : String}
    {res : Except MetaStoreError Unit} (h : removeProxy s a = (s', res)) : EpochStep s s' := by
  rcases removeProxy_cases h with rfl | ⟨r, -, -, rfl⟩
  · exact .refl _
  have hup := toNat_add_one hroom
  refine ⟨by dsimp only [bumpGlobalEpoch]; omega, fun n _ _ => .inl rfl, fun b r₀ r' hr₀ hr' => ?_⟩
  dsimp only [bumpGlobalEpoch] at hr'
  rw [OrdMap.get?_erase] at hr'
  split at hr'
  · cases hr'
  · rw [hr₀] at hr'
    cases hr'
    exact Retag.refl _ _ _

theorem addCluster_epochStep (hroom : s.globalEpoch.toNat + 1 < 2 ^ 64) {clusterName : String}
    {nodeNum : Nat} {config : ClusterConfig} {res : Except MetaStoreError Unit}
    (h : addCluster s clusterName nodeNum config = some (s', res)) : EpochStep s s' := by
  rcases addCluster_cases h with rfl | ⟨name, arr, chunks, allProxies, -, -, -, -, -, htag, rfl⟩
  · exact .refl _
  have hup := toNat_add_one hroom
  -- the new cluster and the proxies it takes, at the bumped epoch
  have hcl : ∀ n, OrdMap.get? (s.clusters.insert name ⟨s.globalEpoch + 1, name, chunks, config⟩) n =
      if n = name then some ⟨s.globalEpoch + 1, name, chunks, config⟩ else s.clusters.get? n :=
    fun n => OrdMap.get?_insert _ _ _ _
  refine ⟨by dsimp only [bumpGlobalEpoch]; omega, fun n c' hc' => ?_,
    retag_of_get? (fun e he => ?_) (get?_tagProxies htag)⟩
  · dsimp only at hc' ⊢
    rw [hcl] at hc' ⊢
    split at hc'
    · cases hc'
      exact .inr ⟨by dsimp only; omega, by dsimp only [bumpGlobalEpoch]; omega⟩
    · next hne => exact .inl (if_neg hne)
  · rw [stamp_some_eq ((hcl name).trans (if_pos rfl))] at he
    cases he
    dsimp only
    omega

theorem removeCluster_epochStep (hroom : s.globalEpoch.toNat + 1 < 2 ^ 64) {clusterName : String}
    {res : Except MetaStoreError Unit} (h : removeCluster s clusterName = (s', res)) :
    EpochStep s s' := by
  rcases removeCluster_cases h with rfl | ⟨name, c, -, rfl⟩
  · exact .refl _
  have hup := toNat_add_one hroom
  refine ⟨by dsimp only [bumpGlobalEpoch]; omega, fun n c' hc' => ?_,
    retag_of_get? (fun e he => ?_) (get?_freeProxies _ _)⟩
  · dsimp only [bumpGlobalEpoch] at hc' ⊢
    rw [OrdMap.get?_erase] at hc' ⊢
    split at hc'
    · cases hc'
    · next hne => exact .inl (if_neg hne)
  · -- the freed proxies show the bumped global epoch
    cases he
    dsimp only [bumpGlobalEpoch]
    omega

theorem autoAddNodes_epochStep (hroom : s.globalEpoch.toNat + 1 < 2 ^ 64) {clusterName : String}
    {num : Nat} {res : Except MetaStoreError (List Node)}
    (h : autoAddNodes s clusterName num = some (s', res)) : EpochStep s s' := by
  rcases autoAddNodes_cases h with rfl | ⟨name, c, arr, chunks, cluster, allProxies, hc, -, -, -, -,
    htag, rfl⟩
  · exact .refl _
  have hup := toNat_add_one hroom
  have hmem : name ∈ s.clusters := OrdMap.mem_of_get?_eq_some hc
  refine ⟨by dsimp only [bumpGlobalEpoch]; omega, fun n c' hc' => ?_,
    retag_of_get? (fun e he => ?_) (get?_tagProxies htag)⟩
  · dsimp only at hc' ⊢
    rw [OrdMap.get?_replace _ _ _ _ hmem] at hc' ⊢
    split at hc'
    · cases hc'
      exact .inr ⟨by dsimp only; omega, by dsimp only [bumpGlobalEpoch]; omega⟩
    · next hne => exact .inl (if_neg hne)
  · rw [stamp_some_eq ((OrdMap.get?_replace _ _ _ _ hmem).trans (if_pos rfl))] at he
    cases he
    dsimp only
    omega

theorem autoScaleUpNodes_epochStep (hroom : s.globalEpoch.toNat + 1 < 2 ^ 64)
    {clusterName : String} {num : Nat} {res : Except MetaStoreError (List Node)}
    (h : autoScaleUpNodes s clusterName num = some (s', res)) : EpochStep s s' := by
  unfold autoScaleUpNodes at h
  dsimp only at h
  repeat' split at h
  all_goals first
    | (cases h; exact .refl _)
    | exact autoAddNodes_epochStep hroom h

theorem autoDeleteFreeNodes_epochStep (hroom : s.globalEpoch.toNat + 1 < 2 ^ 64)
    {clusterName : String} {res : Except MetaStoreError Unit}
    (h : autoDeleteFreeNodes s clusterName = (s', res)) : EpochStep s s' := by
  rcases autoDeleteFreeNodes_cases h with rfl | ⟨name, c, hc, -, rfl⟩
  · exact .refl _
  have hup := toNat_add_one hroom
  have hmem : name ∈ s.clusters := OrdMap.mem_of_get?_eq_some hc
  refine ⟨by dsimp only [bumpGlobalEpoch]; omega, fun n c' hc' => ?_,
    retag_of_get? (fun e he => ?_) (get?_freeProxies _ _)⟩
  · dsimp only [bumpGlobalEpoch] at hc' ⊢
    rw [OrdMap.get?_replace _ _ _ _ hmem] at hc' ⊢
    split at hc'
    · cases hc'
      exact .inr ⟨by dsimp only; omega, by dsimp only; omega⟩
    · next hne => exact .inl (if_neg hne)
  · cases he
    dsimp only [bumpGlobalEpoch]
    omega

theorem autoDeleteFreeNodes_keepsProxies {clusterName : String} {res : Except MetaStoreError Unit}
    (h : autoDeleteFreeNodes s clusterName = (s', res)) : KeepsProxies s s' := by
  rcases autoDeleteFreeNodes_cases h with rfl | ⟨name, c, -, -, rfl⟩
  · exact .of_proxies_eq rfl
  · exact keepsProxies_of_get? (get?_freeProxies _ _)

theorem autoDeleteFreeNodes_globalEpoch_le {clusterName : String}
    {res : Except MetaStoreError Unit} (h : autoDeleteFreeNodes s clusterName = (s', res)) :
    s'.globalEpoch.toNat ≤ s.globalEpoch.toNat + 1 := by
  rcases autoDeleteFreeNodes_cases h with rfl | ⟨name, c, -, -, rfl⟩
  · omega
  · exact bumpGlobalEpoch_toNat_le _

theorem autoDeleteFreeNodesIfExists_epochStep (hroom : s.globalEpoch.toNat + 1 < 2 ^ 64)
    {clusterName : String} {res : Except MetaStoreError Unit}
    (h : autoDeleteFreeNodesIfExists s clusterName = (s', res)) : EpochStep s s' := by
  have hfst := autoDeleteFreeNodesIfExists_fst s clusterName
  rcases hd : autoDeleteFreeNodes s clusterName with ⟨s₂, r₂⟩
  rw [h, hd] at hfst
  obtain rfl : s' = s₂ := hfst
  exact autoDeleteFreeNodes_epochStep hroom hd

theorem addFailure_epochStep (hroom : s.globalEpoch.toNat + 1 < 2 ^ 64) (address reporterId : String)
    (now : Int) : EpochStep s (addFailure s address reporterId now).1 := by
  have hup := toNat_add_one hroom
  unfold addFailure
  dsimp only
  split
  · exact .refl _
  · exact .of_tables_eq (by dsimp only [bumpGlobalEpoch]; omega) rfl rfl

theorem getFailures_epochStep (now failureTtl : Int) (failureQuorum : UInt64) :
    EpochStep s (getFailures s now failureTtl failureQuorum).1 :=
  .of_tables_eq (Nat.le_refl _) rfl rfl

theorem replaceFailedProxy_epochStep (hroom : s.EpochRoom) {f : String} {migrationLimit : UInt64}
    {res : Except MetaStoreError (Option Proxy)}
    (h : replaceFailedProxy s f migrationLimit = some (s', res)) : EpochStep s s' := by
  rcases replaceFailedProxy_cases h with rfl | ⟨-, -, -, rfl⟩ |
    ⟨failed, name, t, tr, -, -, ht, hcases⟩
  · exact .refl _
  · exact .of_tables_eq (Nat.le_refl _) rfl rfl
  -- the takeover rewrites the cluster; what follows starts from its store
  have hre := takeoverMaster_restamp ht
  have hroom₁ : t.globalEpoch.toNat + 1 < 2 ^ 64 := by
    have := hre.globalEpoch_le
    unfold EpochRoom at hroom
    omega
  refine (hre.epochStep (by unfold EpochRoom at hroom; omega)).trans ?_ hre.keepsProxies
  rcases hcases with rfl | rfl | rfl | ⟨r, c, -, -, hc, rfl⟩
  · exact .refl _
  · exact .bump hroom₁
  · exact .of_tables_eq (Nat.le_refl _) rfl rfl
  -- the new proxy joins the cluster and the failed one leaves it, at the bumped epoch
  have hup := toNat_add_one hroom₁
  have hmem : name ∈ t.clusters := OrdMap.mem_of_get?_eq_some hc
  refine ⟨by dsimp only [bumpGlobalEpoch]; omega, fun n c' hc' => ?_, fun a r₀ r' hr₀ hr' => ?_⟩
  · dsimp only [bumpGlobalEpoch] at hc' ⊢
    rw [OrdMap.get?_replace _ _ _ _ hmem] at hc' ⊢
    split at hc'
    · cases hc'
      exact .inr ⟨by dsimp only; omega, by dsimp only; omega⟩
    · next hne => exact .inl (if_neg hne)
  · refine retag_modify (fun e he => ?_) (fun r₁ hr₁ => retag_modify (fun e he => ?_)
      (fun r₂ hr₂ => ?_) hr₁) hr'
    · rw [stamp_some_eq ((OrdMap.get?_replace _ _ _ _ hmem).trans (if_pos rfl))] at he
      cases he
      dsimp only
      omega
    · cases he
      dsimp only [bumpGlobalEpoch]
      omega
    · rw [hr₀] at hr₂
      cases hr₂
      exact Retag.refl _ _ _

end MetaStoreUpdate

namespace MetaStore

variable {s s' : MetaStore}

theorem commitMigration_epochStep (hroom : s.EpochRoom) {task : MigrationTaskMeta}
    {clearFreeNodes : Bool} {res : Except MetaStoreError Unit}
    (h : commitMigration s task clearFreeNodes = (s', res)) : EpochStep s s' := by
  unfold commitMigration at h
  rcases hc : MetaStoreMigrate.commitMigration s task with ⟨s₁, r₁⟩
  have hre := MetaStoreMigrate.commitMigration_restamp hc
  have h₁ := hre.epochStep (by unfold EpochRoom at hroom; omega)
  rw [hc] at h
  cases r₁ with
  | error e =>
      cases h
      exact h₁
  | ok u =>
      dsimp only at h
      cases clearFreeNodes
      · cases h
        exact h₁
      · -- the free chunks go after the commit, from its store
        have hroom₁ : s₁.globalEpoch.toNat + 1 < 2 ^ 64 := by
          have := hre.globalEpoch_le
          unfold EpochRoom at hroom
          omega
        exact h₁.trans (MetaStoreUpdate.autoDeleteFreeNodesIfExists_epochStep hroom₁ h)
          hre.keepsProxies

theorem scaleResult_store {name : ClusterName} {op : ScaleOp}
    {res : Except MetaStoreError (ScaleOp × List String × UInt64)}
    (h : scaleResult s name op = (s', res)) : s' = s := by
  unfold scaleResult at h
  split at h <;> cases h <;> rfl

theorem scaleNodeNumber_epochStep (hroom : s.globalEpoch.toNat + 1 < 2 ^ 64) {name : ClusterName}
    {clusterName : String} {expectedNum : Nat}
    {res : Except MetaStoreError (ScaleOp × List String × UInt64)}
    (h : scaleNodeNumber s name clusterName expectedNum = some (s', res)) : EpochStep s s' := by
  unfold scaleNodeNumber at h
  dsimp only at h
  split at h
  · cases h
    exact .refl _
  split at h
  · rw [scaleResult_store (Option.some.inj h)]
    exact .refl _
  split at h
  · split at h
    · cases h
    · next s₁ e hup =>
        cases h
        exact MetaStoreUpdate.autoScaleUpNodes_epochStep hroom hup
    · next s₁ _ hup =>
        rw [scaleResult_store (Option.some.inj h)]
        exact MetaStoreUpdate.autoScaleUpNodes_epochStep hroom hup
  · split at h
    · cases h
    · next s₁ e hdown =>
        cases h
        exact (MetaStoreMigrate.migrateSlotsToScaleDown_restamp hdown).epochStep hroom
    · next s₁ hdown =>
        rw [scaleResult_store (Option.some.inj h)]
        exact (MetaStoreMigrate.migrateSlotsToScaleDown_restamp hdown).epochStep hroom

theorem autoChangeNodeNumber_epochStep (hroom : s.EpochRoom) {clusterName : String}
    {expectedNum : Nat} {res : Except MetaStoreError (ScaleOp × List String × UInt64)}
    (h : autoChangeNodeNumber s clusterName expectedNum = some (s', res)) : EpochStep s s' := by
  have hroom₀ : s.globalEpoch.toNat + 1 < 2 ^ 64 := by
    unfold EpochRoom at hroom
    omega
  -- scaling starts from the store that dropping the free chunks left
  have hscale : ∀ {s₁ : MetaStore} {r₁ : Except MetaStoreError Unit} {name : ClusterName},
      MetaStoreUpdate.autoDeleteFreeNodes s clusterName = (s₁, r₁) →
      scaleNodeNumber s₁ name clusterName expectedNum = some (s', res) → EpochStep s s' := by
    intro s₁ r₁ name hd hn
    have hroom₁ : s₁.globalEpoch.toNat + 1 < 2 ^ 64 := by
      have := MetaStoreUpdate.autoDeleteFreeNodes_globalEpoch_le hd
      unfold EpochRoom at hroom
      omega
    exact (MetaStoreUpdate.autoDeleteFreeNodes_epochStep hroom₀ hd).trans
      (scaleNodeNumber_epochStep hroom₁ hn) (MetaStoreUpdate.autoDeleteFreeNodes_keepsProxies hd)
  unfold autoChangeNodeNumber at h
  repeat' split at h
  all_goals first
    | (cases h; exact .refl _)
    | skip
  · rename_i hd _
    cases h
    exact MetaStoreUpdate.autoDeleteFreeNodes_epochStep hroom₀ hd
  · rename_i hd _
    exact hscale hd h
  · rename_i hd
    exact hscale hd h

theorem autoScaleOutNodeNumber_epochStep (hroom : s.globalEpoch.toNat + 1 < 2 ^ 64)
    {clusterName : String} {expectedNum : Nat} {res : Except MetaStoreError Unit}
    (h : autoScaleOutNodeNumber s clusterName expectedNum = some (s', res)) : EpochStep s s' := by
  unfold autoScaleOutNodeNumber at h
  repeat' split at h
  all_goals first
    | (cases h; exact .refl _)
    | exact (MetaStoreMigrate.migrateSlots_restamp h).epochStep hroom

theorem forceBumpAllEpoch_epochStep (newEpoch : UInt64) :
    EpochStep s (s.forceBumpAllEpoch newEpoch).1 := by
  unfold forceBumpAllEpoch
  split
  · exact .refl _
  · next hle =>
      -- every cluster takes the new epoch, which is above the old one
      have hlt : s.globalEpoch.toNat < newEpoch.toNat := by
        have : ¬newEpoch.toNat ≤ s.globalEpoch.toNat := fun h' => hle (UInt64.le_iff_toNat_le.mpr h')
        omega
      refine .of_proxies_eq hlt.le rfl fun n c' hc' => ?_
      dsimp only [setAllClusterEpochs] at hc'
      rw [OrdMap.get?_mapValues] at hc'
      obtain ⟨c, -, rfl⟩ := Option.map_eq_some_iff.mp hc'
      exact .inr ⟨hlt, Nat.le_refl _⟩

theorem recoverEpoch_epochStep (hroom : s.globalEpoch.toNat + 1 < 2 ^ 64) (e : UInt64) :
    EpochStep s (s.recoverEpoch e) := by
  have hup := toNat_add_one hroom
  have hlt : s.globalEpoch.toNat < (max e (s.globalEpoch + 1)).toNat := by
    rw [UInt64.toNat_max]
    omega
  refine .of_proxies_eq hlt.le rfl fun n c' hc' => ?_
  dsimp only [recoverEpoch, setAllClusterEpochs] at hc'
  rw [OrdMap.get?_mapValues] at hc'
  obtain ⟨c, -, rfl⟩ := Option.map_eq_some_iff.mp hc'
  exact .inr ⟨hlt, Nat.le_refl _⟩

end MetaStore

namespace Op

variable {cfg : ServiceConfig} {s s' : MetaStore}

open MetaStore in
/-- Every call is an epoch step, given room for its bumps. -/
theorem apply_epochStep (hroom : s.EpochRoom) {op : Op} (h : op.apply cfg s = some s') :
    EpochStep s s' := by
  have hroom₀ : s.globalEpoch.toNat + 1 < 2 ^ 64 := by
    unfold EpochRoom at hroom
    omega
  cases op <;> simp only [apply] at h
  -- the calls that move proxies
  case addProxy =>
    cases h
    exact of_fst fun _ _ => MetaStoreUpdate.addProxy_epochStep hroom₀
  case addCluster =>
    exact of_map_fst (fun _ _ => MetaStoreUpdate.addCluster_epochStep hroom₀) h
  case removeCluster =>
    cases h
    exact of_fst fun _ _ => MetaStoreUpdate.removeCluster_epochStep hroom₀
  case autoAddNodes =>
    exact of_map_fst (fun _ _ => MetaStoreUpdate.autoAddNodes_epochStep hroom₀) h
  case autoScaleUpNodes =>
    exact of_map_fst (fun _ _ => MetaStoreUpdate.autoScaleUpNodes_epochStep hroom₀) h
  case autoDeleteFreeNodes =>
    cases h
    exact of_fst fun _ _ => MetaStoreUpdate.autoDeleteFreeNodes_epochStep hroom₀
  case removeProxy =>
    cases h
    exact of_fst fun _ _ => MetaStoreUpdate.removeProxy_epochStep hroom₀
  case replaceFailedProxy =>
    exact of_map_fst (fun _ _ => MetaStoreUpdate.replaceFailedProxy_epochStep hroom) h
  case autoChangeNodeNumber =>
    exact of_map_fst (fun _ _ => MetaStore.autoChangeNodeNumber_epochStep hroom) h
  case commitMigration =>
    cases h
    exact of_fst fun _ _ => MetaStore.commitMigration_epochStep hroom
  -- the calls that rewrite one cluster
  case changeConfig =>
    cases h
    exact of_fst fun _ _ hp => (MetaStoreUpdate.changeConfig_restamp hp).epochStep hroom₀
  case balanceMasters =>
    cases h
    exact of_fst fun _ _ hp => (MetaStoreUpdate.balanceMasters_restamp hp).epochStep hroom₀
  case migrateSlots =>
    exact of_map_fst (fun _ _ hp => (MetaStoreMigrate.migrateSlots_restamp hp).epochStep hroom₀) h
  case migrateSlotsToScaleDown =>
    exact of_map_fst
      (fun _ _ hp => (MetaStoreMigrate.migrateSlotsToScaleDown_restamp hp).epochStep hroom₀) h
  case autoScaleOutNodeNumber =>
    exact of_map_fst (fun _ _ => MetaStore.autoScaleOutNodeNumber_epochStep hroom₀) h
  -- the calls that touch epochs or failures only
  case getFailures =>
    cases h
    exact MetaStoreUpdate.getFailures_epochStep _ _ _
  case addFailure =>
    cases h
    exact MetaStoreUpdate.addFailure_epochStep hroom₀ _ _ _
  case forceBumpAllEpoch =>
    cases h
    exact MetaStore.forceBumpAllEpoch_epochStep _
  case recoverEpoch =>
    cases h
    exact MetaStore.recoverEpoch_epochStep hroom₀ _

end Op

/-- The stores the broker reaches by runs in which every call starts with room
for its bumps. -/
def ReachableWithRoom (cfg : ServiceConfig) (b : Bool) (s : MetaStore) : Prop :=
  Machine.Reachable (Machine.guarded MetaStore.EpochRoom (Op.apply cfg)) (MetaStore.new b) s

namespace ReachableWithRoom

variable {cfg : ServiceConfig} {b : Bool} {s : MetaStore}

theorem reachable (h : ReachableWithRoom cfg b s) : Reachable cfg b s :=
  Machine.Reachable.of_guarded h

theorem epochsBounded (h : ReachableWithRoom cfg b s) : s.EpochsBounded :=
  Machine.Reachable.invariant_guarded _ (MetaStore.epochsBounded_new b)
    (fun _ _ _ hroom hb hstep => (Op.apply_epochStep hroom hstep).bounded hb) h

end ReachableWithRoom

/-- `force_bump_all_epoch(u64::MAX)` is accepted from the start, and the next
bump, here by `add_proxy`, wraps the global epoch to zero. -/
theorem forceBump_max_wraps :
    Reachable (ServiceConfig.default id) false
      ((MetaStore.new false).forceBumpAllEpoch 18446744073709551615).1 ∧
    ∃ s', Op.apply (ServiceConfig.default id) (.addProxy "a:1" ![ "a:6000", "a:6001"] none none)
        ((MetaStore.new false).forceBumpAllEpoch 18446744073709551615).1 = some s' ∧
      s'.globalEpoch < ((MetaStore.new false).forceBumpAllEpoch 18446744073709551615).1.globalEpoch :=
  ⟨.step (.forceBumpAllEpoch 18446744073709551615) .init rfl, _, rfl, by decide⟩

end Undermoon
