import Undermoon.Broker.Migrate
import Undermoon.Lib.Machine

/-!
# The broker as a machine

`broker/service.rs` and `broker/storage.rs`: every HTTP call of the memory
broker that writes the store takes the store's write lock and runs one
`MetaStore` method on it, which writes in place; an error returns after the
writes made before it, and nothing is rolled back. The broker is therefore
the machine whose operations are those calls and whose state is the store,
started from `MetaStore::new`.

The service supplies some arguments from its configuration
(`ServiceConfig`): the default cluster config, the migration limit, and the
failure time to live and quorum. `commit_migration` is reached with
`clear_free_nodes` both ways here, which covers the service's `false`.
`auto_scale_node_number` is the two calls `auto_change_node_number` and
`auto_scale_out_node_number` with a wait in between, here two operations.
`restore_metadata` replaces the store by one from outside and is not an
operation of this machine.
-/

namespace Undermoon

/-- What the service passes to the store: `default_cluster_config`, and
`migration_limit`, `failure_ttl` (seconds) and `failure_quorum` of
`MemBrokerConfig`; and the Unicode lowercase map `set_field` reads keys
through. -/
structure ServiceConfig where
  defaultClusterConfig : ClusterConfig
  migrationLimit : UInt64
  failureTtl : Int
  failureQuorum : UInt64
  toLowercase : String → String

/-- The service's defaults when its config file gives none (`mem_broker.rs`:
`failure_ttl` 60, `failure_quorum` 1, `migration_limit` 1), with the default
cluster config. -/
def ServiceConfig.default (toLowercase : String → String) : ServiceConfig :=
  ⟨ClusterConfig.default, 1, 60, 1, toLowercase⟩

/-- The store-writing calls of `MemBrokerService`. `now` is the wall clock
of the calls that read it. -/
inductive Op where
  | addProxy (proxyAddress : String) (nodes : Fin 2 → String) (host : Option String)
      (index : Option Nat)
  | addCluster (clusterName : String) (nodeNum : Nat)
  | removeCluster (clusterName : String)
  | autoAddNodes (clusterName : String) (nodeNum : Nat)
  | autoScaleUpNodes (clusterName : String) (clusterNodeNum : Nat)
  | autoDeleteFreeNodes (clusterName : String)
  | changeConfig (clusterName : String) (config : List (String × String))
  | balanceMasters (clusterName : String)
  | removeProxy (proxyAddress : String)
  | migrateSlots (clusterName : String)
  | migrateSlotsToScaleDown (clusterName : String) (newNodeNum : Nat)
  | autoChangeNodeNumber (clusterName : String) (expectedNum : Nat)
  | autoScaleOutNodeNumber (clusterName : String) (expectedNum : Nat)
  | getFailures (now : Int)
  | addFailure (address reporterId : String) (now : Int)
  | commitMigration (task : MigrationTaskMeta) (clearFreeNodes : Bool)
  | replaceFailedProxy (failedProxyAddress : String)
  | forceBumpAllEpoch (newEpoch : UInt64)
  | recoverEpoch (maxEpoch : UInt64)

namespace Op

/-- The store after the call, `none` if it panics. `recover_epoch` hands the
store the proxies' largest epoch plus one, and the storage adds one more. -/
def apply (cfg : ServiceConfig) : Op → MetaStore → Option MetaStore
  | addProxy a nodes host index, s => some (MetaStoreUpdate.addProxy s a nodes host index).1
  | addCluster name n, s =>
      (MetaStoreUpdate.addCluster s name n cfg.defaultClusterConfig).map (·.1)
  | removeCluster name, s => some (MetaStoreUpdate.removeCluster s name).1
  | autoAddNodes name n, s => (MetaStoreUpdate.autoAddNodes s name n).map (·.1)
  | autoScaleUpNodes name n, s => (MetaStoreUpdate.autoScaleUpNodes s name n).map (·.1)
  | autoDeleteFreeNodes name, s => some (MetaStoreUpdate.autoDeleteFreeNodes s name).1
  | changeConfig name config, s =>
      some (MetaStoreUpdate.changeConfig cfg.toLowercase s name config).1
  | balanceMasters name, s => some (MetaStoreUpdate.balanceMasters s name).1
  | removeProxy a, s => some (MetaStoreUpdate.removeProxy s a).1
  | migrateSlots name, s => (MetaStoreMigrate.migrateSlots s name).map (·.1)
  | migrateSlotsToScaleDown name n, s =>
      (MetaStoreMigrate.migrateSlotsToScaleDown s name n).map (·.1)
  | autoChangeNodeNumber name n, s => (MetaStore.autoChangeNodeNumber s name n).map (·.1)
  | autoScaleOutNodeNumber name n, s => (MetaStore.autoScaleOutNodeNumber s name n).map (·.1)
  | getFailures now, s =>
      some (MetaStoreUpdate.getFailures s now cfg.failureTtl cfg.failureQuorum).1
  | addFailure a reporter now, s => some (MetaStoreUpdate.addFailure s a reporter now).1
  | commitMigration task clear, s => some (MetaStore.commitMigration s task clear).1
  | replaceFailedProxy a, s => (MetaStoreUpdate.replaceFailedProxy s a cfg.migrationLimit).map (·.1)
  | forceBumpAllEpoch e, s => some (s.forceBumpAllEpoch e).1
  | recoverEpoch maxEpoch, s => some (s.recoverEpoch (maxEpoch + 1 + 1))

/-- Only `change_config` reads the lowercase map. -/
def readsLowercase : Op → Bool
  | changeConfig .. => true
  | _ => false

theorem apply_toLowercase (cfg : ServiceConfig) (g : String → String) {op : Op}
    (h : op.readsLowercase = false) : apply { cfg with toLowercase := g } op = apply cfg op := by
  cases op <;> first | rfl | cases h

end Op

/-- A run that never changes a config does not depend on the lowercase map. -/
theorem run_toLowercase (cfg : ServiceConfig) (g : String → String) {ops : List Op}
    (h : ∀ op ∈ ops, op.readsLowercase = false) (s : MetaStore) :
    Machine.run (Op.apply { cfg with toLowercase := g }) ops s = Machine.run (Op.apply cfg) ops s := by
  induction ops generalizing s with
  | nil => rfl
  | cons op ops ih =>
      rw [Machine.run_cons, Machine.run_cons,
        Op.apply_toLowercase cfg g (h op List.mem_cons_self)]
      cases Op.apply cfg op s with
      | none => rfl
      | some s' => exact ih (fun op hop => h op (List.mem_cons_of_mem _ hop)) s'

/-- The stores the broker reaches from `MetaStore::new`. -/
def Reachable (cfg : ServiceConfig) (enableOrderedProxy : Bool) (s : MetaStore) : Prop :=
  Machine.Reachable (Op.apply cfg) (MetaStore.new enableOrderedProxy) s

end Undermoon
