import Undermoon.Common.Range

/-!
# Cluster configuration

`ClusterConfig` of `common/config.rs`: a compression strategy and the four
migration knobs, set one string pair at a time by `set_field` and printed
back by `to_str_map`.

`set_field` lower-cases its inputs with Rust's `str::to_lowercase`, which
follows the Unicode case tables; the model takes that function as the
parameter `toLowercase` rather than inventing the tables. Only its values on
the ASCII field names and values below matter to any result proved here.
`str::parse::<u64>` is the standard library's and is written out as
`parseU64`, following its documented grammar.
-/

namespace Undermoon

/-- `CompressionStrategy`. -/
inductive CompressionStrategy where
  | disabled
  | setGetOnly
  | allowAll
deriving DecidableEq, Repr

namespace CompressionStrategy

/-- `CompressionStrategy::to_str`. -/
def toStr : CompressionStrategy → String
  | .disabled => "disabled"
  | .setGetOnly => "set_get_only"
  | .allowAll => "allow_all"

end CompressionStrategy

/-- `MigrationConfig`. -/
structure MigrationConfig where
  maxMigrationTime : UInt64
  maxBlockingTime : UInt64
  scanInterval : UInt64
  scanCount : UInt64
deriving DecidableEq, Repr

/-- `MigrationConfig::default()`. -/
def MigrationConfig.default : MigrationConfig :=
  { maxMigrationTime := 3 * 60 * 60, maxBlockingTime := 10000, scanInterval := 500,
    scanCount := 16 }

/-- `ClusterConfig`. -/
structure ClusterConfig where
  compressionStrategy : CompressionStrategy
  migrationConfig : MigrationConfig
deriving DecidableEq, Repr

/-- `ClusterConfig::default()`. -/
def ClusterConfig.default : ClusterConfig := ⟨.disabled, MigrationConfig.default⟩

/-- `ConfigError`. -/
inductive ConfigError where
  | readonlyField
  | fieldNotFound
  | invalidValue
  | forbidden
deriving DecidableEq, Repr

/-- `ConfigError::to_string`. -/
def ConfigError.toString : ConfigError → String
  | .readonlyField => "READONLY_FIELD"
  | .fieldNotFound => "FIELD_NOT_FOUND"
  | .invalidValue => "INVALID_VALUE"
  | .forbidden => "FORBIDDEN"

/-- The digits of a decimal numeral, most significant first. -/
def parseDigits : List Char → Nat → Option Nat
  | [], acc => some acc
  | c :: cs, acc => if c.isDigit then parseDigits cs (10 * acc + (c.toNat - '0'.toNat)) else none

/-- `str::parse::<u64>`: an optional `+`, then at least one ASCII digit, and a
value that fits in 64 bits. -/
def parseU64 (s : String) : Option UInt64 :=
  let digits := match s.toList with
    | '+' :: rest => rest
    | cs => cs
  if digits.isEmpty then none
  else match parseDigits digits 0 with
    | some n => if n < UInt64.size then some (UInt64.ofNat n) else none
    | none => none

section

variable (toLowercase : String → String)

/-- `CompressionStrategy::from_str`. -/
def CompressionStrategy.fromStr (s : String) : Option CompressionStrategy :=
  match toLowercase s with
  | "disabled" => some .disabled
  | "set_get_only" => some .setGetOnly
  | "allow_all" => some .allowAll
  | _ => none

/-- `MigrationConfig::set_field`; a zero `scan_count` is refused. -/
def MigrationConfig.setField (c : MigrationConfig) (field value : String) :
    Except ConfigError MigrationConfig :=
  match toLowercase field with
  | "max_migration_time" =>
      match parseU64 value with
      | some v => .ok { c with maxMigrationTime := v }
      | none => .error .invalidValue
  | "max_blocking_time" =>
      match parseU64 value with
      | some v => .ok { c with maxBlockingTime := v }
      | none => .error .invalidValue
  | "scan_interval" =>
      match parseU64 value with
      | some v => .ok { c with scanInterval := v }
      | none => .error .invalidValue
  | "scan_count" =>
      match parseU64 value with
      | some v => if v = 0 then .error .invalidValue else .ok { c with scanCount := v }
      | none => .error .invalidValue
  | _ => .error .fieldNotFound

/-- `ClusterConfig::set_field`: `compression_strategy` directly, any other
`migration_` field by the rest of its name (`splitn(2, '_').nth(1)`). -/
def ClusterConfig.setField (c : ClusterConfig) (field value : String) :
    Except ConfigError ClusterConfig :=
  let field := toLowercase field
  if field = "compression_strategy" then
    match CompressionStrategy.fromStr toLowercase value with
    | some strategy => .ok { c with compressionStrategy := strategy }
    | none => .error .invalidValue
  else if field.startsWith "migration_" then
    let f := (field.drop ("migration".length + 1)).toString
    match c.migrationConfig.setField toLowercase f value with
    | .ok m => .ok { c with migrationConfig := m }
    | .error e => .error e
  else .error .fieldNotFound

end

/-- `ClusterConfig::to_str_map`, in the order of the vector it is collected
from; the `HashMap` it becomes has an order of its own. -/
def ClusterConfig.toStrMap (c : ClusterConfig) : List (String × String) :=
  [("compression_strategy", c.compressionStrategy.toStr),
   ("migration_max_migration_time", toString c.migrationConfig.maxMigrationTime),
   ("migration_max_blocking_time", toString c.migrationConfig.maxBlockingTime),
   ("migration_scan_interval", toString c.migrationConfig.scanInterval),
   ("migration_scan_count", toString c.migrationConfig.scanCount)]

end Undermoon
