import DocStore.Assoc
import DocStore.Expr.Eval

/-!
# Settings

Settings of a store and of an SQLite connection, as JSON or from environment
variables. A variable that is not set, or not written as its setting asks for,
leaves the default.
-/

set_option autoImplicit false

namespace DocStore

/-- The variables of an environment. -/
abbrev Environment := String → Option String

structure StoreConfig where
  /-- Put before every table name. -/
  tablePrefix : String
  /-- Share identical queries in flight within a session. -/
  coalesceQueries : Bool
  /-- Guard updates of documents with the version the session read. -/
  checkConcurrency : Bool
deriving DecidableEq

/-- Options of an SQLite connection. -/
structure SqliteOptions where
  busyTimeoutMs : Nat
  journalMode : String
  foreignKeys : Bool
deriving DecidableEq

namespace Environment

/-- A truth value is written `true` or `false`. -/
def bool? (env : Environment) (name : String) : Option Bool :=
  match env name with
  | some "true" => some true
  | some "false" => some false
  | _ => none

/-- An unsigned 64-bit number in decimal digits, with a plus sign or none. -/
def nat64? (env : Environment) (name : String) : Option Nat := do
  let text ← env name
  let digits := match text.toList with
    | '+' :: cs => cs
    | cs => cs
  guard (digits ≠ [] ∧ digits.all Char.isDigit)
  let n := Double.digitsValue digits
  guard (n < UInt64.size)
  pure n

end Environment

namespace StoreConfig

def default : StoreConfig := ⟨"", true, true⟩

/-- A member of the settings: absent ones keep the default, others must have the right type. -/
def member? {α : Type} (read? : Json → Option α) (default : α) : Option Json → Option α
  | none => some default
  | some json => read? json

/-- Reads settings from an object, in which unknown members are ignored, or from
a list of the settings in their order. -/
def ofJson? (json : Json) : Option StoreConfig := do
  let (first, second, third) ← match json with
    | .obj _ =>
      some (json.field? "table_prefix", json.field? "coalesce_queries",
        json.field? "check_concurrency")
    | .arr items => if items.length ≤ 3 then some (items[0]?, items[1]?, items[2]?) else none
    | _ => none
  let tablePrefix ← member? Json.string? default.tablePrefix first
  let coalesceQueries ← member? Json.bool? default.coalesceQueries second
  let checkConcurrency ← member? Json.bool? default.checkConcurrency third
  pure ⟨tablePrefix, coalesceQueries, checkConcurrency⟩

def ofEnvironment (env : Environment) : StoreConfig where
  tablePrefix := (env "DOCKET_TABLE_PREFIX").getD default.tablePrefix
  coalesceQueries := (env.bool? "DOCKET_COALESCE_QUERIES").getD default.coalesceQueries
  checkConcurrency := (env.bool? "DOCKET_CHECK_CONCURRENCY").getD default.checkConcurrency

end StoreConfig

namespace SqliteOptions

def default : SqliteOptions := ⟨5000, "WAL", true⟩

def ofEnvironment (env : Environment) : SqliteOptions where
  busyTimeoutMs := (env.nat64? "DOCKET_SQLITE_BUSY_TIMEOUT_MS").getD default.busyTimeoutMs
  journalMode := (env "DOCKET_SQLITE_JOURNAL_MODE").getD default.journalMode
  foreignKeys := default.foreignKeys

end SqliteOptions

end DocStore
