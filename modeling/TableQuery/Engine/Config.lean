import TableQuery.Execution.Runner
import TableQuery.Json.Record

/-!
# Configurations of an engine

Whether an engine has a cache, how long it keeps results, and how it runs batches. A configuration
can be written as a document. Every field of it has a default, and a field that is not known is an
error, so that a misspelled one does not go unnoticed. Results that live for no time at all are no
cache, and such a configuration is refused.
-/

namespace TableQuery

/-- The choices made when an engine is built. -/
structure EngineConfig where
  hasCache : Bool := true
  /-- How long results are kept, in seconds. -/
  lifetime : Nat := 300
  options : RunOptions := {}
deriving DecidableEq, Repr

namespace EngineConfig

/-- How long results are kept, in milliseconds. -/
def lifetimeMillis (c : EngineConfig) : Nat :=
  1000 * c.lifetime

/-- The configuration makes sense. -/
def check (c : EngineConfig) : Except Error Unit :=
  if c.hasCache && c.lifetime == 0 then .error (.setup .zeroLifetime) else .ok ()

/-- The names of the fields of a document. -/
def fieldNames : List String :=
  ["cache_enabled", "cache_ttl_secs", "statement_errors", "all_matches_empty_variable"]

/-- The configuration of the fields of an object. -/
def ofFields? (given : Row) : Option EngineConfig := do
  let [cache, lifetime, policy, empty] ← Record.closedFields? fieldNames given | none
  let cache ← Record.withDefault? Json.bool? true cache
  let lifetime ← Record.withDefault? Record.nat64? 300 lifetime
  let policy ← Record.withDefault?
    (fun v => (Record.wordValue? v).bind ErrorPolicy.ofName?) .failFast policy
  let empty ← Record.withDefault? Json.bool? false empty
  return ⟨cache, lifetime, ⟨policy, empty⟩⟩

/-- The configuration as a document. -/
def toJson (c : EngineConfig) : Json :=
  .obj [("cache_enabled", .bool c.hasCache), ("cache_ttl_secs", Json.ofNat c.lifetime),
    ("statement_errors", .str c.options.statementErrors.name),
    ("all_matches_empty_variable", .bool c.options.emptyMeansAll)]

/-- Reads a configuration and checks it. A field that is given twice has its last value. -/
def read (text : String) : Except Error EngineConfig := do
  match Json.read? text with
  | some (.obj fields) =>
    match ofFields? fields with
    | some c =>
      c.check
      return c
    | none => .error (.setup .malformed)
  | some _ => .error (.setup .notAnObject)
  | none => .error (.setup .malformed)

end EngineConfig

end TableQuery
