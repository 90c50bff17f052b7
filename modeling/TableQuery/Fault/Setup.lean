/-!
# Faults of a setup

Every way in which a catalog, an access policy, a registry of stages or a configuration fails to
be one. A document that is not even of the right form has a fault without particulars.
-/

namespace TableQuery

/-- A part that an engine cannot be built without. -/
inductive EnginePart where
  | catalog
  | whitelist
  | source
deriving DecidableEq, Repr

/-- What is wrong with a setup. -/
inductive SetupFault where
  -- documents
  | malformed
  | notAnObject
  -- names, columns and tables
  | emptyName
  | badFirstCharacter (name : String)
  | badCharacter (name : String)
  | repeatedColumn (column : String)
  | repeatedColumnOf (table column : String)
  | unknownIdColumn (column : String)
  | unknownIdColumnOf (table column : String)
  | noColumns (table : String)
  | repeatedTable (name : String)
  | unpairedKeys (source target : String)
  -- access
  | badPolicy (table marker : String)
  -- stages
  | repeatedStage (key : String)
  -- engines
  | zeroLifetime
  | missingPart (part : EnginePart)
deriving DecidableEq, Repr

/-- The words for a missing part. -/
def EnginePart.title : EnginePart → String
  | catalog => "a catalog"
  | whitelist => "a whitelist"
  | source => "a row source"

/-- What the fault says. -/
def SetupFault.message : SetupFault → String
  | malformed => "malformed document"
  | notAnObject => "engine configuration must be a JSON object"
  | emptyName => "Name cannot be empty"
  | badFirstCharacter name => s!"Name must start with letter or underscore: {name}"
  | badCharacter name => s!"Name contains invalid characters: {name}"
  | repeatedColumn column => s!"Column already exists: {column}"
  | repeatedColumnOf table column => s!"Column already exists: {table}.{column}"
  | unknownIdColumn column => s!"Column not found: {column}"
  | unknownIdColumnOf table column => s!"Id column {column} not found in table {table}"
  | noColumns table => s!"Table {table} must have at least one column"
  | repeatedTable name => s!"Table already exists: {name}"
  | unpairedKeys source target =>
    s!"Relation {source} -> {target} must pair key columns one to one"
  | badPolicy table marker => s!"whitelist: table {table} has invalid policy '{marker}'"
  | repeatedStage key => s!"function {key} is already registered"
  | zeroLifetime => "cache_ttl_secs must be positive while the cache is enabled"
  | missingPart part => s!"engine requires {part.title}"

end TableQuery
