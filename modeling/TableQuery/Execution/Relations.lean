import TableQuery.Execution.Fetching
import TableQuery.Execution.Plan

/-!
# Looking relations up

Whether a row has a related row is settled for all rows at once, before any of them is tested. The
distinct key tuples of the rows go to the remote table in one request per relation, and the tuples
of the rows that come back are those for which a related row exists. The number of requests thus
does not depend on the number of rows.

A tuple is compared by the keys of its cells, joined by the unit separator; a tuple with a cell
that is missing or null matches nothing.
-/

namespace TableQuery

/-- What stands between the keys of a tuple. -/
def tupleSeparator : String := "\u001f"

/-- The keys of the cells under the given names, unless one of them is missing or null. -/
def cellKeys? (row : Row) : List String → Option (List String)
  | [] => some []
  | name :: rest => do
    let cell ← (row.get? name).filter fun v => !v.isNull
    return cell.key :: (← cellKeys? row rest)

/-- The key of a tuple of cells, unless one of them is missing or null. -/
def tupleKey? (row : Row) (names : List String) : Option String :=
  (cellKeys? row names).map tupleSeparator.intercalate

/-- What is known about a relation: it is not declared, or the tuples for which a related row
exists are these. -/
inductive RelationCheck where
  | undeclared
  | known (localKeys : List String) (existing : List String)
deriving DecidableEq, Repr

/-- The row has a related row. -/
def RelationCheck.accepts (check : RelationCheck) (row : Row) : Bool :=
  match check with
  | undeclared => false
  | known localKeys existing => (tupleKey? row localKeys).any existing.contains

/-- The relations of a statement that have been looked up. -/
abbrev RelationChecks := List ((Direction × String × String) × RelationCheck)

/-- The catalog and the access policy that a statement runs under. -/
structure Scope where
  catalog : Catalog
  whitelist : Whitelist
  allowed : Option (List String)

namespace RelationPath

/-- A tuple as a test of the remote table. -/
def tupleFilter (path : RelationPath) (row : Row) : StorageFilter :=
  StorageFilter.conj (List.zipWith
    (fun remote name => .eq remote ((row.get? name).getD .null)) path.remoteKeys path.localKeys)

/-- The rows whose tuples are to be looked up, one of each kind. -/
def probes (path : RelationPath) (rows : List Row) : List Row :=
  Json.firstBy (fun row => tupleKey? row path.localKeys) []
    (rows.filter fun row => (tupleKey? row path.localKeys).isSome)

/-- The request that looks the tuples of some rows up. -/
def lookup (path : RelationPath) (probes : List Row) : FetchCall :=
  ⟨path.remoteTable, path.remoteKeys,
    some (StorageFilter.disj (probes.map path.tupleFilter))⟩

end RelationPath

/-- Looks one relation up for the rows of a table. -/
def resolveRelation (scope : Scope) (rows : List Row) (direction : Direction)
    (source target : String) : Fetching RelationCheck :=
  match scope.catalog.path? direction source target with
  | none => return .undeclared
  | some path => do
    scope.whitelist.checkColumns path.remoteTable path.remoteKeys
    checkAllowed path.remoteTable scope.allowed
    let probes := path.probes rows
    if probes.isEmpty then return .known path.localKeys []
    else
      let remote ← Fetching.request (path.lookup probes)
      return .known path.localKeys (remote.filterMap fun row => tupleKey? row path.remoteKeys)

/-- Looks up, from left to right, every relation among the atoms that starts at the table, each of
them once. -/
def resolveRelations (scope : Scope) (table : String) (rows : List Row) :
    List Atom → RelationChecks → Fetching RelationChecks
  | [], checks => return checks
  | .relation direction source target :: rest, checks =>
    if source == table && (checks.lookup (direction, source, target)).isNone then do
      let check ← resolveRelation scope rows direction source target
      resolveRelations scope table rows rest (checks ++ [((direction, source, target), check)])
    else resolveRelations scope table rows rest checks
  | _ :: rest, checks => resolveRelations scope table rows rest checks

end TableQuery
