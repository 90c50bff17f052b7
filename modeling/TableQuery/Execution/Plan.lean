import TableQuery.Access.Whitelist
import TableQuery.Query.Statement
import TableQuery.Schema.Catalog

/-!
# Planning a statement

A statement takes its rows from one table, that of its first atom; atoms of other tables accept no
row. Of that table it needs some columns: the one that identifies a row, those it projects, those
its atoms name, and the keys of its relations. A condition on every column, or a projection of
whole rows, needs all of them.
-/

namespace TableQuery

/-- The columns a statement needs, in the order of the table, and whether it asks for all. -/
structure RequiredColumns where
  names : List String
  all : Bool
deriving DecidableEq, Repr

namespace Statement

/-- The table that the rows are taken from. -/
def targetTable (s : Statement) : Except Error String :=
  match s.expression.firstTable? with
  | some table => .ok table
  | none => .error .noTable

/-- The atoms on the rows of a table. -/
def atomsOn (s : Statement) (table : String) : List Atom :=
  s.expression.atoms.filter fun a => a.table? == some table

end Statement

namespace Projection

/-- The columns that a projection names. -/
def columnNames : Projection → List String
  | column name => [name]
  | columns names => names
  | identity | all => []

end Projection

namespace Atom

/-- The columns that an atom names. -/
def columnNames : Atom → List String
  | condition _ (some names) _ => names
  | _ => []

/-- The columns of its own table that an atom joins by. -/
def keyColumns (catalog : Catalog) : Atom → List String
  | relation direction source target =>
    ((catalog.path? direction source target).map RelationPath.localKeys).getD []
  | _ => []

/-- An atom that tests every column. -/
def testsAllColumns : Atom → Bool
  | condition _ none _ => true
  | _ => false

end Atom

namespace Statement

/-- The columns that a statement names, in the order in which they are looked up. -/
def namedColumns (s : Statement) (catalog : Catalog) (t : Table) : List String :=
  t.idColumn :: s.projection.columnNames ++
    (s.atomsOn t.name).flatMap Atom.columnNames ++
    (s.atomsOn t.name).flatMap (Atom.keyColumns catalog)

/-- The statement needs every column. -/
def needsAllColumns (s : Statement) (t : Table) : Bool :=
  s.projection == .all || (s.atomsOn t.name).any Atom.testsAllColumns

/-- The columns that a statement needs of its table; those it names have to exist. -/
def requiredColumns (s : Statement) (catalog : Catalog) (t : Table) :
    Except Error RequiredColumns :=
  let named := s.namedColumns catalog t
  match named.find? fun name => (t.column? name).isNone with
  | some name => .error (.unknownColumn t.name name)
  | none =>
    let all := s.needsAllColumns t
    .ok ⟨t.columnNames.filter fun name => all || named.contains name, all⟩

end Statement

end TableQuery
