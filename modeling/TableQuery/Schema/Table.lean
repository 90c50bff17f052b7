import TableQuery.Error
import TableQuery.Schema.ColumnType

/-!
# Tables

A table is a name and its columns in the order of their declaration. A column of the table may be
declared to identify its rows; otherwise a column named `id` does, or else the first one.

There are two ways to a table. `Table.check` judges a definition that is already complete;
`TableBuilder` adds one column after another and judges each step. They agree on names and on
repeated columns, but only the builder insists on at least one column.
-/

namespace TableQuery

/-- A column of a table. -/
structure Column where
  name : String
  type : ColumnType
  optional : Bool := false
deriving DecidableEq, Repr

/-- A table with its columns in the order of their declaration. -/
structure Table where
  name : String
  columns : List Column
  declaredId : Option String := none
deriving DecidableEq, Repr

namespace Table

/-- The column of a name. -/
def column? (t : Table) (name : String) : Option Column :=
  t.columns.find? fun c => c.name == name

/-- The names of the columns. -/
def columnNames (t : Table) : List String :=
  t.columns.map Column.name

/-- The name of the column that identifies a row. -/
def idColumn (t : Table) : String :=
  match t.declaredId with
  | some name => name
  | none =>
    if (t.column? "id").isSome then "id"
    else (t.columns.head?.map Column.name).getD "id"

end Table

/-! ### Names -/

/-- A name begins with an ASCII letter or an underscore, and ASCII letters, digits and underscores
follow. -/
def checkName (name : String) : Except Error Unit :=
  match name.toList with
  | [] => .error (.setup .emptyName)
  | c :: rest =>
    if !(c.isAlpha || c == '_') then .error (.setup (.badFirstCharacter name))
    else if !(rest.all fun c => c.isAlphanum || c == '_') then
      .error (.setup (.badCharacter name))
    else .ok ()

/-- A lawful name. -/
def isLawfulName (name : String) : Bool :=
  (checkName name).isOk

/-! ### Judging a complete definition -/

namespace Table

/-- Judges the columns of a table from left to right, those named in `seen` being behind. -/
def checkColumns (table : String) (seen : List String) : List Column → Except Error Unit
  | [] => .ok ()
  | c :: rest => do
    checkName c.name
    if seen.contains c.name then throw (.setup (.repeatedColumnOf table c.name))
    checkColumns table (c.name :: seen) rest

/-- Judges a complete definition: names, repeated columns, and the declared identifying column. -/
def check (t : Table) : Except Error Unit := do
  checkName t.name
  checkColumns t.name [] t.columns
  match t.declaredId with
  | some id =>
    if (t.column? id).isNone then throw (.setup (.unknownIdColumnOf t.name id))
  | none => pure ()

end Table

/-! ### Building step by step -/

/-- A table under construction. -/
structure TableBuilder where
  name : String
  columns : List Column := []
  declaredId : Option String := none
deriving DecidableEq, Repr

namespace TableBuilder

/-- Starts a table. -/
def start (name : String) : Except Error TableBuilder := do
  checkName name
  return { name := name }

/-- Adds a column behind the others. -/
def addColumn (b : TableBuilder) (c : Column) : Except Error TableBuilder := do
  checkName c.name
  if b.columns.any fun d => d.name == c.name then throw (.setup (.repeatedColumn c.name))
  return { b with columns := b.columns ++ [c] }

/-- Declares which of the columns identifies a row. -/
def setId (b : TableBuilder) (name : String) : Except Error TableBuilder := do
  if !(b.columns.any fun c => c.name == name) then throw (.setup (.unknownIdColumn name))
  return { b with declaredId := some name }

/-- The finished table. -/
def finish (b : TableBuilder) : Except Error Table :=
  if b.columns.isEmpty then .error (.setup (.noColumns b.name))
  else .ok ⟨b.name, b.columns, b.declaredId⟩

end TableBuilder

end TableQuery
