import TableQuery.Error
import TableQuery.Storage.Filter

/-!
# Row sources

Storage is reached through one operation: fetch some columns of the rows of a table, perhaps only
of those that pass a filter. `FetchCall` is such a request and a source is anything that answers
it. `Store` is the source that holds its tables in memory, and what the other parts of the library
mean by a store.
-/

namespace TableQuery

/-- A request for rows. -/
structure FetchCall where
  table : String
  columns : List String
  filter : Option StorageFilter

/-- Why a request fails: a search in a column that holds something else, or a fault of the
storage itself. -/
inductive StorageError where
  | unsupported (table column : String) (mode : MatchMode)
  | backend (text : String)
deriving DecidableEq, Repr

namespace StorageError

/-- What the storage says. -/
def message : StorageError → String
  | unsupported table column mode =>
    s!"operator {mode.name} is not supported on column {table}.{column}"
  | backend text => text

/-- The error that a query fails with. -/
def toError : StorageError → Error
  | unsupported table column mode => .unsupportedSearch table column mode
  | backend text => .storage text

end StorageError

/-- The answer to a request. -/
abbrev FetchAnswer := Except StorageError (List Row)

/-! ### Tables in memory -/

/-- Tables held in memory, by name. -/
structure Store where
  tables : List (String × List Row) := []
deriving DecidableEq

namespace Store

/-- The rows of a table. -/
def rows? (s : Store) (table : String) : Option (List Row) :=
  s.tables.lookup table

/-- Puts a table into the store, in place of any table of that name. Values that are no objects
are no rows and are left out. -/
def withTable (s : Store) (table : String) (values : List Json) : Store :=
  ⟨(table, values.filterMap Json.fields?) :: s.tables⟩

/-- Adds a row behind the others of its table, which need not exist yet. -/
def insert (s : Store) (table : String) (row : Row) : Store :=
  ⟨(table, (s.rows? table).getD [] ++ [row]) :: s.tables⟩

/-- The requested cells of a row; a cell that is not there stays missing. -/
def projectRow (columns : List String) (row : Row) : Row :=
  Fields.ofList (columns.filterMap fun c => (row.get? c).map fun cell => (c, cell))

/-- The rows that pass the filter, in order, each cut down to the columns; an unsupported search
ends the whole request. -/
def select (call : FetchCall) : List Row → FetchAnswer
  | [] => .ok []
  | row :: rest =>
    match (call.filter.map fun f => f.eval row).getD (.holds true) with
    | .holds true => (select call rest).map (projectRow call.columns row :: ·)
    | .holds false => select call rest
    | .unsupported column mode => .error (.unsupported call.table column mode)

/-- The answer to a request. -/
def fetch (s : Store) (call : FetchCall) : FetchAnswer :=
  match s.rows? call.table with
  | some rows => select call rows
  | none => .error (.backend s!"relation \"{call.table}\" does not exist")

end Store

end TableQuery
