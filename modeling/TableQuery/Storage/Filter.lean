import TableQuery.Text.Search
import TableQuery.Value.Coerce

/-!
# Storage filters

A filter is a condition that a store tests by itself, before it hands rows over. It knows nothing
of column types: it tests the cells of single columns for a key, a text or a range of dates, and
combines such tests. Evaluating one against a row has three outcomes, because a search for a text
in a cell that is no string is not false but unsupported (`Verdict`).

A conjunction stops at the first test that does not hold and a disjunction at the first that does
not fail, so an unsupported search behind that point goes unnoticed.
-/

namespace TableQuery

/-- A condition that a store tests by itself. -/
inductive StorageFilter where
  | eq (column : String) (value : Json)
  | search (mode : MatchMode) (column : String) (text : String) (ignoreCase : Bool)
  | range (column : String) (lower upper : Option Int)
  | and (filters : List StorageFilter)
  | or (filters : List StorageFilter)

/-- The outcome of a filter on a row. -/
inductive Verdict where
  | holds (result : Bool)
  /-- A search met a cell of the column that is neither a string nor null. -/
  | unsupported (column : String) (mode : MatchMode)
deriving DecidableEq, Repr

/-- A value lies between two bounds, both of them included where they are given. -/
def withinBounds (lower upper : Option Int) (n : Int) : Bool :=
  (match lower with
    | some bound => decide (bound ≤ n)
    | none => true) &&
  (match upper with
    | some bound => decide (n ≤ bound)
    | none => true)

namespace StorageFilter

/-- The conjunction of filters; a single filter is its own. -/
def conj : List StorageFilter → StorageFilter
  | [f] => f
  | filters => and filters

/-- The disjunction of filters; a single filter is its own. -/
def disj : List StorageFilter → StorageFilter
  | [f] => f
  | filters => or filters

mutual

/-- The columns that the filter reads, in order and with repetitions. -/
def columns : StorageFilter → List String
  | eq column _ | search _ column _ _ | range column _ _ => [column]
  | and filters | or filters => columnsOf filters

/-- The columns that a list of filters reads. -/
def columnsOf : List StorageFilter → List String
  | [] => []
  | f :: fs => f.columns ++ columnsOf fs

end

/-! ### Evaluation -/

/-- A search for a text in a cell. -/
def searchCell (mode : MatchMode) (column text : String) (ignoreCase : Bool) :
    Option Json → Verdict
  | none | some .null => .holds false
  | some (.str s) => .holds (mode.findsFolded ignoreCase text.toList s.toList)
  | some _ => .unsupported column mode

mutual

/-- The outcome of the filter on a row. A cell that is missing or null passes no test. -/
def eval (row : Row) : StorageFilter → Verdict
  | eq column value =>
    match row.get? column with
    | some cell => .holds (!cell.isNull && cell.looseEq value)
    | none => .holds false
  | search mode column text ignoreCase =>
    searchCell mode column text ignoreCase (row.get? column)
  | range column lower upper =>
    match (row.get? column).bind Json.date? with
    | some millis => .holds (withinBounds lower upper millis)
    | none => .holds false
  | and filters => evalAll row filters
  | or filters => evalAny row filters

/-- The outcome of a conjunction. -/
def evalAll (row : Row) : List StorageFilter → Verdict
  | [] => .holds true
  | f :: fs =>
    match f.eval row with
    | .holds true => evalAll row fs
    | verdict => verdict

/-- The outcome of a disjunction. -/
def evalAny (row : Row) : List StorageFilter → Verdict
  | [] => .holds false
  | f :: fs =>
    match f.eval row with
    | .holds false => evalAny row fs
    | verdict => verdict

end

end StorageFilter

end TableQuery
