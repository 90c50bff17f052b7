import TableQuery.Query.Statement
import TableQuery.Value.Key

/-!
# Shaping results

What becomes of the rows that a statement accepts: each is projected to a value, and the values
are summed up.
-/

namespace TableQuery

/-- A cell of a row, null where it is missing. -/
def cellOrNull (row : Row) (column : String) : Json :=
  (row.get? column).getD .null

/-- The value of a row under a projection. -/
def Projection.apply (p : Projection) (idColumn : String) (row : Row) : Json :=
  match p with
  | identity => cellOrNull row idColumn
  | column name => cellOrNull row name
  | columns names => .obj (Fields.ofList (names.map fun name => (name, cellOrNull row name)))
  | all => .obj row

/-- Sums values up. Without an aggregation they are an array; a first or last value that does not
exist is an empty array. -/
def aggregate (values : List Json) : Option Aggregation → Json
  | none => .arr values
  | some .count => Json.ofNat values.length
  | some .unique => .arr (Json.distinct values)
  | some .first => values.head?.getD (.arr [])
  | some .last => values.getLast?.getD (.arr [])

end TableQuery
