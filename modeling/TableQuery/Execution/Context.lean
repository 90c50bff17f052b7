import TableQuery.Error
import TableQuery.Query.Document
import TableQuery.Value.Key

/-!
# Variables

What the statements of a batch leave behind for the statements after them. A result is kept under
the name of its statement, if it has one, and always under the name of the latest result.
-/

namespace TableQuery

/-- The name under which the latest result is kept. -/
def latestName : String := "_prev"

/-- A kept result: its values, and where they came from. -/
structure Variable where
  values : List Json
  column : Option String := none
  columns : Option (List String) := none
  ids : Option (List Json) := none
  table : Option String := none
deriving DecidableEq

namespace Variable

/-- The variable of a result: the items of an array, or else the one value. -/
def ofResult (result : Json) : Variable :=
  { values := result.elements }

/-- The variable as a record of a document. -/
def toJson (v : Variable) : Json :=
  .obj ([("values", .arr v.values)] ++ optionalField "column" .str v.column ++
    optionalField "columns" Json.ofStrings v.columns ++ optionalField "ids" .arr v.ids ++
    optionalField "table" .str v.table)

end Variable

/-- The variables of a batch, by name. -/
abbrev Context := Fields Variable

namespace Context

/-- The variable of a name, which has to be bound. -/
def require (c : Context) (name : String) : Except Error Variable :=
  match c.get? name with
  | some v => .ok v
  | none => .error (.unboundVariable name)

/-- Keeps a result under its name, if it has one, and as the latest result. -/
def bind (c : Context) (name : Option String) (v : Variable) : Context :=
  let named := match name with
    | some name => c.insert name v
    | none => c
  named.insert latestName v

end Context

/-- The element that a join is at: the variable it runs over, and the element itself. -/
structure LoopFrame where
  name : String
  element : Json
deriving DecidableEq

end TableQuery
