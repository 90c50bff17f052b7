import TableQuery.Json.Record
import TableQuery.Query.Statement

/-!
# Statements as documents

The form of a statement as a JSON record. Alternatives are told apart by a field `kind` that comes
first, connectives by the name of the only field; what a statement does not have is left out, but
an absent column list, bound or key is written as null. Reading (`Statement.ofJson?`) takes back
what writing (`Statement.toJson`) gives.
-/

namespace TableQuery

/-! ### Words -/

namespace MatchMode

/-- The mode of a word. -/
def ofName? : String → Option MatchMode
  | "contains" => some contains
  | "starts_with" => some startsWith
  | "ends_with" => some endsWith
  | _ => none

theorem ofName?_name (m : MatchMode) : ofName? m.name = some m := by
  cases m <;> rfl

end MatchMode

namespace VariableMode

/-- The mode of a keyword. -/
def ofKeyword? : String → Option VariableMode
  | "ANY" => some any
  | "ALL" => some all
  | "ONE" => some one
  | _ => none

end VariableMode

namespace ItemRole

/-- The word for a role. -/
def name : ItemRole → String
  | required => "and"
  | alternative => "or"
  | excluded => "not"

/-- The role of a word. -/
def ofName? : String → Option ItemRole
  | "and" => some required
  | "or" => some alternative
  | "not" => some excluded
  | _ => none

end ItemRole

namespace Direction

/-- The word for a direction. -/
def name : Direction → String
  | forward => "forward"
  | backward => "backward"

/-- The direction of a word. -/
def ofName? : String → Option Direction
  | "forward" => some forward
  | "backward" => some backward
  | _ => none

end Direction

/-! ### Writing -/

namespace Json

/-- Null, or a value. -/
def orNull {α : Type} (f : α → Json) : Option α → Json
  | some a => f a
  | none => .null

/-- An array of strings. -/
def ofStrings (ss : List String) : Json :=
  .arr (ss.map .str)

end Json

/-- A record whose first field tells its kind. -/
def kindRecord (kind : String) (fields : List (String × Json)) : Json :=
  .obj (("kind", .str kind) :: fields)

/-- A field that is left out where there is nothing. -/
def optionalField {α : Type} (name : String) (f : α → Json) (value : Option α) :
    List (String × Json) :=
  (value.map fun a => (name, f a)).toList

/-- An item of a list as a record. -/
def ListItem.toJson (item : ListItem) : Json :=
  .obj [("modifier", .str item.role.name), ("value", .str item.text)]

/-- A literal as a record. -/
def Literal.toJson : Literal → Json
  | text value caseSensitive mode => kindRecord "text"
      [("value", .str value), ("case_sensitive", .bool caseSensitive), ("mode", .str mode.name)]
  | dateRange lower upper => kindRecord "date_range"
      [("from", Json.orNull .str lower), ("to", Json.orNull .str upper)]
  | empty => kindRecord "empty" []
  | notEmpty => kindRecord "not_empty" []
  | variableRef name key mode => kindRecord "variable"
      [("name", .str name), ("key", Json.orNull .str key), ("mode", .str mode.keyword)]
  | list items => kindRecord "list" [("items", .arr (items.map ListItem.toJson))]

/-- An atom as a record. -/
def Atom.toJson : Atom → Json
  | condition table columns literal => kindRecord "basic"
      [("table", .str table), ("columns", Json.orNull Json.ofStrings columns),
        ("value", literal.toJson)]
  | relation direction source target => kindRecord "relation"
      [("direction", .str direction.name), ("from_table", .str source), ("to_table", .str target)]
  | never => kindRecord "group" []

/-- An expression as a record. -/
def Expression.toJson : Expression → Json
  | and l r => .obj [("and", .arr [l.toJson, r.toJson])]
  | or l r => .obj [("or", .arr [l.toJson, r.toJson])]
  | not e => .obj [("not", e.toJson)]
  | atom a => .obj [("atom", a.toJson)]

/-- A projection as a record. -/
def Projection.toJson : Projection → Json
  | identity => kindRecord "default" []
  | column name => kindRecord "column" [("columns", .str name)]
  | columns names => kindRecord "columns" [("columns", Json.ofStrings names)]
  | all => kindRecord "all" []

/-- An argument as a record. -/
def Argument.toJson (a : Argument) : Json :=
  .obj (optionalField "name" .str a.name ++ [("value", a.value)])

/-- A list that is left out where it is empty. -/
def optionalList {α : Type} (name : String) (f : α → Json) (items : List α) :
    List (String × Json) :=
  if items.isEmpty then [] else [(name, .arr (items.map f))]

/-- A stage as a record. -/
def StageCall.toJson (s : StageCall) : Json :=
  .obj (("name", .str s.name) :: optionalList "args" Argument.toJson s.arguments)

/-- A statement as a record. -/
def Statement.toJson (s : Statement) : Json :=
  .obj (optionalField "name" .str s.name ++
    [("expr", s.expression.toJson), ("projection", s.projection.toJson)] ++
    optionalField "aggregation" (fun a => .str a.keyword) s.aggregation ++
    optionalField "target_key" .str s.targetKey ++
    optionalList "pipeline" StageCall.toJson s.stages)

/-! ### Reading -/

namespace Record

/-- A field of a record that has to be there. -/
def field? {α : Type} (name : String) (read : Json → Option α) (value : Json) : Option α := do
  read (← (← value.fields?).get? name)

/-- A field of a record that may be null or absent. -/
def maybe? {α : Type} (name : String) (read : Json → Option α) (value : Json) :
    Option (Option α) := do
  match (← value.fields?).get? name with
  | none | some .null => some none
  | some field => (read field).map some

/-- A list in a field of a record; without the field it is empty. -/
def maybeList? {α : Type} (name : String) (read : Json → Option α) (value : Json) :
    Option (List α) := do
  withDefault? (Json.list? read) [] ((← value.fields?).get? name)

/-- A word in a field of a record. -/
def wordOf? {α : Type} (name : String) (ofWord : String → Option α) (value : Json) : Option α :=
  (field? name Json.str? value).bind ofWord

end Record

open Record

/-- The item of a record. -/
def ListItem.ofJson? (value : Json) : Option ListItem := do
  return ⟨← wordOf? "modifier" ItemRole.ofName? value, ← field? "value" Json.str? value⟩

/-- The literal of a record. -/
def Literal.ofJson? (value : Json) : Option Literal := do
  match ← field? "kind" Json.str? value with
  | "text" =>
    return .text (← field? "value" Json.str? value) (← field? "case_sensitive" Json.bool? value)
      (← wordOf? "mode" MatchMode.ofName? value)
  | "date_range" =>
    return .dateRange (← maybe? "from" Json.str? value) (← maybe? "to" Json.str? value)
  | "empty" => return .empty
  | "not_empty" => return .notEmpty
  | "variable" =>
    return .variableRef (← field? "name" Json.str? value) (← maybe? "key" Json.str? value)
      (← wordOf? "mode" VariableMode.ofKeyword? value)
  | "list" => return .list (← field? "items" (Json.list? ListItem.ofJson?) value)
  | _ => none

/-- The atom of a record. -/
def Atom.ofJson? (value : Json) : Option Atom := do
  match ← field? "kind" Json.str? value with
  | "basic" =>
    return .condition (← field? "table" Json.str? value) (← maybe? "columns" Json.strings? value)
      (← field? "value" Literal.ofJson? value)
  | "relation" =>
    return .relation (← wordOf? "direction" Direction.ofName? value)
      (← field? "from_table" Json.str? value) (← field? "to_table" Json.str? value)
  | "group" => return .never
  | _ => none

/-- The expression of a record. -/
def Expression.ofJson? : Json → Option Expression
  | .obj [("and", .arr [l, r])] => do return .and (← ofJson? l) (← ofJson? r)
  | .obj [("or", .arr [l, r])] => do return .or (← ofJson? l) (← ofJson? r)
  | .obj [("not", e)] => do return .not (← ofJson? e)
  | .obj [("atom", a)] => do return .atom (← Atom.ofJson? a)
  | _ => none

/-- The projection of a record. -/
def Projection.ofJson? (value : Json) : Option Projection := do
  match ← field? "kind" Json.str? value with
  | "default" => return .identity
  | "column" => return .column (← field? "columns" Json.str? value)
  | "columns" => return .columns (← field? "columns" Json.strings? value)
  | "all" => return .all
  | _ => none

/-- The argument of a record. -/
def Argument.ofJson? (value : Json) : Option Argument := do
  return ⟨← maybe? "name" Json.str? value, ← field? "value" some value⟩

/-- The stage of a record. -/
def StageCall.ofJson? (value : Json) : Option StageCall := do
  return ⟨← field? "name" Json.str? value, ← maybeList? "args" Argument.ofJson? value⟩

/-- The statement of a record. -/
def Statement.ofJson? (value : Json) : Option Statement := do
  return {
    name := ← maybe? "name" Json.str? value
    expression := ← field? "expr" Expression.ofJson? value
    projection := (← maybe? "projection" Projection.ofJson? value).getD .identity
    aggregation := ← maybe? "aggregation"
      (fun v => v.str?.bind fun w => Aggregation.all.find? fun a => a.keyword == w) value
    targetKey := ← maybe? "target_key" Json.str? value
    stages := ← maybeList? "pipeline" StageCall.ofJson? value }

end TableQuery
