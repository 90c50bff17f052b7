import TableQuery.Query.Expression
import TableQuery.Stage.Signature
import TableQuery.Text.Ascii

/-!
# Statements

A statement is an expression with what is done to the rows that satisfy it: which cells are taken
(`Projection`), how they are summed up (`Aggregation`), through which stages the result goes, and
under which name it is kept. With a name and a key the statement is a *join*: it runs once for
every element of the variable of that name and attaches its results to the elements.
-/

namespace TableQuery

/-- How the values of a statement are summed up. -/
inductive Aggregation where
  | count
  | unique
  | first
  | last
deriving DecidableEq, Repr

namespace Aggregation

/-- The keyword of an aggregation. -/
def keyword : Aggregation → String
  | count => "COUNT"
  | unique => "UNIQUE"
  | first => "FIRST"
  | last => "LAST"

/-- Every aggregation. -/
def all : List Aggregation :=
  [count, unique, first, last]

/-- The aggregation of a keyword in any case. -/
def ofKeyword? (word : List Char) : Option Aggregation :=
  all.find? fun a => Text.sameIgnoringCase a.keyword.toList word

end Aggregation

/-- What is taken from each row. -/
inductive Projection where
  /-- The cell of the identifying column. -/
  | identity
  /-- The cell of one column. -/
  | column (name : String)
  /-- An object of the named columns. -/
  | columns (names : List String)
  /-- The whole row. -/
  | all
deriving DecidableEq, Repr

/-- A statement. -/
structure Statement where
  name : Option String := none
  expression : Expression
  projection : Projection := .identity
  aggregation : Option Aggregation := none
  targetKey : Option String := none
  stages : List StageCall := []
deriving DecidableEq

namespace Statement

/-- The name under which the result is reported. -/
def resultKey (s : Statement) : String :=
  s.name.getD "result"

/-- The shape of the data that reaches the first stage. -/
def outputShape (s : Statement) : Shape :=
  match s.aggregation, s.projection with
  | some .count, _ => .count
  | some .first, _ | some .last, _ => .unknown
  | _, .all | _, .columns _ => .rows
  | _, .identity | _, .column _ => .values

end Statement

end TableQuery
