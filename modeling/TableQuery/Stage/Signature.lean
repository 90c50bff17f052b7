import TableQuery.Json.Basic

/-!
# Declarations of stages

A stage of a pipeline is declared by a signature: its name, perhaps inside a namespace, what it
does with its input, the shapes of its input and its output, and the arguments it takes. The
shapes are what a pipeline is checked by before it runs.
-/

namespace TableQuery

/-- What a stage does with its input: sums it up, reshapes it, or brings in rows from storage. -/
inductive StageCategory where
  | aggregation
  | transform
  | loader
deriving DecidableEq, Repr

/-- The shape of the data between two stages. As the output of a stage, `any` passes the shape of
its input on. -/
inductive Shape where
  | any
  | rows
  | values
  | posts
  | count
  | unknown
deriving DecidableEq, Repr

/-- The name of a shape. -/
def Shape.name : Shape → String
  | any => "any"
  | rows => "rows"
  | values => "values"
  | posts => "posts"
  | count => "count"
  | unknown => "unknown"

/-- The kind of value an argument takes. -/
inductive ArgumentKind where
  | string
  | number
  | boolean
  | any
deriving DecidableEq, Repr

/-- The name of a kind of argument, as a message puts it. -/
def ArgumentKind.title : ArgumentKind → String
  | string => "String"
  | number => "Number"
  | boolean => "Boolean"
  | any => "Any"

/-- A declared argument. -/
structure Parameter where
  name : String
  kind : ArgumentKind
  required : Bool
  description : String := ""
deriving DecidableEq, Repr

/-- The declaration of a stage. -/
structure Signature where
  name : String
  space : Option String := none
  category : StageCategory
  input : Shape
  output : Shape
  description : String := ""
  parameters : List Parameter := []
deriving DecidableEq, Repr

/-- The key a stage is registered under: its name, behind its namespace if it has one. -/
def Signature.key (s : Signature) : String :=
  match s.space with
  | some outer => outer ++ "." ++ s.name
  | none => s.name

/-- An argument as a call writes it: by position, or by name. -/
structure Argument where
  name : Option String := none
  value : Json
deriving DecidableEq

/-- A stage as a statement calls it. -/
structure StageCall where
  name : String
  arguments : List Argument := []
deriving DecidableEq

end TableQuery
