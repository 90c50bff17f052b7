import TableQuery.Fault.Grammar
import TableQuery.Fault.Setup
import TableQuery.Fault.Stage
import TableQuery.Text.Search

/-!
# Errors

Everything that can go wrong between a query text and its result, each error a cause with its
particulars. What an error says (`Error.message`) and the class of status a caller reports
(`Error.status`) are functions of the cause.
-/

namespace TableQuery

/-- Why access is denied. -/
inductive Denial where
  | tableNotWhitelisted
  | columnsNotWhitelisted
  | noAllColumnsMarker
  | tableNotAllowed
  | keyNotWhitelisted
deriving DecidableEq, Repr

/-- What the denial says. -/
def Denial.message : Denial → String
  | tableNotWhitelisted => "table is not whitelisted"
  | columnsNotWhitelisted => "columns are not whitelisted"
  | noAllColumnsMarker => "selecting all columns requires the all-columns marker"
  | tableNotAllowed => "table is not in the allowed tables"
  | keyNotWhitelisted => "load key column is not whitelisted"

/-- How the values of a variable fail the access that is made to them. -/
inductive ShapeFault where
  | objectsNeedKey
  | noKeyOutsideObjects (key : String)
  | elementIsNoObject (index : Nat) (key : String)
deriving DecidableEq, Repr

/-- What the fault says. -/
def ShapeFault.message : ShapeFault → String
  | objectsNeedKey => "values are objects; select a field with $name:key"
  | noKeyOutsideObjects key => s!"cannot read key '{key}' from a non-object value"
  | elementIsNoObject index key => s!"element {index} is not an object, cannot attach '{key}'"

/-- An error of reading, checking or running a query, or of setting the library up. -/
inductive Error where
  /-- The text breaks a rule of the grammar, at a piece of text. -/
  | malformed (fault : GrammarFault) (fragment : String)
  | unknownTable (name : String)
  | unknownColumn (table column : String)
  /-- Access to a table or, if there are any, to columns of it. -/
  | denied (table : String) (columns : List String) (reason : Denial)
  | unboundVariable (name : String)
  /-- A reference to the element of a loop outside that loop. -/
  | noLoop (variableName : String)
  | badVariable (name : String) (fault : ShapeFault)
  /-- A statement whose atoms name no table. -/
  | noTable
  /-- A search for a text in a column that holds something else. -/
  | unsupportedSearch (table column : String) (mode : MatchMode)
  | storage (message : String)
  | unknownStage (name : String)
  | badPipeline (faults : List PipelineFault)
  | stage (name : String) (fault : StageFault)
  | setup (fault : SetupFault)
deriving DecidableEq, Repr

namespace Error

/-- What the error says. -/
def message : Error → String
  | malformed fault fragment => s!"Syntax error: {fault.message} near '{fragment}'"
  | unknownTable name => s!"Unknown table: {name}"
  | unknownColumn table column => s!"Column {column} not found in table {table}"
  | denied table [] reason => s!"Access denied to table {table}: {reason.message}"
  | denied table columns reason =>
    "Access denied to columns [" ++ ", ".intercalate columns ++ s!"] of table {table}: " ++
      reason.message
  | unboundVariable name => s!"Variable ${name} is not defined"
  | noLoop name => s!"${name} -> ONE requires an iteration over ${name}"
  | badVariable name fault => s!"Invalid access to ${name}: {fault.message}"
  | noTable => "Invalid query: statement references no table"
  | unsupportedSearch table column mode =>
    s!"Text search ({mode.name}) is not supported on column {table}.{column}" ++
      " (match this column with an exact value, or search a text column instead)"
  | storage text => s!"Storage error: {text}"
  | unknownStage name => s!"Unknown function: {name}"
  | badPipeline faults =>
    "Invalid pipeline: " ++ "; ".intercalate (faults.map PipelineFault.message)
  | stage name fault => s!"Function {name} failed: {fault.message}"
  | setup fault => s!"Invalid configuration: {fault.message}"

/-- The class of status a caller reports the error with. -/
def status : Error → Nat
  | malformed .. | unboundVariable .. | noLoop .. | badVariable .. | noTable
  | unsupportedSearch .. | badPipeline .. | stage .. => 400
  | denied .. => 403
  | unknownTable .. | unknownColumn .. | unknownStage .. => 404
  | storage .. | setup .. => 500

end Error

end TableQuery
