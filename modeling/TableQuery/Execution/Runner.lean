import TableQuery.Execution.Predicate
import TableQuery.Execution.Pushdown
import TableQuery.Execution.Shape
import TableQuery.Stage.Registry

/-!
# Running batches

A batch is run statement by statement. Each statement is checked and planned, fetches the rows of
its table in one request that carries what could be pushed down, looks its relations up, tests and
shapes the rows and sends the result through its stages. A join does the last steps once for every
element of the variable it runs over.

A statement changes nothing until it has succeeded: only then is its result reported and its
variable bound. A batch that skips failed statements therefore goes on as if they were not there.
-/

namespace TableQuery

/-- What a failed statement does to the rest of its batch. -/
inductive ErrorPolicy where
  /-- It ends the batch. -/
  | failFast
  /-- It is left out, if its error can be skipped. -/
  | skip
deriving DecidableEq, Repr

namespace ErrorPolicy

/-- The word for the policy. -/
def name : ErrorPolicy → String
  | failFast => "fail_fast"
  | skip => "skip"

/-- The policy of that name. -/
def ofName? (w : String) : Option ErrorPolicy :=
  [failFast, skip].find? fun p => p.name == w

end ErrorPolicy

/-- The choices of a run. -/
structure RunOptions where
  statementErrors : ErrorPolicy := .failFast
  /-- A reference to all values of a variable without values accepts every row. -/
  emptyMeansAll : Bool := false
deriving DecidableEq, Repr

/-- The errors that a batch can go on after: those of storage, of stages, and of the shape of
variables. -/
def Error.isSkippable : Error → Bool
  | storage _ | stage .. | badPipeline _ | unknownStage _ | badVariable .. => true
  | _ => false

/-- The result of a batch: the variables at its end, and the results by name. -/
structure Output where
  context : Context := []
  results : Fields Json := []
deriving DecidableEq

/-- The output as a document: the variables, and beside them the results. A result of that name
takes the place of the variables. -/
def Output.toJson (o : Output) : Json :=
  .obj (Fields.ofList
    (("variables", .obj (o.context.map fun v => (v.1, v.2.toJson))) :: o.results))

/-- Everything a batch is run with, apart from the source. -/
structure Executor where
  catalog : Catalog
  whitelist : Whitelist
  registry : Registry
  options : RunOptions := {}

/-- The rows of a statement and all that is needed to test them. -/
structure Candidates where
  table : Table
  columns : RequiredColumns
  rows : List Row
  relations : RelationChecks

namespace Executor

/-! ### Planning and fetching -/

/-- Checks a statement and plans its request. The order of the checks is the order of their
errors. -/
def plan (x : Executor) (allowed : Option (List String)) (s : Statement) :
    Except Error (Table × RequiredColumns) := do
  let name ← s.targetTable
  x.whitelist.checkTable name
  checkAllowed name allowed
  let t ← x.catalog.table name
  let columns ← s.requiredColumns x.catalog t
  if columns.all then x.whitelist.checkAllColumns name
  x.whitelist.checkColumns name columns.names
  if !s.stages.isEmpty then
    let _ ← (x.registry.check (s.stages.map StageCall.name) s.outputShape).result
  return (t, columns)

/-- Fetches the rows of a statement and looks its relations up. -/
def candidates (x : Executor) (allowed : Option (List String)) (s : Statement) :
    Fetching Candidates := do
  let (table, columns) ← x.plan allowed s
  let rows ← Fetching.request
    ⟨table.name, columns.names, StorageFilter.ofExpression? table s.expression⟩
  let relations ← resolveRelations ⟨x.catalog, x.whitelist, allowed⟩ table.name rows
    s.expression.atoms []
  return ⟨table, columns, rows, relations⟩

/-! ### Evaluating -/

/-- The accepted rows. -/
def acceptedRows (x : Executor) (s : Statement) (c : Candidates) (context : Context)
    (frame : Option LoopFrame) : Except Error (List Row) := do
  let test ← compile ⟨c.table, context, frame, c.relations, x.options.emptyMeansAll⟩ s.expression
  return c.rows.filter test

/-- The value of a statement before its stages. -/
def shapeRows (s : Statement) (t : Table) (rows : List Row) : Json :=
  aggregate (rows.map (s.projection.apply t.idColumn)) s.aggregation

/-- Sends a value through the stages of a statement. -/
def runStages (x : Executor) (allowed : Option (List String)) (s : Statement) (value : Json) :
    Fetching Json :=
  x.registry.runPipeline ⟨x.catalog, x.whitelist, allowed⟩ s.stages s.outputShape value

/-- The variable of a statement that is no join: the values of its result, and where they came
from. -/
def describe (s : Statement) (c : Candidates) (result : Json) (ids : List Json) : Variable :=
  let v := { Variable.ofResult result with table := some c.table.name }
  match s.projection with
  | .identity => { v with column := some c.table.idColumn }
  | .column name => { v with column := some name, ids := some ids }
  | .columns names => { v with columns := some names, ids := some ids }
  | .all => { v with columns := some c.columns.names, ids := some ids }

/-- Evaluates a statement that is no join. -/
def evaluate (x : Executor) (allowed : Option (List String)) (s : Statement) (c : Candidates)
    (context : Context) : Fetching (Json × Variable) := do
  let rows ← x.acceptedRows s c context none
  let value ← x.runStages allowed s (shapeRows s c.table rows)
  return (value, describe s c value (rows.map fun row => cellOrNull row c.table.idColumn))

/-- Evaluates a join for the elements from the one at `index` on, and attaches each result to its
element. -/
def joinElements (x : Executor) (allowed : Option (List String)) (s : Statement)
    (c : Candidates) (context : Context) (name key : String) :
    Nat → List Json → Fetching (List Json)
  | _, [] => return []
  | index, .obj fields :: rest => do
    let rows ← x.acceptedRows s c context (some ⟨name, .obj fields⟩)
    let result ← x.runStages allowed s (shapeRows s c.table rows)
    let joined ← x.joinElements allowed s c context name key (index + 1) rest
    return .obj (Fields.insert key result fields) :: joined
  | index, _ :: _ => Fetching.failed (.badVariable name (.elementIsNoObject index key))

/-- Evaluates a join over the elements of a variable, which keeps what is known about it. -/
def join (x : Executor) (allowed : Option (List String)) (s : Statement) (c : Candidates)
    (context : Context) (name key : String) : Fetching (Json × Variable) := do
  let v ← context.require name
  let joined ← x.joinElements allowed s c context name key 0 v.values
  return (.arr joined, { v with values := joined })

/-! ### Statements and batches -/

/-- Runs a statement: its result, and the variable it is kept as. -/
def runStatement (x : Executor) (allowed : Option (List String)) (context : Context)
    (s : Statement) : Fetching (Json × Variable) := do
  let c ← x.candidates allowed s
  match s.name, s.targetKey with
  | some name, some key => x.join allowed s c context name key
  | _, _ => x.evaluate allowed s c context

/-- Runs the statements of a batch on top of the output so far. -/
def runFrom (x : Executor) (allowed : Option (List String)) :
    List Statement → Output → Fetching Output
  | [], out => return out
  | s :: rest, out => do
    match ← (x.runStatement allowed out.context s).attempt with
    | .ok (value, v) =>
      x.runFrom allowed rest
        ⟨out.context.bind s.name v, out.results.insert s.resultKey value⟩
    | .error e =>
      if x.options.statementErrors = .skip && e.isSkippable then x.runFrom allowed rest out
      else Fetching.failed e

/-- Runs a batch. A list of allowed tables narrows the whitelist for this run. -/
def run (x : Executor) (statements : List Statement) (allowed : Option (List String)) :
    Fetching Output :=
  x.runFrom allowed statements {}

end Executor

end TableQuery
