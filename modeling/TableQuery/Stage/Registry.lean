import TableQuery.Access.Whitelist
import TableQuery.Execution.Fetching
import TableQuery.Schema.Catalog
import TableQuery.Stage.Arguments

/-!
# Registries of stages

A stage is a declaration and what it does with its input. A registry holds stages by key: a stage
in a namespace is found under its full key and, unless an earlier stage claimed it, under its bare
name. A name that is no key is looked up once more without regard to the case of ASCII letters,
and the least key that matches is meant.

A list of stages is checked before it runs: every stage must exist, and accept the shape that the
stages before it leave behind.
-/

namespace TableQuery

/-- What a stage may see besides its input: the catalog and the access policy of the statement. -/
structure StageScope where
  catalog : Catalog
  whitelist : Whitelist
  allowed : Option (List String)

/-- A stage: its declaration, and what it makes of its arguments and its input. -/
structure Stage where
  signature : Signature
  run : StageScope → Arguments → Json → Fetching Json

/-- The registered stages, by key. -/
structure Registry where
  stages : Fields Stage := []

namespace Registry

/-- The key is taken. -/
def hasKey (r : Registry) (key : String) : Bool :=
  (r.stages.get? key).isSome

/-- Registers a stage under its key, and under its bare name if that is still free. -/
def register (r : Registry) (s : Stage) : Except Error Registry :=
  let key := s.signature.key
  if r.hasKey key then .error (.setup (.repeatedStage key))
  else
    let stages := if s.signature.space.isSome && !r.hasKey s.signature.name
      then r.stages.insert s.signature.name s else r.stages
    .ok ⟨stages.insert key s⟩

/-- The keys in ascending order. -/
def keys (r : Registry) : List String :=
  r.stages.map Prod.fst

/-- The stage that a name means. -/
def resolve? (r : Registry) (name : String) : Option Stage :=
  match r.stages.get? name with
  | some s => some s
  | none =>
    (r.stages.find? fun e => Text.sameIgnoringCase e.1.toList name.toList).map Prod.snd

/-- The stage that a name means, which has to exist. -/
def resolve (r : Registry) (name : String) : Except Error Stage :=
  match r.resolve? name with
  | some s => .ok s
  | none => .error (.unknownStage name)

/-! ### Checking a list of stages -/

/-- The outcome of checking a list of stages: what is wrong, and the shape that comes out. -/
structure PipelineCheck where
  faults : List PipelineFault
  output : Shape
deriving DecidableEq, Repr

/-- Nothing is wrong. -/
def PipelineCheck.isValid (c : PipelineCheck) : Bool :=
  c.faults.isEmpty

/-- The shape that comes out, or an error with everything that is wrong. -/
def PipelineCheck.result (c : PipelineCheck) : Except Error Shape :=
  if c.isValid then .ok c.output else .error (.badPipeline c.faults)

/-- Checks the stages from the one at `index` on, which receives the shape `current`. -/
def checkFrom (r : Registry) (index : Nat) (current : Shape) : List String → PipelineCheck
  | [] => ⟨[], current⟩
  | name :: rest =>
    match r.resolve? name with
    | none =>
      let c := r.checkFrom (index + 1) .unknown rest
      ⟨.unknownStage index name :: c.faults, c.output⟩
    | some s =>
      let next := if s.signature.output = .any then current else s.signature.output
      let c := r.checkFrom (index + 1) next rest
      if s.signature.input = .any || s.signature.input = current then c
      else ⟨.wrongShape index s.signature.key s.signature.input current :: c.faults, c.output⟩

/-- Checks a list of stages that receives data of the shape `initial`. -/
def check (r : Registry) (names : List String) (initial : Shape) : PipelineCheck :=
  r.checkFrom 0 initial names

/-! ### Running a list of stages -/

/-- Runs the calls one after another, each on the output of the one before. -/
def runCalls (r : Registry) (scope : StageScope) : List StageCall → Json → Fetching Json
  | [], value => return value
  | call :: rest, value => do
    let s ← r.resolve call.name
    let args ← s.signature.bindArguments call.arguments
    let value ← s.run scope args value
    r.runCalls scope rest value

/-- Checks the calls and runs them. Without any there is nothing to check. -/
def runPipeline (r : Registry) (scope : StageScope) (calls : List StageCall) (initial : Shape)
    (value : Json) : Fetching Json :=
  if calls.isEmpty then return value
  else do
    let _ ← (r.check (calls.map StageCall.name) initial).result
    r.runCalls scope calls value

end Registry

end TableQuery
