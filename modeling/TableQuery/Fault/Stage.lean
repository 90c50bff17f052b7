import TableQuery.Stage.Signature

/-!
# Faults of stages

A list of stages is checked before it runs, and every stage that does not fit is reported
(`PipelineFault`). A stage that runs can still refuse its arguments or its input (`StageFault`).
-/

namespace TableQuery

/-- A stage that does not fit into its pipeline; stages are counted from zero. -/
inductive PipelineFault where
  | unknownStage (index : Nat) (name : String)
  | wrongShape (index : Nat) (key : String) (expected received : Shape)
deriving DecidableEq, Repr

/-- What the fault says. -/
def PipelineFault.message : PipelineFault → String
  | unknownStage index name => s!"stage {index}: unknown function '{name}'"
  | wrongShape index key expected received =>
    s!"stage {index}: {key} expects {expected.name} but receives {received.name}"

/-- Why a stage refuses its arguments or its input. -/
inductive StageFault where
  | unknownArgument (name : String)
  | tooManyArguments (limit : Nat)
  | repeatedArgument (name : String)
  | wrongKind (name : String) (kind : ArgumentKind)
  | missingArgument (name : String)
  | noList
  | badOrder (word : String)
  | badCount
  | noTable
deriving DecidableEq, Repr

/-- What the fault says. -/
def StageFault.message : StageFault → String
  | unknownArgument name => s!"unknown argument '{name}'"
  | tooManyArguments limit => s!"expected at most {limit} arguments"
  | repeatedArgument name => s!"argument '{name}' given twice"
  | wrongKind name kind => s!"argument '{name}' expects {kind.title}"
  | missingArgument name => s!"missing required argument '{name}'"
  | noList => "expects a list input"
  | badOrder word => s!"order must be asc or desc, got '{word}'"
  | badCount => "n must be a non-negative number"
  | noTable => "missing table"

end TableQuery
