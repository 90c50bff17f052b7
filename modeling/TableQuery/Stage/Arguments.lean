import TableQuery.Error
import TableQuery.Value.Coerce

/-!
# Binding arguments

The arguments of a call are matched with the parameters of a signature: those without a name in
the order of the parameters, the others by name. No parameter may be given twice, every value must
be of the kind of its parameter or coerce to it, and in the end every required parameter must be
given.
-/

namespace TableQuery

/-- The bound arguments, by parameter. -/
abbrev Arguments := Fields Json

/-- A value as the kind of a parameter. Scalars serve as strings by their keys, and strings that
read as a number or a boolean serve as one. -/
def ArgumentKind.coerce? : ArgumentKind → Json → Option Json
  | any, value => some value
  | string, .str s => some (.str s)
  | string, .num n => some (.str (Json.num n).key)
  | string, .bool b => some (.str (Json.bool b).key)
  | number, .num n => some (.num n)
  | number, .str s => (Text.number? s).map fun x => .num (.float x)
  | boolean, .bool b => some (.bool b)
  | boolean, .str s => (Text.bool? s).map .bool
  | _, _ => none

namespace Signature

/-- An error of the stage itself. -/
def fault {α : Type} (s : Signature) (fault : StageFault) : Except Error α :=
  .error (.stage s.key fault)

/-- The parameter of an argument, and the position of the next argument without a name. -/
def parameterFor (s : Signature) (position : Nat) (a : Argument) :
    Except Error (Parameter × Nat) :=
  match a.name with
  | some name =>
    match s.parameters.find? fun p => p.name == name with
    | some p => .ok (p, position)
    | none => s.fault (.unknownArgument name)
  | none =>
    match s.parameters[position]? with
    | some p => .ok (p, position + 1)
    | none => s.fault (.tooManyArguments s.parameters.length)

/-- Binds the arguments from left to right on top of those already bound. -/
def bindFrom (s : Signature) (position : Nat) (bound : Arguments) :
    List Argument → Except Error Arguments
  | [] => .ok bound
  | a :: rest => do
    let (p, position) ← s.parameterFor position a
    if (bound.get? p.name).isSome then s.fault (.repeatedArgument p.name)
    else
      match p.kind.coerce? a.value with
      | none => s.fault (.wrongKind p.name p.kind)
      | some value => s.bindFrom position (bound.insert p.name value) rest

/-- Binds the arguments of a call. -/
def bindArguments (s : Signature) (args : List Argument) : Except Error Arguments := do
  let bound ← s.bindFrom 0 [] args
  match s.parameters.find? fun p => p.required && (bound.get? p.name).isNone with
  | some p => s.fault (.missingArgument p.name)
  | none => return bound

end Signature

namespace Arguments

/-- A string argument. -/
def string? (args : Arguments) (name : String) : Option String :=
  (args.get? name).bind Json.str?

/-- A boolean argument. -/
def bool? (args : Arguments) (name : String) : Option Bool :=
  (args.get? name).bind Json.bool?

/-- A number argument that is not negative, without its fraction. Counts beyond 64 bits are the
largest count of 64 bits. -/
def nat? (args : Arguments) (name : String) : Option Nat :=
  match args.get? name with
  | some (.num n) =>
    match n.toBinary64 with
    | .finite x => if 0 ≤ x.units then some (min x.truncate.toNat (2 ^ 64 - 1)) else none
    | _ => none
  | _ => none

end Arguments

end TableQuery
