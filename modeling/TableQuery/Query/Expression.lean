import TableQuery.Query.Literal
import TableQuery.Schema.Relation

/-!
# Expressions

A boolean expression over atoms. An atom tests columns of a table with a literal, or asks for a
related row in another table; `never` is the atom that no row satisfies. The first atom that
names a table decides which table the rows are taken from.
-/

namespace TableQuery

/-- A condition without connectives. -/
inductive Atom where
  /-- Some of the columns, or any column of the table, fits the literal. -/
  | condition (table : String) (columns : Option (List String)) (literal : Literal)
  /-- A related row exists. -/
  | relation (direction : Direction) (source target : String)
  /-- No row. -/
  | never
deriving DecidableEq, Repr

/-- The table that an atom takes its rows from. -/
def Atom.table? : Atom → Option String
  | condition table .. => some table
  | relation _ source _ => some source
  | never => none

/-- A boolean expression over atoms. -/
inductive Expression where
  | and (left right : Expression)
  | or (left right : Expression)
  | not (inner : Expression)
  | atom (atom : Atom)
deriving DecidableEq, Repr

namespace Expression

/-- The atoms from left to right. -/
def atoms : Expression → List Atom
  | and l r | or l r => l.atoms ++ r.atoms
  | not e => e.atoms
  | atom a => [a]

/-- The table of the first atom that names one. -/
def firstTable? (e : Expression) : Option String :=
  e.atoms.findSome? Atom.table?

end Expression

end TableQuery
