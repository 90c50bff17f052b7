/-!
# Relations

A declared link between two tables: the key columns of the referring table and, position by
position, the columns they match in the table referred to. An atom follows a link in one of two
directions, and `RelationPath` says what that means for the rows at hand: which of their own
columns to read, and which columns of which other table these have to match.
-/

namespace TableQuery

/-- The direction in which an atom follows a declared relation: from the referring table to the
table referred to, or back. -/
inductive Direction where
  | forward
  | backward
deriving DecidableEq, Repr

/-- A declared link from `source` to `target`. -/
structure Relation where
  source : String
  target : String
  sourceKeys : List String
  targetKeys : List String
  isList : Bool := false
deriving DecidableEq, Repr

/-- A link seen from the table whose rows are tested. -/
structure RelationPath where
  localKeys : List String
  remoteTable : String
  remoteKeys : List String
deriving DecidableEq, Repr

/-- The path along a link in a direction. -/
def Relation.path (r : Relation) : Direction → RelationPath
  | .forward => ⟨r.sourceKeys, r.target, r.targetKeys⟩
  | .backward => ⟨r.targetKeys, r.source, r.sourceKeys⟩

end TableQuery
