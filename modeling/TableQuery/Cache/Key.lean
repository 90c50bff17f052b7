import TableQuery.Json.Writer
import TableQuery.Query.Document

/-!
# Keys of batches

What a result is remembered under: the text of a document with the statements of the batch and the
tables its caller is allowed. The order in which a caller lists the tables, and how often, does
not count, so they are sorted and each is written once; a caller without a list is not the same as
one with an empty list.
-/

namespace TableQuery

/-- The list in ascending order, each string once. -/
def sortedNames (names : List String) : List String :=
  (names.mergeSort fun a b => decide (a ≤ b)).eraseDups

/-- The document that identifies a batch. -/
def batchDocument (statements : List Statement) (allowed : Option (List String)) : Json :=
  .obj [("statements", .arr (statements.map Statement.toJson)),
    ("allowedTables", Json.orNull (fun names => Json.ofStrings (sortedNames names)) allowed)]

/-- The key of a batch. -/
def batchKey (statements : List Statement) (allowed : Option (List String)) : String :=
  (batchDocument statements allowed).serialize

end TableQuery
