import TableQuery.Json.Reader

/-!
# Records in documents

A record of a document is an object with some fields of known names, or an array that gives the
same fields by position. A known field must not be given twice. A field that is not known is passed
over as it is written, whether it denotes a value or not.

A record of a value is closed: it has no fields but the known ones.

What a field may hold is for its own reader to say; the readers of the plain types are here.
-/

namespace TableQuery

namespace Record

/-- The named fields of a record of a document. -/
def fields? (names : List String) : Written → Option (List (Option Written))
  | .array items =>
    if names.length < items.length then none
    else some ((List.range names.length).map fun i => items[i]?)
  | value => do
    let given ← value.fields?
    if names.any fun n => 1 < (given.filter fun f => f.1 == n).length then none
    else some (names.map fun n => given.lookup n)

/-- The named fields of a closed record. -/
def closedFields? (names : List String) (given : Row) : Option (List (Option Json)) :=
  if given.any fun f => !names.contains f.1 then none
  else some (names.map fun n => given.lookup n)

section Fields

variable {σ α : Type}

/-- A field that has to be given. -/
def required? (read : σ → Option α) (field : Option σ) : Option α :=
  field.bind read

/-- A field with a default. -/
def withDefault? (read : σ → Option α) (value : α) : Option σ → Option α
  | none => some value
  | some field => read field

/-- A field that may be null, or absent. -/
def nullable? (read : Written → Option α) : Option Written → Option (Option α)
  | none => some none
  | some .null => some none
  | some field => (read field).map some

end Fields

/-- One of the words of an enumeration: the word itself, or an object that gives it a null. -/
def word? : Written → Option String
  | .string pieces => StringPiece.text? pieces
  | .object [(pieces, .null)] => StringPiece.text? pieces
  | _ => none

/-- One of the words of an enumeration, as a value. -/
def wordValue? : Json → Option String
  | .str s => some s
  | .obj [(s, .null)] => some s
  | _ => none

/-- A natural number of 64 bits. -/
def nat64? : Json → Option Nat
  | .num (.int n) => if 0 ≤ n && n < 2 ^ 64 then some n.toNat else none
  | _ => none

end Record

end TableQuery
