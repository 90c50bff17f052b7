import TableQuery.Number.Binary64

/-!
# JSON values

Cells, results, arguments and documents are JSON values. Numbers keep the two kinds that the text
of a document tells apart: an integer, or a finite double. Objects are lists of named fields; the
reader sorts them by name, and a record written with a fixed order of fields is an object too.

The namespace also holds the small operations on fields that rows are handled with: reading one,
and putting one in its place by name.
-/

namespace TableQuery

/-- A number of a document: an integer, or a finite double. -/
inductive Number where
  | int (value : Int)
  | float (value : FiniteDouble)
deriving DecidableEq

/-- A JSON value. -/
inductive Json where
  | null
  | bool (value : Bool)
  | num (value : Number)
  | str (value : String)
  | arr (items : List Json)
  | obj (fields : List (String × Json))

/-! ### Equality -/

mutual

/-- Equality of values is decidable. -/
def Json.decEq : (a b : Json) → Decidable (a = b)
  | .null, .null => isTrue rfl
  | .bool x, .bool y => decidable_of_iff (x = y) (by simp)
  | .num x, .num y => decidable_of_iff (x = y) (by simp)
  | .str x, .str y => decidable_of_iff (x = y) (by simp)
  | .arr xs, .arr ys =>
    match Json.decEqItems xs ys with
    | isTrue h => isTrue (by rw [h])
    | isFalse h => isFalse (by simpa using h)
  | .obj xs, .obj ys =>
    match Json.decEqFields xs ys with
    | isTrue h => isTrue (by rw [h])
    | isFalse h => isFalse (by simpa using h)
  | .null, .bool _ | .null, .num _ | .null, .str _ | .null, .arr _ | .null, .obj _
  | .bool _, .null | .bool _, .num _ | .bool _, .str _ | .bool _, .arr _ | .bool _, .obj _
  | .num _, .null | .num _, .bool _ | .num _, .str _ | .num _, .arr _ | .num _, .obj _
  | .str _, .null | .str _, .bool _ | .str _, .num _ | .str _, .arr _ | .str _, .obj _
  | .arr _, .null | .arr _, .bool _ | .arr _, .num _ | .arr _, .str _ | .arr _, .obj _
  | .obj _, .null | .obj _, .bool _ | .obj _, .num _ | .obj _, .str _ | .obj _, .arr _ =>
    isFalse (by simp)

/-- Equality of lists of values is decidable. -/
def Json.decEqItems : (xs ys : List Json) → Decidable (xs = ys)
  | [], [] => isTrue rfl
  | [], _ :: _ | _ :: _, [] => isFalse (by simp)
  | x :: xs, y :: ys =>
    match Json.decEq x y, Json.decEqItems xs ys with
    | isTrue h, isTrue hs => isTrue (by rw [h, hs])
    | isFalse h, _ => isFalse (by simp [h])
    | _, isFalse hs => isFalse (by simp [hs])

/-- Equality of lists of fields is decidable. -/
def Json.decEqFields : (xs ys : List (String × Json)) → Decidable (xs = ys)
  | [], [] => isTrue rfl
  | [], _ :: _ | _ :: _, [] => isFalse (by simp)
  | (k, x) :: xs, (l, y) :: ys =>
    match (inferInstance : Decidable (k = l)), Json.decEq x y, Json.decEqFields xs ys with
    | isTrue h, isTrue hx, isTrue hs => isTrue (by rw [h, hx, hs])
    | isFalse h, _, _ => isFalse (by simp [h])
    | _, isFalse hx, _ => isFalse (by simp [hx])
    | _, _, isFalse hs => isFalse (by simp [hs])

end

instance : DecidableEq Json := Json.decEq

instance : Inhabited Json := ⟨.null⟩

/-! ### Fields -/

/-- Values by name. -/
abbrev Fields (α : Type) := List (String × α)

/-- A row of a table, and the fields of any object: cells by column name. -/
abbrev Row := Fields Json

namespace Fields

variable {α : Type}

/-- The value under a name. -/
def get? (fields : Fields α) (name : String) : Option α :=
  List.lookup name fields

/-- Puts a value under its name, in the place that keeps the names ascending; a value already
under that name is replaced. -/
def insert (name : String) (value : α) : Fields α → Fields α
  | [] => [(name, value)]
  | (k, v) :: rest =>
    if name < k then (name, value) :: (k, v) :: rest
    else if name = k then (name, value) :: rest
    else (k, v) :: insert name value rest

/-- The fields of a list in which the last value of a name counts. -/
def ofList (entries : List (String × α)) : Fields α :=
  entries.foldl (fun fields e => insert e.1 e.2 fields) []

end Fields

namespace Json

/-- The value is null. -/
def isNull : Json → Bool
  | null => true
  | _ => false

/-- The text of a string value. -/
def str? : Json → Option String
  | str s => some s
  | _ => none

/-- The value of a boolean. -/
def bool? : Json → Option Bool
  | bool b => some b
  | _ => none

/-- The fields of an object. -/
def fields? : Json → Option Row
  | obj fields => some fields
  | _ => none

/-- The items of an array. -/
def items? : Json → Option (List Json)
  | arr items => some items
  | _ => none

/-- A natural number as a value. -/
def ofNat (n : Nat) : Json :=
  .num (.int n)

/-- An array with every item read. -/
def list? {α : Type} (read : Json → Option α) (value : Json) : Option (List α) :=
  value.items?.bind fun items => items.mapM read

/-- Every string of an array of strings. -/
def strings? (value : Json) : Option (List String) :=
  list? str? value

end Json

end TableQuery
