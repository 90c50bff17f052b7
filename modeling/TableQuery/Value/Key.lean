import TableQuery.Json.Writer

/-!
# Keys of values

Values are compared by their *key*, a text that forgets how a value happens to be spelled: `1`,
`1.0` and `"1"` have one key. Two values are loosely equal when their keys are the same, and every
part of the library that joins, looks up or groups values goes by that equality. Removing
duplicates is stricter and goes by the serialized text.
-/

namespace TableQuery

/-- The layout of doubles in keys: never an exponent, and no fraction on a whole number. -/
def plainLayout : FloatLayout where
  positional _ := true
  keepsFraction := false
  ties := .upward

namespace Number

/-- The double nearest to the number. -/
def toBinary64 : Number → Binary64
  | int n => .ofInt n
  | float x => .finite x

/-- The key of a number. A whole double that still tells neighbouring integers apart is written as
that integer. -/
def key : Number → List Char
  | int n => Text.intDigits n
  | float x =>
    match x.safeInt? with
    | some n => Text.intDigits n
    | none => plainLayout.render x

/-- The number as an integer of 64 bits, if it is one; a double never is. -/
def int64? : Number → Option Int
  | int n => if -(2 ^ 63) ≤ n && n < 2 ^ 63 then some n else none
  | float _ => none

/-- A finite double as a number of a document: a whole one below `2^53` is an integer. -/
def ofFinite (x : FiniteDouble) : Number :=
  match x.safeInt? with
  | some n => .int n
  | none => .float x

/-- A double as a number of a document, which only a finite one is. -/
def ofBinary64? (x : Binary64) : Option Number :=
  x.finite?.map ofFinite

end Number

namespace Json

/-- Null, the empty string, the empty array and the empty object are empty, and so is a cell that
is not there. -/
def isEmptyCell : Option Json → Bool
  | none => true
  | some null => true
  | some (str s) => s.isEmpty
  | some (arr items) => items.isEmpty
  | some (obj fields) => fields.isEmpty
  | some _ => false

/-- The key of a value: strings verbatim, scalars in plain digits and words, everything else
serialized. -/
def key : Json → String
  | null => "null"
  | bool true => "true"
  | bool false => "false"
  | num n => String.ofList n.key
  | str s => s
  | value => value.serialize

/-- Loose equality: one key. -/
def looseEq (a b : Json) : Bool :=
  a.key == b.key

/-- The text that a value is searched in. It is its key, but null has none. -/
def searchText : Json → String
  | null => ""
  | value => value.key

/-- What a condition looks at: the items of an array, or else the value itself. -/
def elements : Json → List Json
  | arr items => items
  | value => [value]

/-- Keeps the first of the values that a key function does not tell apart. -/
def firstBy {α κ : Type} [BEq κ] (keyOf : α → κ) (seen : List κ) : List α → List α
  | [] => []
  | x :: xs =>
    if seen.contains (keyOf x) then firstBy keyOf seen xs
    else x :: firstBy keyOf (keyOf x :: seen) xs

/-- The list without repeated values, in the order of their first occurrences. -/
def distinct (values : List Json) : List Json :=
  firstBy serialize [] values

end Json

end TableQuery
