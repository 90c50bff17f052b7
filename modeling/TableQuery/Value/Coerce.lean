import TableQuery.Calendar.Reader
import TableQuery.Value.Key

/-!
# Coercions

How a literal or a cell is read as the type of a column. Each type has two readings: one of a
text, for literals, and one of a value, for cells; a cell that is a string is read like a literal,
with the one exception that a cell may be an infinite number or not a number.
-/

namespace TableQuery

namespace Text

/-- A finite number. -/
def number? (text : String) : Option FiniteDouble :=
  (readDouble? (trim text.toList)).bind Binary64.finite?

/-- An integer of 128 bits. -/
def bigInt? (text : String) : Option Int :=
  (readInt? (trim text.toList)).filter fun n => decide (-(2 ^ 127) ≤ n) && decide (n < 2 ^ 127)

/-- `true` and `false` in any case, and the digits `1` and `0`. -/
def bool? (text : String) : Option Bool :=
  let word := String.ofList (lowerAscii (trim text.toList))
  if word == "true" || word == "1" then some true
  else if word == "false" || word == "0" then some false
  else none

/-- A date as a lower bound. -/
def date? (text : String) : Option Int :=
  Calendar.readDate? text.toList

/-- A date as an upper bound. -/
def upperDate? (text : String) : Option Int :=
  Calendar.readUpperDate? text.toList

end Text

namespace Json

/-- A number, or a string that reads as one. -/
def number? : Json → Option Binary64
  | num n => some n.toBinary64
  | str s => Text.readDouble? (Text.trim s.toList)
  | _ => none

/-- An integer, or a string that reads as one. -/
def bigInt? : Json → Option Int
  | num (.int n) => some n
  | str s => Text.bigInt? s
  | _ => none

/-- A boolean, a string that reads as one, or one of the integers `1` and `0`. -/
def boolean? : Json → Option Bool
  | bool b => some b
  | str s => Text.bool? s
  | num (.int 1) => some true
  | num (.int 0) => some false
  | _ => none

/-- A date written as a string, or a number of milliseconds. -/
def date? : Json → Option Int
  | str s => Text.date? s
  | num n => n.int64?
  | _ => none

end Json

end TableQuery
