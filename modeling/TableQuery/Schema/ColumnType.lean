/-!
# Column types

The semantic type of a column. It decides how a literal is compared with a cell, and which
conditions a store can be asked to test by itself.
-/

namespace TableQuery

/-- The semantic type of a column. -/
inductive ColumnType where
  | string
  | number
  | boolean
  | date
  | json
  | uuid
  | bigInt
  | stringArray
  | numberArray
  | jsonArray
deriving DecidableEq, Repr

namespace ColumnType

/-- The name of the type in a catalog. -/
def name : ColumnType → String
  | string => "string"
  | number => "number"
  | boolean => "boolean"
  | date => "date"
  | json => "json"
  | uuid => "uuid"
  | bigInt => "big_int"
  | stringArray => "string_array"
  | numberArray => "number_array"
  | jsonArray => "json_array"

/-- The type of a name; big integers and arrays have a second name each. -/
def ofName? : String → Option ColumnType
  | "string" => some string
  | "number" => some number
  | "boolean" => some boolean
  | "date" => some date
  | "json" => some json
  | "uuid" => some uuid
  | "big_int" | "bigint" => some bigInt
  | "string_array" | "string[]" => some stringArray
  | "number_array" | "number[]" => some numberArray
  | "json_array" | "json[]" => some jsonArray
  | _ => none

theorem ofName?_name (t : ColumnType) : ofName? t.name = some t := by
  cases t <;> rfl

/-- Cells of the column are arrays. -/
def isArray : ColumnType → Bool
  | stringArray | numberArray | jsonArray => true
  | _ => false

/-- A store can search the cells for a text. -/
def supportsText : ColumnType → Bool
  | string => true
  | _ => false

/-- A store can test the cells for one value. -/
def supportsExact : ColumnType → Bool
  | number | boolean | date | bigInt => true
  | _ => false

/-- A store can test the cells for a range. -/
def supportsRange : ColumnType → Bool
  | date => true
  | _ => false

/-- The type of the elements of an array column; any other type is its own. -/
def element : ColumnType → ColumnType
  | stringArray => string
  | numberArray => number
  | jsonArray => json
  | type => type

end ColumnType

end TableQuery
