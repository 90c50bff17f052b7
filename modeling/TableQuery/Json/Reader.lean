import TableQuery.Json.Basic
import TableQuery.Json.Written

/-!
# Reading JSON

What a written value denotes. A number without a point and an exponent is an integer if it lies in
the range of 64-bit integers, signed or unsigned, and a double otherwise; a minus zero is a double.
The two halves of a surrogate pair are one character. An object has its fields sorted, the last of
each name kept.

Not everything that is written denotes a value. A double too large to be finite does not, nor does
a string with a surrogate alone, nor containers nested more than 127 deep. `Json.read?` refuses a
text that holds any of these anywhere.
-/

namespace TableQuery

/-! ### Numbers -/

namespace NumberToken

/-- An integer has a value of its own if it fits 64 bits. -/
def fitsWord (n : Int) : Bool :=
  decide (-(2 ^ 63) ≤ n) && decide (n < 2 ^ 64)

/-- The number of a token. -/
def value? (t : NumberToken) : Option Number :=
  let n : Int := if t.negative then -(Text.digitsValue t.whole) else Text.digitsValue t.whole
  if t.fraction.isEmpty && t.exponent.isNone && fitsWord n && !(t.negative && n == 0) then
    some (.int n)
  else
    (Decimal.ofDigits t.negative t.whole t.fraction (t.exponent.getD 0)).toBinary64.finite?.map
      .float

end NumberToken

/-! ### Strings -/

namespace StringPiece

/-- A code unit that has to be followed by another one. -/
def isHighSurrogate (n : Nat) : Bool :=
  decide (0xD800 ≤ n) && decide (n < 0xDC00)

/-- A code unit that has to follow another one. -/
def isLowSurrogate (n : Nat) : Bool :=
  decide (0xDC00 ≤ n) && decide (n < 0xE000)

/-- The character of a surrogate pair. -/
def ofSurrogates (high low : Nat) : Char :=
  Char.ofNat (0x10000 + (high - 0xD800) * 0x400 + (low - 0xDC00))

/-- The characters of the pieces. A surrogate escape counts only in a pair. -/
def chars? : List StringPiece → Option (List Char)
  | [] => some []
  | .char c :: rest => (chars? rest).map (c :: ·)
  | .unit n :: rest =>
    if isHighSurrogate n then
      match rest with
      | .unit m :: rest =>
        if isLowSurrogate m then (chars? rest).map (ofSurrogates n m :: ·) else none
      | _ => none
    else if isLowSurrogate n then none
    else (chars? rest).map (Char.ofNat n :: ·)

/-- The text of the pieces. -/
def text? (pieces : List StringPiece) : Option String :=
  (chars? pieces).map String.ofList

end StringPiece

/-! ### Values -/

namespace Written

mutual

/-- The value of what is written, its containers nested at most `depth` deep. -/
def value? : (depth : Nat) → Written → Option Json
  | _, null => some .null
  | _, bool b => some (.bool b)
  | _, number t => t.value?.map .num
  | _, string pieces => (StringPiece.text? pieces).map .str
  | 0, array _ | 0, object _ => none
  | depth + 1, array items => (values? depth items).map .arr
  | depth + 1, object fields => (fieldValues? depth fields).map fun r => .obj (Fields.ofList r)

/-- The values of the items of an array. -/
def values? : (depth : Nat) → List Written → Option (List Json)
  | _, [] => some []
  | depth, x :: xs => do
    let x ← value? depth x
    let xs ← values? depth xs
    some (x :: xs)

/-- The names and values of the fields of an object, in their order. -/
def fieldValues? : (depth : Nat) → List (List StringPiece × Written) →
    Option (List (String × Json))
  | _, [] => some []
  | depth, (k, x) :: xs => do
    let k ← StringPiece.text? k
    let x ← value? depth x
    let xs ← fieldValues? depth xs
    some ((k, x) :: xs)

end

/-! ### Parts of a document -/

/-- The text of a string. -/
def str? : Written → Option String
  | string pieces => StringPiece.text? pieces
  | _ => none

/-- The value of a boolean. -/
def bool? : Written → Option Bool
  | bool b => some b
  | _ => none

/-- The items of an array. -/
def items? : Written → Option (List Written)
  | array items => some items
  | _ => none

/-- The fields of an object in their order. Every name has to denote a text, also that of a field
nobody asks for. -/
def fields? : Written → Option (List (String × Written))
  | object fields => fields.mapM fun f => (StringPiece.text? f.1).map fun k => (k, f.2)
  | _ => none

/-- An array with every item read. -/
def list? {α : Type} (read : Written → Option α) (value : Written) : Option (List α) :=
  value.items?.bind fun items => items.mapM read

/-- Every string of an array of strings. -/
def strings? (value : Written) : Option (List String) :=
  list? str? value

end Written

/-- The deepest nesting of containers in a value. -/
def Json.maxDepth : Nat := 127

/-- The value that a text denotes. -/
def Json.read? (text : String) : Option Json :=
  (Written.ofText? text).bind (Written.value? Json.maxDepth)

end TableQuery
