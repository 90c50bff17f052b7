import TableQuery.Json.Basic
import TableQuery.Number.Shortest

/-!
# Writing JSON

The compact text of a value: no blanks, fields in the order of the object, and inside strings an
escape only where the format demands one. Integers are written in full. Doubles have their
shortest digits, positionally from `1e-5` up to `1e16` and with a signed exponent beyond, and a
whole double keeps a fraction, so no double is ever written like an integer.
-/

namespace TableQuery

namespace Json

/-! ### Scalars -/

/-- Doubles in a document. -/
def floatLayout : FloatLayout where
  positional e := decide (-5 ≤ e) && decide (e < 16)
  keepsFraction := true
  ties := .toEven

/-- The text of a number. -/
def renderNumber : Number → List Char
  | .int n => Text.intDigits n
  | .float x => floatLayout.render x

/-- A hexadecimal digit in lower case. -/
def hexDigit (n : Nat) : Char :=
  Nat.digitChar n

/-- A character inside a string: the quote, the backslash and the control characters are escaped,
the control characters by a short escape where there is one. -/
def escapeChar (c : Char) : List Char :=
  if c == '"' then ['\\', '"']
  else if c == '\\' then ['\\', '\\']
  else if c == '\x08' then ['\\', 'b']
  else if c == '\t' then ['\\', 't']
  else if c == '\n' then ['\\', 'n']
  else if c == '\x0c' then ['\\', 'f']
  else if c == '\r' then ['\\', 'r']
  else if c.toNat < 0x20 then
    ['\\', 'u', '0', '0', hexDigit (c.toNat / 16), hexDigit (c.toNat % 16)]
  else [c]

/-- A string between quotes. -/
def renderString (s : String) : List Char :=
  '"' :: s.toList.flatMap escapeChar ++ ['"']

/-! ### Values -/

mutual

/-- The compact text of a value. -/
def render : Json → List Char
  | null => "null".toList
  | bool true => "true".toList
  | bool false => "false".toList
  | num n => renderNumber n
  | str s => renderString s
  | arr items => '[' :: renderItems items ++ [']']
  | obj fields => '{' :: renderFields fields ++ ['}']

/-- The items of an array, with commas between them. -/
def renderItems : List Json → List Char
  | [] => []
  | x :: xs => render x ++ renderMoreItems xs

/-- The items of an array after its first. -/
def renderMoreItems : List Json → List Char
  | [] => []
  | x :: xs => ',' :: render x ++ renderMoreItems xs

/-- The fields of an object, with commas between them. -/
def renderFields : List (String × Json) → List Char
  | [] => []
  | (k, x) :: xs => renderString k ++ ':' :: render x ++ renderMoreFields xs

/-- The fields of an object after its first. -/
def renderMoreFields : List (String × Json) → List Char
  | [] => []
  | (k, x) :: xs => ',' :: renderString k ++ ':' :: render x ++ renderMoreFields xs

end

/-- The compact text of a value, as a string. -/
def serialize (value : Json) : String :=
  String.ofList value.render

end Json

end TableQuery
