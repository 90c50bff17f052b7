import TableQuery.Number.Decimal

/-!
# JSON as it is written

The grammar of JSON apart from what a text denotes. A `Written` value keeps each number as its
digits, each `\u` escape as the code unit it names, and the fields of every object in the order of
the text, repeated ones included. So a text can have the form of JSON and still denote nothing: its
numbers may be too large for a double, its surrogates may stand alone, and its containers may be
nested to any depth.

The distinction is there for documents, whose readers pass over the fields they do not know. Such a
field only has to have the form of JSON. What is asked of a value that is read is in the module on
reading.
-/

namespace TableQuery

/-- A number as it is written: a sign, a whole part, and perhaps a fraction and an exponent. -/
structure NumberToken where
  negative : Bool
  whole : List Char
  fraction : List Char
  exponent : Option Int

/-- A piece of a string as it is written: a character, or the code unit that an escape names. -/
inductive StringPiece where
  | char (c : Char)
  | unit (n : Nat)

/-- A JSON value as it is written. -/
inductive Written where
  | null
  | bool (value : Bool)
  | number (token : NumberToken)
  | string (pieces : List StringPiece)
  | array (items : List Written)
  | object (fields : List (List StringPiece × Written))

namespace Written

/-! ### Blanks and words -/

/-- The blanks between tokens. -/
def isSpace (c : Char) : Bool :=
  c == ' ' || c == '\t' || c == '\n' || c == '\r'

/-- The text without the blanks in front of it. -/
def skipSpace (text : List Char) : List Char :=
  text.dropWhile isSpace

/-- What follows a fixed word. -/
def dropWord? : (word text : List Char) → Option (List Char)
  | [], text => some text
  | _ :: _, [] => none
  | w :: ws, c :: cs => if w == c then dropWord? ws cs else none

/-! ### Numbers -/

/-- The fraction after a whole part: a point has at least one digit behind it. -/
def readFraction? : List Char → Option (List Char × List Char)
  | '.' :: rest =>
    let (digits, rest) := Text.takeDigits rest
    if digits.isEmpty then none else some (digits, rest)
  | rest => some ([], rest)

/-- The exponent after a number: a mark has at least one digit behind its sign. -/
def readExponent? : List Char → Option (Option Int × List Char)
  | c :: rest =>
    if c == 'e' || c == 'E' then
      let (negative, rest) := Text.takeSign rest
      let (digits, rest) := Text.takeDigits rest
      if digits.isEmpty then none
      else
        let n : Int := Text.digitsValue digits
        some (some (if negative then -n else n), rest)
    else some (none, c :: rest)
  | [] => some (none, [])

/-- A number token. A whole part of several digits does not start with a zero. -/
def readNumber? (text : List Char) : Option (NumberToken × List Char) := do
  let (negative, rest) := match text with
    | '-' :: rest => (true, rest)
    | _ => (false, text)
  let (whole, rest) := Text.takeDigits rest
  if whole.isEmpty || (whole.length > 1 && whole.head? == some '0') then none
  else
    let (fraction, rest) ← readFraction? rest
    let (exponent, rest) ← readExponent? rest
    some (⟨negative, whole, fraction, exponent⟩, rest)

/-! ### Strings -/

/-- The value of a hexadecimal digit. -/
def hexValue? (c : Char) : Option Nat :=
  if c.isDigit then some (c.toNat - '0'.toNat)
  else if 'a' ≤ c && c ≤ 'f' then some (c.toNat - 'a'.toNat + 10)
  else if 'A' ≤ c && c ≤ 'F' then some (c.toNat - 'A'.toNat + 10)
  else none

/-- A code unit of four hexadecimal digits. -/
def readUnit? : List Char → Option (Nat × List Char)
  | a :: b :: c :: d :: rest => do
    let a ← hexValue? a
    let b ← hexValue? b
    let c ← hexValue? c
    let d ← hexValue? d
    some (((a * 16 + b) * 16 + c) * 16 + d, rest)
  | _ => none

/-- The character of a one-letter escape. -/
def escaped? (c : Char) : Option Char :=
  match c with
  | '"' => some '"'
  | '\\' => some '\\'
  | '/' => some '/'
  | 'b' => some '\x08'
  | 'f' => some '\x0c'
  | 'n' => some '\n'
  | 'r' => some '\r'
  | 't' => some '\t'
  | _ => none

/-- The rest of a string after its opening quote: its pieces and what follows the closing quote. A
control character has to be escaped. The fuel bounds the number of pieces. -/
def readStringTail? : Nat → List Char → Option (List StringPiece × List Char)
  | 0, _ | _, [] => none
  | fuel + 1, c :: rest =>
    if c == '"' then some ([], rest)
    else if c == '\\' then
      match rest with
      | 'u' :: rest => do
        let (n, rest) ← readUnit? rest
        let (pieces, rest) ← readStringTail? fuel rest
        some (.unit n :: pieces, rest)
      | e :: rest => do
        let c ← escaped? e
        let (pieces, rest) ← readStringTail? fuel rest
        some (.char c :: pieces, rest)
      | [] => none
    else if c.toNat < 0x20 then none
    else do
      let (pieces, rest) ← readStringTail? fuel rest
      some (.char c :: pieces, rest)

/-- A string token. -/
def readString? : List Char → Option (List StringPiece × List Char)
  | '"' :: rest => readStringTail? rest.length rest
  | _ => none

/-! ### Values -/

mutual

/-- A value and what follows it. -/
def readValue? : (fuel : Nat) → List Char → Option (Written × List Char)
  | 0, _ => none
  | fuel + 1, text =>
    match skipSpace text with
    | [] => none
    | '"' :: rest => (readString? ('"' :: rest)).map fun r => (string r.1, r.2)
    | '[' :: rest =>
      match skipSpace rest with
      | ']' :: rest => some (array [], rest)
      | rest => (readItems? fuel rest).map fun r => (array r.1, r.2)
    | '{' :: rest =>
      match skipSpace rest with
      | '}' :: rest => some (object [], rest)
      | rest => (readFields? fuel rest).map fun r => (object r.1, r.2)
    | 'n' :: rest => (dropWord? "ull".toList rest).map fun r => (null, r)
    | 't' :: rest => (dropWord? "rue".toList rest).map fun r => (bool true, r)
    | 'f' :: rest => (dropWord? "alse".toList rest).map fun r => (bool false, r)
    | text => (readNumber? text).map fun r => (number r.1, r.2)

/-- The items of an array up to its closing bracket. -/
def readItems? : (fuel : Nat) → List Char → Option (List Written × List Char)
  | 0, _ => none
  | fuel + 1, text => do
    let (x, rest) ← readValue? fuel text
    match skipSpace rest with
    | ',' :: rest => do
      let (xs, rest) ← readItems? fuel rest
      some (x :: xs, rest)
    | ']' :: rest => some ([x], rest)
    | _ => none

/-- The fields of an object up to its closing brace. -/
def readFields? : (fuel : Nat) → List Char →
    Option (List (List StringPiece × Written) × List Char)
  | 0, _ => none
  | fuel + 1, text => do
    let (k, rest) ← readString? (skipSpace text)
    match skipSpace rest with
    | ':' :: rest => do
      let (x, rest) ← readValue? fuel rest
      match skipSpace rest with
      | ',' :: rest => do
        let (xs, rest) ← readFields? fuel rest
        some ((k, x) :: xs, rest)
      | '}' :: rest => some ([(k, x)], rest)
      | _ => none
    | _ => none

end

/-- The written value of a whole text. -/
def ofText? (text : String) : Option Written := do
  let chars := text.toList
  let (value, rest) ← readValue? (2 * chars.length + 2) chars
  if (skipSpace rest).isEmpty then some value else none

end Written

end TableQuery
