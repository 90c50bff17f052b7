import TableQuery.Text.Blank
import TableQuery.Text.CaseTable

/-!
# Lower case

The full Unicode lower-case mapping of a text, which case-insensitive matching compares by. Three
rules make it up: the simple mapping of the table; `İ`, which lowers to an `i` followed by a
combining dot; and the capital sigma, which lowers to `ς` at the end of a word and to `σ`
elsewhere.

The end of a word is decided by the two sides of the sigma. Skipping the case-ignorable characters
there must be a cased character before it and none after it. The mapping therefore carries the
text already read, nearest character first.
-/

namespace TableQuery

namespace Text

/-- The simple lower-case mapping of one character. -/
def lowerChar (c : Char) : Char :=
  if c.toNat < 128 then c.toLower
  else match lowercaseRuns.find? fun r => r.covers c.toNat with
    | some r => Char.ofNat (c.toNat + r.shift).toNat
    | none => c

/-- After the case-ignorable characters comes a cased one. -/
def meetsCased (text : List Char) : Bool :=
  match text.dropWhile (fun c => inRanges caseIgnorableRanges c.toNat) with
  | [] => false
  | c :: _ => inRanges casedRanges c.toNat

/-- Lowers `text`, where `before` holds the characters in front of it, nearest first. -/
def lowerFrom (before : List Char) : List Char → List Char
  | [] => []
  | c :: rest =>
    let lowered :=
      if c == 'Σ' then
        [if meetsCased before && !meetsCased rest then 'ς' else 'σ']
      else if c == 'İ' then ['i', '\u0307']
      else [lowerChar c]
    lowered ++ lowerFrom (c :: before) rest

/-- The lower case of a text. -/
def lowercase (text : List Char) : List Char :=
  lowerFrom [] text

end Text

end TableQuery
