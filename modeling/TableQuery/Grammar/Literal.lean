import TableQuery.Grammar.Quoted
import TableQuery.Grammar.Scan
import TableQuery.Query.Literal

/-!
# Reading literals

The text in the parentheses of a condition. The forms are tried in a fixed order: the words for
emptiness, a reference to a variable, a range with two dots at the top level, quoted texts, and
last a bare text, which is anything else that is not blank.
-/

namespace TableQuery

namespace Grammar

open Text

/-! ### Variables -/

/-- The mode of a reference. -/
def readMode (text whole : List Char) : Except Error VariableMode :=
  match text with
  | [] => .ok .any
  | '-' :: '>' :: rest =>
    let word := trim rest
    if sameIgnoringCase word "ANY".toList then .ok .any
    else if sameIgnoringCase word "ALL".toList then .ok .all
    else if sameIgnoringCase word "ONE".toList then .ok .one
    else fail .unknownVariableMode word
  | _ => fail .noVariableMode whole

/-- The key of a reference and what follows it. -/
def readKey (text whole : List Char) : Except Error (Option String × List Char) :=
  match text with
  | ':' :: rest =>
    let (key, rest) := takeName rest
    if key.isEmpty then fail .noVariableKey whole else .ok (some (String.ofList key), rest)
  | _ => .ok (none, text)

/-- A reference to a variable, after its dollar sign; `whole` is the literal. -/
def readVariable (text whole : List Char) : Except Error Literal := do
  let (name, rest) := takeName text
  if name.isEmpty then fail .noVariableName whole
  else
    let (key, rest) ← readKey rest whole
    let mode ← readMode (trim rest) whole
    return .variableRef (String.ofList name) key mode

/-! ### Ranges -/

/-- Cuts at the first two dots in a row at the top level. -/
def splitRangeFrom (s : Scan) : List Char → Option (List Char × List Char)
  | [] => none
  | c :: cs =>
    if s.atTop && c == '.' && cs.head? == some '.' then some ([], cs.tail)
    else (splitRangeFrom (s.step c) cs).map fun r => (c :: r.1, r.2)

/-- A bound of a range: nothing, a quoted text, or a bare one. -/
def readBound (text : List Char) : Except Error (Option String) := do
  let text := trim text
  match text with
  | [] => return none
  | '"' :: _ =>
    let (value, rest) ← readQuoted text
    if (trim rest).isEmpty then return some (String.ofList value)
    else fail .textInDateBound rest
  | _ => return some (String.ofList text)

/-! ### Texts and lists -/

/-- The literal of one written text. -/
def textLiteral (written : List Char) (caseSensitive : Bool) : Literal :=
  let (mode, value) := splitWildcards written
  .text (String.ofList value) caseSensitive mode

/-- The item of a written text: a tilde in front marks an alternative, a dash an exclusion. -/
def listItem : List Char → ListItem
  | '~' :: text => ⟨.alternative, String.ofList text⟩
  | '-' :: text => ⟨.excluded, String.ofList text⟩
  | text => ⟨.required, String.ofList text⟩

/-- What follows a mark that makes case count, and whether there was one. -/
def stripCaseMark : List Char → Bool × List Char
  | ':' :: 's' :: rest | ':' :: 'S' :: rest => (true, rest)
  | text => (false, text)

theorem length_stripCaseMark (text : List Char) :
    (stripCaseMark text).2.length ≤ text.length := by
  unfold stripCaseMark
  split <;> simp only [List.length_cons] <;> omega

/-- Quoted texts with blanks between them, and whether some text was marked to make case count. -/
def readItems (text : List Char) : Except Error (List (List Char) × Bool) :=
  match text with
  | [] => .ok ([], false)
  | c :: cs =>
    match _h : readQuoted (c :: cs) with
    | .error e => .error e
    | .ok (item, after) =>
      let rest := (stripCaseMark after).2
      let trimmed := trimStart rest
      if !trimmed.isEmpty && trimmed.length == rest.length then fail .noBlankBetweenItems rest
      else
        match readItems trimmed with
        | .error e => .error e
        | .ok (items, marked) => .ok (item :: items, (stripCaseMark after).1 || marked)
termination_by text.length
decreasing_by
  have h₁ := length_readQuoted _h
  have h₂ := length_stripCaseMark after
  have h₃ := length_trimStart_le (stripCaseMark after).2
  simp only at h₁
  omega

/-- One quoted text, which may be marked to make case count, or a list of them. -/
def readQuotedLiteral (text : List Char) : Except Error Literal := do
  let (items, marked) ← readItems text
  match items with
  | [item] => return textLiteral item marked
  | _ =>
    if marked then fail .caseInList text
    else return .list (items.map listItem)

/-! ### All forms -/

/-- A literal, from the text between the parentheses. -/
def readLiteral (inner : List Char) : Except Error Literal := do
  let text := trim inner
  if sameIgnoringCase text "EMPTY".toList then return .empty
  else if (stripKeyword "NOT" text).any fun rest => sameIgnoringCase (trim rest) "EMPTY".toList then
    return .notEmpty
  else
    match text with
    | '$' :: rest => readVariable rest text
    | _ =>
      match splitRangeFrom {} text with
      | some (lower, upper) => return .dateRange (← readBound lower) (← readBound upper)
      | none =>
        match text with
        | [] => fail .emptyLiteral inner
        | '"' :: _ => readQuotedLiteral text
        | _ => return textLiteral text false

end Grammar

end TableQuery
