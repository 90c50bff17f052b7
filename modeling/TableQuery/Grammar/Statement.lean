import TableQuery.Grammar.Expression
import TableQuery.Number.Decimal
import TableQuery.Query.Statement

/-!
# Reading statements

A text is a row of segments between semicolons, and a blank segment is nothing. A segment may bind
a name, then has one or more parts, each an expression in square brackets, and may end in stages
behind bars. Every part is a statement of its own; the name and the stages belong to the last one.

An aggregation may stand in front of the brackets or first inside them, and a projection right
after that or behind the brackets, but neither of them twice. An aggregation in front belongs to
the first part.
-/

namespace TableQuery

namespace Grammar

open Text

/-! ### Bindings -/

/-- The names that no statement may bind. -/
def reservedNames : List String :=
  ["_prev", "variables", "result"]

/-- The name a segment binds, and the key of a join. -/
structure Binding where
  name : String
  key : Option String
deriving DecidableEq, Repr

/-- The key behind the name of a binding. -/
def readBindingKey (text segment : List Char) : Except Error (Option String × List Char) :=
  match text with
  | '.' :: rest =>
    let (key, rest) := takeName rest
    if key.isEmpty then fail .noBindingKey segment else .ok (some (String.ofList key), rest)
  | _ => .ok (none, text)

/-- Splits a binding off the front of a segment, if a dollar sign announces one. -/
def readBinding (segment : List Char) : Except Error (Option Binding × List Char) :=
  match segment with
  | '$' :: rest => do
    let (name, rest) := takeName rest
    if name.isEmpty then fail .noBindingName segment
    else if reservedNames.contains (String.ofList name) then fail .reservedName name
    else
      let (key, rest) ← readBindingKey rest segment
      match trimStart rest with
      | '=' :: body => return (some ⟨String.ofList name, key⟩, trim body)
      | _ => fail .noEqualsSign segment
  | _ => .ok (none, segment)

/-! ### Stages -/

/-- The value of an argument: a quoted text, a boolean word, an integer of 64 bits, another finite
number, or else a bare text. -/
def readArgumentValue (text : List Char) : Except Error Json :=
  match text with
  | [] => fail .noArgumentValue []
  | '"' :: _ => do
    let (value, rest) ← readQuoted text
    if (trim rest).isEmpty then return .str (String.ofList value) else fail .textAfterString rest
  | _ =>
    if sameIgnoringCase text "true".toList then .ok (.bool true)
    else if sameIgnoringCase text "false".toList then .ok (.bool false)
    else
      match (readInt? text).filter fun n => decide (-(2 ^ 63) ≤ n) && decide (n < 2 ^ 63) with
      | some n => .ok (.num (.int n))
      | none =>
        match (readDouble? text).bind Binary64.finite? with
        | some x => .ok (.num (.float x))
        | none => .ok (.str (String.ofList text))

/-- An argument, by name if an equals sign follows a name. -/
def readArgument (text : List Char) : Except Error Argument :=
  if text.isEmpty then fail .emptyArgument []
  else
    let (name, rest) := takeName text
    match name, trimStart rest with
    | _ :: _, '=' :: value => do
      return ⟨some (String.ofList name), ← readArgumentValue (trim value)⟩
    | _, _ => do return ⟨none, ← readArgumentValue text⟩

/-- A character of the name of a stage, which may have a namespace in front. -/
def isStageNameChar (c : Char) : Bool :=
  isNameChar c || c == '.'

/-- A stage, from the text behind its bar. -/
def readStage (text : List Char) : Except Error StageCall := do
  match trim text with
  | '@' :: rest =>
    let name := rest.takeWhile isStageNameChar
    if name.isEmpty || name.head? == some '.' || name.getLast? == some '.' then
      fail .badStageName (trim text)
    else
      match trim (rest.dropWhile isStageNameChar) with
      | [] => return ⟨String.ofList name, []⟩
      | behind =>
        match unwrapGroup '(' behind with
        | none => fail .textAfterStageName behind
        | some inner =>
          if (trim inner).isEmpty then return ⟨String.ofList name, []⟩
          else
            let arguments ← (splitTop ',' inner).toList.mapM fun a => readArgument (trim a)
            return ⟨String.ofList name, arguments⟩
  | text => fail .noStage text

/-! ### Aggregations and projections -/

/-- Splits an aggregation keyword with its empty parentheses off the front of a text. -/
def splitAggregation (text : List Char) : Option (Aggregation × List Char) :=
  let (word, rest) := takeName text
  match Aggregation.ofKeyword? word, rest with
  | some aggregation, '(' :: ')' :: rest => some (aggregation, trimStart rest)
  | _, _ => none

/-- The aggregation in front of the brackets, or none where there is no text. -/
def readAggregation (text : List Char) : Except Error (Option Aggregation) :=
  if text.isEmpty then .ok none
  else
    match splitAggregation text with
    | some (aggregation, []) => .ok (some aggregation)
    | _ => fail .textBeforeBracket text

/-- What follows a list of columns at the front of a text: after a name the list goes on if a
comma comes next. -/
def afterColumns (text : List Char) : List Char :=
  match _h : trimStart (takeName text).2 with
  | ',' :: next => afterColumns (trimStart next)
  | _ => (takeName text).2
termination_by text.length
decreasing_by
  have h₁ := length_trimStart_le (takeName text).2
  have h₂ := length_dropWhile_le isNameChar text
  have h₃ := length_trimStart_le next
  rw [_h] at h₁
  simp only [List.length_cons, takeName] at h₁
  omega

/-- Splits a projection off the front of a text: a star, or a list of columns. -/
def splitProjection (text : List Char) : List Char × List Char :=
  let rest := match trimStart text with
    | '*' :: rest => rest
    | start => afterColumns start
  (text.take (text.length - rest.length), rest)

/-- A projection: a star, one column, or several. -/
def readProjection (text : List Char) : Except Error Projection :=
  let text := trim text
  if text == ['*'] then .ok .all
  else
    let columns := (splitOn ',' text).toList.map trim
    if columns.all isName then
      match columns with
      | [column] => .ok (.column (String.ofList column))
      | _ => .ok (.columns (columns.map String.ofList))
    else fail .badProjection text

/-! ### Parts and segments -/

/-- The aggregation of a part, in front of its brackets or inside them, and the rest of the
inside. -/
def readInnerAggregation (outer : Option Aggregation) (inner part : List Char) :
    Except Error (Option Aggregation × List Char) :=
  match splitAggregation inner with
  | some (aggregation, rest) =>
    if outer.isSome then fail .aggregationTwice part else .ok (some aggregation, rest)
  | none => .ok (outer, inner)

/-- The projection inside the brackets of a part, and the rest of the inside. -/
def readInnerProjection (inner : List Char) : Except Error (Option Projection × List Char) :=
  match stripKeyword "AS" inner with
  | some rest => do
    let (columns, rest) := splitProjection rest
    return (some (← readProjection columns), rest)
  | none => .ok (none, inner)

/-- The projection of a part, inside its brackets or behind them. -/
def readOuterProjection (inside : Option Projection) (trailing part : List Char) :
    Except Error (Option Projection) :=
  if trailing.isEmpty then .ok inside
  else
    match stripKeyword "AS" trailing with
    | none => fail .textAfterBracket trailing
    | some columns =>
      if inside.isSome then fail .projectionTwice part
      else (readProjection columns).map some

/-- A part, which begins with its bracket, as a statement without name and stages. -/
def readPart (catalog : Catalog) (outer : Option Aggregation) (part : List Char) :
    Except Error Statement := do
  match splitGroup part with
  | none => fail .unclosedBracket part
  | some (inside, behind) =>
    let (aggregation, inner) ← readInnerAggregation outer (trim inside) part
    let (projection, inner) ← readInnerProjection inner
    let projection ← readOuterProjection projection (trim behind) part
    let expression ← readExpression catalog inner
    return { expression, aggregation, projection := projection.getD .identity }

/-- Changes the last statement of a list. -/
def mapLast (f : Statement → Statement) : List Statement → List Statement
  | [] => []
  | [s] => [f s]
  | s :: rest => s :: mapLast f rest

/-- The statements of a segment. -/
def readSegment (catalog : Catalog) (segment : List Char) : Except Error (List Statement) := do
  let (binding, body) ← readBinding segment
  let pieces := splitTop '|' body
  let query := trim pieces.1
  let stages ← pieces.2.mapM readStage
  let (front, parts) := splitParts query
  match parts with
  | [] => fail .noOpeningBracket query
  | first :: rest =>
    let outer ← readAggregation (trim front)
    let first ← readPart catalog outer (trim first)
    let rest ← rest.mapM fun part => readPart catalog none (trim part)
    return mapLast (fun s => { s with
      name := binding.map Binding.name
      targetKey := binding.bind Binding.key
      stages := stages }) (first :: rest)

/-- The statements of a text, given as its characters. -/
def readStatements (catalog : Catalog) (text : List Char) : Except Error (List Statement) := do
  if !isBalanced text then fail .unbalanced text
  else
    let segments := ((splitTop ';' text).toList.map trim).filter fun s => !s.isEmpty
    return (← segments.mapM (readSegment catalog)).flatten

end Grammar

/-- Reads a query text: its statements, in order. -/
def parse (catalog : Catalog) (text : String) : Except Error (List Statement) :=
  Grammar.readStatements catalog text.toList

end TableQuery
