import TableQuery.Grammar.Quoted
import TableQuery.Json.Writer
import TableQuery.Query.Statement

/-!
# Printing statements

The written form of a statement, which reads back as the same statement. Texts are quoted, and the
wildcards of their mode are put back on; parentheses stand around an operand only where reading
would group it otherwise, which is around every negation, around a disjunction under an `AND`, and
around any compound operand on the right of a connective that associates to the left.
-/

namespace TableQuery

open Grammar (writeQuoted)

/-- Texts with a separator between them. -/
def joinTexts (separator : List Char) : List (List Char) → List Char
  | [] => []
  | [t] => t
  | t :: ts => t ++ separator ++ joinTexts separator ts

/-- Names with commas between them. -/
def joinNames (names : List String) : List Char :=
  joinTexts [','] (names.map String.toList)

/-! ### Literals -/

/-- Puts the wildcards of a mode on a text. A text that may stand anywhere needs them only if it
has a star of its own at an end. -/
def joinWildcards (mode : MatchMode) (text : List Char) : List Char :=
  match mode with
  | .contains =>
    if text.head? == some '*' || text.getLast? == some '*' then '*' :: text ++ ['*'] else text
  | .startsWith => text ++ ['*']
  | .endsWith => '*' :: text

/-- The mark in front of an item of a list. -/
def ItemRole.mark : ItemRole → List Char
  | required => []
  | alternative => ['~']
  | excluded => ['-']

namespace Literal

/-- An optional bound of a range. -/
def renderBound : Option String → List Char
  | some bound => writeQuoted bound.toList
  | none => []

/-- The written literal without its parentheses. -/
def renderInner : Literal → List Char
  | text value caseSensitive mode =>
    writeQuoted (joinWildcards mode value.toList) ++ (if caseSensitive then [':', 's'] else [])
  | dateRange lower upper => renderBound lower ++ ['.', '.'] ++ renderBound upper
  | empty => "EMPTY".toList
  | notEmpty => "NOT EMPTY".toList
  | variableRef name key mode =>
    '$' :: name.toList ++ (key.map fun k => ':' :: k.toList).getD [] ++ " -> ".toList ++
      mode.keyword.toList
  | list items =>
    joinTexts [' '] (items.map fun item => writeQuoted (item.role.mark ++ item.text.toList))

/-- The written literal. -/
def render (l : Literal) : List Char :=
  '(' :: l.renderInner ++ [')']

end Literal

/-! ### Expressions -/

/-- The arrow of a direction. -/
def Direction.arrow : Direction → List Char
  | forward => ['-', '>']
  | backward => ['<', '-']

namespace Atom

/-- The written atom. -/
def render : Atom → List Char
  | condition table columns literal =>
    "Where ".toList ++ table.toList ++ (columns.map fun cs => ':' :: joinNames cs).getD [] ++
      ' ' :: literal.render
  | relation direction source target =>
    "Where ".toList ++ source.toList ++ ' ' :: direction.arrow ++ ' ' :: target.toList
  | never => "Where ()".toList

end Atom

namespace Expression

/-- A negation. -/
def isNot : Expression → Bool
  | not _ => true
  | _ => false

/-- A disjunction. -/
def isOr : Expression → Bool
  | or .. => true
  | _ => false

/-- An atom. -/
def isAtom : Expression → Bool
  | atom _ => true
  | _ => false

/-- Puts parentheses around an operand that needs them. -/
def wrap (needed : Bool) (operand : List Char) : List Char :=
  if needed then '(' :: operand ++ [')'] else operand

/-- The written expression. -/
def render : Expression → List Char
  | or l r => wrap l.isNot l.render ++ " OR ".toList ++ wrap (r.isOr || r.isNot) r.render
  | and l r => wrap (l.isOr || l.isNot) l.render ++ " AND ".toList ++ wrap (!r.isAtom) r.render
  | not e => "NOT ".toList ++ e.render
  | atom a => a.render

end Expression

/-! ### Statements -/

/-- The written argument: strings are quoted, anything else is its text as a document. -/
def Argument.render (a : Argument) : List Char :=
  (a.name.map fun n => n.toList ++ ['=']).getD [] ++
    match a.value with
    | .str s => writeQuoted s.toList
    | value => value.render

/-- The written stage, behind its bar. -/
def StageCall.render (s : StageCall) : List Char :=
  " | @".toList ++ s.name.toList ++
    match s.arguments with
    | [] => []
    | arguments => '(' :: joinTexts [',', ' '] (arguments.map Argument.render) ++ [')']

/-- The written projection, behind the brackets. -/
def Projection.render : Projection → List Char
  | identity => []
  | column name => " AS ".toList ++ name.toList
  | columns names => " AS ".toList ++ joinNames names
  | all => " AS *".toList

namespace Statement

/-- The written binding in front of a statement. -/
def renderBinding (s : Statement) : List Char :=
  match s.name with
  | some name =>
    '$' :: name.toList ++ (s.targetKey.map fun k => '.' :: k.toList).getD [] ++ " = ".toList
  | none => []

/-- The written statement. -/
def render (s : Statement) : List Char :=
  s.renderBinding ++ '[' :: (s.aggregation.map fun a => a.keyword.toList ++ "() ".toList).getD [] ++
    s.expression.render ++ ']' :: s.projection.render ++ s.stages.flatMap StageCall.render

end Statement

/-- The written statements, with semicolons between them. -/
def printStatements (statements : List Statement) : String :=
  String.ofList (joinTexts [';', ' '] (statements.map Statement.render))

end TableQuery
