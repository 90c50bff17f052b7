import TableQuery.Text.Search

/-!
# Literals

What stands in the parentheses of a condition: a text to search for, a range of dates, a test for
emptiness, a reference to a variable, or a list of texts. A star at the end of a written text is a
wildcard and says where the text has to stand; `splitWildcards` takes the wildcards off.
-/

namespace TableQuery

/-- How a reference to a variable compares with a cell: some value of the variable is in the cell,
every value is, or the element of the current loop is. -/
inductive VariableMode where
  | any
  | all
  | one
deriving DecidableEq, Repr

/-- The word for a mode. -/
def VariableMode.keyword : VariableMode → String
  | any => "ANY"
  | all => "ALL"
  | one => "ONE"

/-- The part an item plays in a list: it must match, it is one of the items of which one must
match, or it must not match. -/
inductive ItemRole where
  | required
  | alternative
  | excluded
deriving DecidableEq, Repr

/-- An item of a list. Its text keeps its wildcards. -/
structure ListItem where
  role : ItemRole
  text : String
deriving DecidableEq, Repr

/-- The literal of a condition. -/
inductive Literal where
  | text (value : String) (caseSensitive : Bool) (mode : MatchMode)
  | dateRange (lower upper : Option String)
  | empty
  | notEmpty
  | variableRef (name : String) (key : Option String) (mode : VariableMode)
  | list (items : List ListItem)
deriving DecidableEq, Repr

/-- Takes the wildcards off a written text. A star in front lets anything come before the text and
one behind lets anything follow; with both, or with none, the text may stand anywhere. A lone
star is a star in front. -/
def splitWildcards (written : List Char) : MatchMode × List Char :=
  let leading := written.head? == some '*'
  let trailing := decide (1 < written.length) && written.getLast? == some '*'
  match leading, trailing with
  | true, true => (.contains, written.tail.dropLast)
  | true, false => (.endsWith, written.tail)
  | false, true => (.startsWith, written.dropLast)
  | false, false => (.contains, written)

end TableQuery
