/-!
# Faults of query text

Every way in which a text fails to be a query. A fault names the rule that the text breaks; the
piece of text it was found in is kept beside it.
-/

namespace TableQuery

/-- A rule of the grammar that a text breaks. -/
inductive GrammarFault where
  -- whole texts and segments
  | unbalanced
  | noOpeningBracket
  | unclosedBracket
  | textBeforeBracket
  | textAfterBracket
  | aggregationTwice
  | projectionTwice
  | badProjection
  -- bindings
  | noBindingName
  | reservedName
  | noBindingKey
  | noEqualsSign
  -- stages
  | noStage
  | badStageName
  | textAfterStageName
  | emptyArgument
  | noArgumentValue
  | textAfterString
  -- strings
  | noString
  | unterminatedString
  -- expressions and atoms
  | emptyExpression
  | noOperand
  | noWhere
  | noTableName
  | badColumnList
  | relationWithColumns
  | noRelatedTable
  | noLiteral
  -- literals
  | emptyLiteral
  | noVariableName
  | noVariableKey
  | noVariableMode
  | unknownVariableMode
  | textInDateBound
  | noBlankBetweenItems
  | caseInList
deriving DecidableEq, Repr

/-- What the fault says. -/
def GrammarFault.message : GrammarFault → String
  | unbalanced => "unbalanced brackets or quotes"
  | noOpeningBracket => "expected '[' to open a query"
  | unclosedBracket => "unclosed '['"
  | textBeforeBracket => "unexpected text before '['"
  | textAfterBracket => "unexpected text after ']'"
  | aggregationTwice => "aggregation given twice"
  | projectionTwice => "projection given both inside and after ']'"
  | badProjection => "invalid projection"
  | noBindingName => "expected a variable name after '$'"
  | reservedName => "reserved variable name"
  | noBindingKey => "expected a key after '.'"
  | noEqualsSign => "expected '=' after variable name"
  | noStage => "expected '@function' after '|'"
  | badStageName => "invalid function name"
  | textAfterStageName => "unexpected text after function name"
  | emptyArgument => "empty function argument"
  | noArgumentValue => "missing argument value"
  | textAfterString => "unexpected text after string"
  | noString => "expected a quoted string"
  | unterminatedString => "unterminated string"
  | emptyExpression => "empty expression"
  | noOperand => "missing operand"
  | noWhere => "expected 'Where'"
  | noTableName => "expected a table name"
  | badColumnList => "invalid column list"
  | relationWithColumns => "relation atoms take no columns"
  | noRelatedTable => "expected a related table name"
  | noLiteral => "expected a value in parentheses"
  | emptyLiteral => "empty value"
  | noVariableName => "expected a variable name after $"
  | noVariableKey => "expected a key after ':'"
  | noVariableMode => "expected '-> ANY|ALL|ONE'"
  | unknownVariableMode => "unknown variable mode"
  | textInDateBound => "unexpected text in date bound"
  | noBlankBetweenItems => "expected whitespace between values"
  | caseInList => "':s' is not supported on list values"

end TableQuery
