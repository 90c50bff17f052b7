import TableQuery.Execution.Context
import TableQuery.Execution.Relations
import TableQuery.Value.Coerce

/-!
# Testing rows

An expression becomes a test of rows once the table, the variables and the looked-up relations are
known. Compiling it can fail, because a column or a variable may be missing; the test itself never
fails, and what cannot be compared is false.

A condition holds if some of its columns passes a `CellTest`. A test looks at the elements of a
cell, those of an array or the cell itself, and a cell that is missing or null passes no test but
the one for emptiness.
-/

namespace TableQuery

/-! ### Texts -/

/-- A text to look for. -/
structure TextTest where
  text : String
  caseSensitive : Bool
  mode : MatchMode
deriving DecidableEq, Repr

namespace TextTest

/-- The search for the text in the text of a value. -/
def matchesText (t : TextTest) (value : Json) : Bool :=
  t.mode.findsFolded (!t.caseSensitive) t.text.toList value.searchText.toList

/-- The day of the text, from its first to its last millisecond, or its instant. -/
def day? (t : TextTest) : Option (Int × Int) := do
  return (← Text.date? t.text, ← Text.upperDate? t.text)

/-- Two readings are both there, and related. -/
def both {α β : Type} (related : α → β → Bool) : Option α → Option β → Bool
  | some a, some b => related a b
  | _, _ => false

/-- Whether a value of a type is what the text says. A text without wildcards is compared exactly
where the type has values to compare; anything else is a search. -/
def accepts (t : TextTest) (type : ColumnType) (value : Json) : Bool :=
  match t.mode, type with
  | .contains, .number =>
    both (fun x y => y.equals (.finite x)) (Text.number? t.text) value.number?
  | .contains, .bigInt => both (· == ·) (Text.bigInt? t.text) value.bigInt?
  | .contains, .boolean => both (· == ·) (Text.bool? t.text) value.boolean?
  | .contains, .date =>
    both (fun (d : Int × Int) ms => decide (d.1 ≤ ms) && decide (ms ≤ d.2)) t.day? value.date?
  | .contains, .uuid => Text.sameIgnoringCase value.searchText.toList t.text.toList
  | _, _ => t.matchesText value

/-- The test for an item of a list. -/
def ofItem (item : ListItem) : TextTest :=
  let (mode, text) := splitWildcards item.text.toList
  ⟨String.ofList text, false, mode⟩

end TextTest

/-! ### Cells -/

/-- A test of one cell. -/
inductive CellTest where
  | text (test : TextTest)
  | range (lower upper : Option Int)
  | empty
  | notEmpty
  /-- Some element has one of the keys. -/
  | anyKey (keys : List String)
  /-- Every key is that of an element. -/
  | allKeys (keys : List String)
  | list (items : List ListItem)
deriving DecidableEq, Repr

/-- The items of a list that play a part. -/
def itemsOf (items : List ListItem) (role : ItemRole) : List TextTest :=
  (items.filter fun item => item.role == role).map TextTest.ofItem

/-- Every required item is found, some alternative is where there are any, and no excluded item
is. -/
def listAccepts (items : List ListItem) (type : ColumnType) (elements : List Json) : Bool :=
  let found := fun (t : TextTest) => elements.any (t.accepts type)
  (itemsOf items .required).all found &&
    ((itemsOf items .alternative).isEmpty || (itemsOf items .alternative).any found) &&
    !(itemsOf items .excluded).any found

namespace CellTest

/-- A test of the elements of a cell that is not null. -/
def acceptsValue (test : CellTest) (type : ColumnType) (cell : Json) : Bool :=
  let present := cell.elements.filter fun v => !v.isNull
  match test with
  | text t => present.any (t.accepts type.element)
  | range lower upper =>
    cell.elements.any fun v => v.date?.any (withinBounds lower upper)
  | anyKey keys => present.any fun v => keys.contains v.key
  | allKeys keys => keys.all fun key => (cell.elements.map Json.key).contains key
  | list items => listAccepts items type.element present
  | empty | notEmpty => false

/-- Whether a cell of a type passes the test. -/
def accepts (test : CellTest) (type : ColumnType) (cell : Option Json) : Bool :=
  match test with
  | empty => Json.isEmptyCell cell
  | notEmpty => !Json.isEmptyCell cell
  | test => (cell.filter fun v => !v.isNull).any (test.acceptsValue type)

end CellTest

/-! ### Compiling -/

/-- A test of rows. -/
abbrev RowTest := Row → Bool

/-- What an expression is compiled against. -/
structure CompileScope where
  table : Table
  context : Context
  frame : Option LoopFrame
  relations : RelationChecks
  /-- A reference to all values of a variable without values accepts every row. -/
  emptyMeansAll : Bool

/-- The value of a variable that an access with a key, or without one, finds in an element. -/
def accessKey (name : String) (key : Option String) (element : Json) :
    Except Error (Option Json) :=
  match element, key with
  | .null, _ => .ok none
  | .obj fields, some key => .ok (Fields.get? fields key)
  | .obj _, none => .error (.badVariable name .objectsNeedKey)
  | _, some key => .error (.badVariable name (.noKeyOutsideObjects key))
  | value, none => .ok (some value)

/-- The keys of the values of a variable: its values and the accessed values are each taken apart
into their elements, and nulls are dropped. -/
def variableKeys (name : String) (values : List Json) (key : Option String) :
    Except Error (List String) := do
  let accessed ← (values.flatMap Json.elements).mapM (accessKey name key)
  let elements := (accessed.filterMap id).flatMap Json.elements
  return (elements.filter fun v => !v.isNull).map Json.key

/-- The test of a reference to a variable. There is none for all values of a variable that has no
values. -/
def compileVariable (scope : CompileScope) (name : String) (key : Option String)
    (mode : VariableMode) : Except Error (Option CellTest) := do
  match mode with
  | .one =>
    match scope.frame.filter fun f => f.name == name with
    | none => throw (.noLoop name)
    | some frame => return some (.anyKey (← variableKeys name [frame.element] key))
  | .any =>
    let v ← scope.context.require name
    return some (.anyKey (← variableKeys name v.values key))
  | .all =>
    let v ← scope.context.require name
    let keys ← variableKeys name v.values key
    return if keys.isEmpty then none else some (.allKeys keys)

/-- The columns of a condition: those it names, or all. -/
def conditionColumns (t : Table) : Option (List String) → Except Error (List Column)
  | none => .ok t.columns
  | some names => names.mapM fun name =>
    match t.column? name with
    | some column => .ok column
    | none => .error (.unknownColumn t.name name)

/-- Some of the columns passes the test. -/
def anyColumn (columns : List Column) (test : CellTest) : RowTest :=
  fun row => columns.any fun c => test.accepts c.type (row.get? c.name)

/-- The test of a condition on columns. -/
def compileLiteral (scope : CompileScope) (columns : List Column) (literal : Literal) :
    Except Error RowTest := do
  match literal with
  | .text value caseSensitive mode =>
    return anyColumn columns (.text ⟨value, caseSensitive, mode⟩)
  | .dateRange lower upper =>
    match lower.map Text.date?, upper.map Text.upperDate? with
    | some none, _ | _, some none => return fun _ => false
    | lower, upper => return anyColumn columns (.range (lower.bind id) (upper.bind id))
  | .empty => return anyColumn columns .empty
  | .notEmpty => return anyColumn columns .notEmpty
  | .variableRef name key mode =>
    match ← compileVariable scope name key mode with
    | some test => return anyColumn columns test
    | none => return fun _ => scope.emptyMeansAll
  | .list items => return anyColumn columns (.list items)

/-- The test of an atom. An atom of another table accepts no row. -/
def compileAtom (scope : CompileScope) : Atom → Except Error RowTest
  | .condition table columns literal =>
    if table != scope.table.name then .ok fun _ => false
    else do compileLiteral scope (← conditionColumns scope.table columns) literal
  | .relation direction source target =>
    .ok fun row =>
      (scope.relations.lookup (direction, source, target)).any fun check => check.accepts row
  | .never => .ok fun _ => false

/-- The test of an expression. -/
def compile (scope : CompileScope) : Expression → Except Error RowTest
  | .and l r => do
    let l ← compile scope l
    let r ← compile scope r
    return fun row => l row && r row
  | .or l r => do
    let l ← compile scope l
    let r ← compile scope r
    return fun row => l row || r row
  | .not e => do
    let e ← compile scope e
    return fun row => !e row
  | .atom a => compileAtom scope a

end TableQuery
