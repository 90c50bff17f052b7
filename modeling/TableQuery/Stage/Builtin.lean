import TableQuery.Stage.Registry
import TableQuery.Value.Order

/-!
# Built-in stages

The stages that are always there, in the namespace `core`: `count`, `sum` and `group_count` sum
their input up, `pluck`, `sort`, `limit` and `distinct` reshape it, and `load` brings in the rows
of a table by their keys. All but `count` want a list, and take null for an empty one.
-/

namespace TableQuery

namespace Builtin

/-- The namespace of the built-in stages. -/
def coreSpace : String := "core"

/-- An error of the stage of a name. -/
def fault {α : Type} (name : String) (fault : StageFault) : Except Error α :=
  .error (.stage name fault)

/-- The items of a list input. -/
def inputItems (name : String) : Json → Except Error (List Json)
  | .arr items => .ok items
  | .null => .ok []
  | _ => fault name .noList

/-- The field of an item, which only an object has; without a field, the item itself. -/
def fieldOf? (field : Option String) (item : Json) : Option Json :=
  match field with
  | some name => item.fields?.bind fun row => row.get? name
  | none => some item

/-- The field of an item, or null. -/
def fieldOrNull (field : Option String) (item : Json) : Json :=
  (fieldOf? field item).getD .null

/-! ### Summing up -/

/-- The number of items; a number is passed on, and any other value is one item. -/
def countItems : Json → Json
  | .num n => .num n
  | .null => Json.ofNat 0
  | .arr items => Json.ofNat items.length
  | _ => Json.ofNat 1

/-- The sum of the numbers among the items, or among their fields. -/
def sumItems (field : Option String) (items : List Json) : Json :=
  let numbers := (items.filterMap (fieldOf? field)).filterMap Json.number?
  match Number.ofBinary64? (Binary64.sum numbers) with
  | some n => .num n
  | none => .null

/-- Counts a value in the groups, which are told apart by key; a new group goes behind. -/
def countInto (value : Json) : List (Json × Nat) → List (Json × Nat)
  | [] => [(value, 1)]
  | (first, n) :: rest =>
    if first.looseEq value then (first, n + 1) :: rest else (first, n) :: countInto value rest

/-- The groups of a list of values: the first value of each, and how many there are. -/
def groups (values : List Json) : List (Json × Nat) :=
  values.foldl (fun found value => countInto value found) []

/-- One row for each group of the values of a field. -/
def groupItems (field : String) (items : List Json) : Json :=
  .arr ((groups (items.map (fieldOrNull (some field)))).map fun g =>
    .obj (Fields.ofList [(field, g.1), ("count", Json.ofNat g.2)]))

/-! ### Reshaping -/

/-- Inserts an item into a list that is sorted downwards, in front of everything it is not less
than. -/
def insertDown (less : Json → Json → Bool) (x : Json) : List Json → List Json
  | [] => [x]
  | y :: ys => if less x y then y :: insertDown less x ys else x :: y :: ys

/-- Sorts a list upwards, keeping the order of equal items. -/
def sortBy (less : Json → Json → Bool) (items : List Json) : List Json :=
  (items.foldl (fun sorted x => insertDown less x sorted) []).reverse

/-- Sorts by the value of a field, or by the items themselves, upwards or downwards. -/
def sortItems (field : Option String) (descending : Bool) (items : List Json) : List Json :=
  let order := fun a b => (fieldOrNull field a).compareValues (fieldOrNull field b)
  sortBy (fun a b => (if descending then (order a b).swap else order a b) == .lt) items

/-- Whether the word for an order asks for a descending one. -/
def readOrder (word : Option String) : Except Error Bool :=
  match word.map fun w => String.ofList (Text.lowerAscii w.toList) with
  | none | some "asc" => .ok false
  | some "desc" => .ok true
  | some other => fault "sort" (.badOrder other)

/-! ### Loading -/

/-- A request of a stage, which passes the same checks as that of a statement. -/
def fetchRows (scope : StageScope) (call : FetchCall) : Fetching (List Row) := do
  scope.whitelist.checkTable call.table
  checkAllowed call.table scope.allowed
  let t ← scope.catalog.table call.table
  match call.columns.find? fun c => (t.column? c).isNone with
  | some column => Fetching.failed (.unknownColumn call.table column)
  | none =>
    scope.whitelist.checkColumns call.table call.columns
    Fetching.request call

/-- The rows of a table whose key column holds one of the items, with every column that is
granted. Without a key no request is made. -/
def loadItems (scope : StageScope) (args : Arguments) (input : Json) : Fetching Json := do
  match args.string? "table" with
  | none => Fetching.failed (.stage "load" .noTable)
  | some table =>
    let t ← scope.catalog.table table
    let key := (args.string? "key").getD t.idColumn
    let items ← inputItems "load" input
    let keys := Json.firstBy Json.key [] (items.filter fun v => !v.isNull)
    if keys.isEmpty then return .arr []
    else
      match scope.whitelist.policy? table with
      | none => Fetching.failed (.denied table [] .tableNotWhitelisted)
      | some policy =>
        let columns := t.columnNames.filter policy.grants
        if !columns.contains key then
          Fetching.failed (.denied table [key] .keyNotWhitelisted)
        else
          let filter := StorageFilter.disj (keys.map fun value => .eq key value)
          let rows ← fetchRows scope ⟨table, columns, some filter⟩
          return .arr (rows.map .obj)

/-! ### The stages -/

/-- An optional string argument. -/
def optionalString (name : String) (description : String := "") : Parameter :=
  ⟨name, .string, false, description⟩

/-- A required string argument. -/
def requiredString (name : String) : Parameter :=
  ⟨name, .string, true, ""⟩

/-- The stage `count`. -/
def count : Stage where
  signature := {
    name := "count", space := some coreSpace, category := .aggregation
    input := .any, output := .count
    description := "Number of items in the input" }
  run _ _ input := return countItems input

/-- The stage `sum`. -/
def sum : Stage where
  signature := {
    name := "sum", space := some coreSpace, category := .aggregation
    input := .any, output := .count
    description := "Sum of numeric values"
    parameters := [optionalString "field" "row field to sum"] }
  run _ args input := do
    let items ← inputItems "sum" input
    return sumItems (args.string? "field") items

/-- The stage `group_count`. -/
def groupCount : Stage where
  signature := {
    name := "group_count", space := some coreSpace, category := .aggregation
    input := .rows, output := .rows
    description := "Count rows per distinct field value"
    parameters := [requiredString "field"] }
  run _ args input := do
    let items ← inputItems "group_count" input
    return groupItems ((args.string? "field").getD "") items

/-- The stage `pluck`. -/
def pluck : Stage where
  signature := {
    name := "pluck", space := some coreSpace, category := .transform
    input := .rows, output := .values
    description := "Values of one field"
    parameters := [requiredString "field"] }
  run _ args input := do
    let items ← inputItems "pluck" input
    return .arr (items.map (fieldOrNull (args.string? "field")))

/-- The stage `sort`. -/
def sort : Stage where
  signature := {
    name := "sort", space := some coreSpace, category := .transform
    input := .any, output := .any
    description := "Sort items, or rows by a field"
    parameters := [optionalString "field", optionalString "order" "asc or desc"] }
  run _ args input := do
    let descending ← readOrder (args.string? "order")
    let items ← inputItems "sort" input
    return .arr (sortItems (args.string? "field") descending items)

/-- The stage `limit`. -/
def limit : Stage where
  signature := {
    name := "limit", space := some coreSpace, category := .transform
    input := .any, output := .any
    description := "Keep at most n items after skipping offset"
    parameters := [⟨"n", .number, true, ""⟩, ⟨"offset", .number, false, ""⟩] }
  run _ args input := do
    match args.nat? "n" with
    | none => Fetching.failed (.stage "limit" .badCount)
    | some n =>
      let items ← inputItems "limit" input
      return .arr ((items.drop ((args.nat? "offset").getD 0)).take n)

/-- The stage `distinct`. -/
def distinct : Stage where
  signature := {
    name := "distinct", space := some coreSpace, category := .transform
    input := .any, output := .any
    description := "Remove duplicate items" }
  run _ _ input := do
    let items ← inputItems "distinct" input
    return .arr (Json.distinct items)

/-- The stage `load`. -/
def load : Stage where
  signature := {
    name := "load", space := some coreSpace, category := .loader
    input := .values, output := .rows
    description := "Load rows whose key matches the input values"
    parameters := [requiredString "table", optionalString "key"] }
  run := loadItems

/-- Every built-in stage. -/
def all : List Stage :=
  [count, sum, groupCount, pluck, sort, limit, distinct, load]

end Builtin

/-- The registry of the built-in stages. Their keys differ, so each of them is taken in. -/
def Registry.builtin : Registry :=
  Builtin.all.foldl (fun r s => (r.register s).toOption.getD r) {}

end TableQuery
