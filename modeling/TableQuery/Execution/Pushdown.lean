import TableQuery.Query.Expression
import TableQuery.Schema.Table
import TableQuery.Storage.Filter

/-!
# Pushing conditions down

The part of an expression that a store can test by itself. It only has to let every row through
that the expression accepts, because the rows that come back are tested again; what cannot be said
as a storage filter is left out. That is the case for every negation, for variables, lists,
emptiness and relations, and for conditions on more columns than one. A connective is pushed down
only if both of its operands are.
-/

namespace TableQuery

namespace StorageFilter

/-- The operands of a conjunction, or the filter itself. -/
def conjuncts : StorageFilter → List StorageFilter
  | and filters => filters
  | f => [f]

/-- The operands of a disjunction, or the filter itself. -/
def disjuncts : StorageFilter → List StorageFilter
  | or filters => filters
  | f => [f]

/-- The conjunction of two filters, without a conjunction inside it. -/
def mergeAnd (l r : StorageFilter) : StorageFilter :=
  and (l.conjuncts ++ r.conjuncts)

/-- The disjunction of two filters, without a disjunction inside it. -/
def mergeOr (l r : StorageFilter) : StorageFilter :=
  or (l.disjuncts ++ r.disjuncts)

/-! ### Conditions -/

/-- A big integer as a value: as a number where 64 bits hold it, and as text where they do not. -/
def bigIntValue (n : Int) : Json :=
  if -(2 ^ 63) ≤ n && n < 2 ^ 63 then .num (.int n) else .str (String.ofList (Text.intDigits n))

/-- A test for a text read as the type of the column, if it can be. A date stands for its day, or
for its instant. -/
def typed? (column : Column) (text : String) : Option StorageFilter :=
  match column.type with
  | .number => (Text.number? text).map fun x => eq column.name (.num (Number.ofFinite x))
  | .bigInt => (Text.bigInt? text).map fun n => eq column.name (bigIntValue n)
  | .boolean => (Text.bool? text).map fun b => eq column.name (.bool b)
  | .date => do
    let lower ← Text.date? text
    let upper ← Text.upperDate? text
    return range column.name (some lower) (some upper)
  | _ => none

/-- A bound that is not given is open; one that is given has to be a date. -/
def readBound? (read : String → Option Int) : Option String → Option (Option Int)
  | none => some none
  | some text => (read text).map some

/-- The filter of a condition on one column. -/
def ofCondition? (column : Column) (literal : Literal) : Option StorageFilter :=
  match literal with
  | .text value caseSensitive mode =>
    if column.type.supportsText then some (search mode column.name value !caseSensitive)
    else if mode == .contains && column.type.supportsExact then typed? column value
    else none
  | .dateRange lower upper =>
    if column.type.supportsRange then do
      let lower ← readBound? Text.date? lower
      let upper ← readBound? Text.upperDate? upper
      return range column.name lower upper
    else none
  | _ => none

/-- The filter of an atom: a condition on exactly one column, and of the table at hand. -/
def ofAtom? (t : Table) : Atom → Option StorageFilter
  | .condition table (some [name]) literal =>
    if table == t.name then (t.column? name).bind fun column => ofCondition? column literal
    else none
  | _ => none

/-- The filter of an expression on the rows of a table. -/
def ofExpression? (t : Table) : Expression → Option StorageFilter
  | .and l r => do return mergeAnd (← ofExpression? t l) (← ofExpression? t r)
  | .or l r => do return mergeOr (← ofExpression? t l) (← ofExpression? t r)
  | .not _ => none
  | .atom a => ofAtom? t a

end StorageFilter

end TableQuery
