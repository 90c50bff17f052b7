import TableQuery.Error
import TableQuery.Json.Record

/-!
# Whitelists

A whitelist grants tables, and of each table either every column or a list of columns. Reading all
columns of a table takes a grant of every column; a list that happens to name all of them is not
enough, so that a column added to a table later never becomes visible by accident. What is not
granted is denied, and a caller may narrow the grants further by a list of allowed tables.
-/

namespace TableQuery

/-- What is granted of one table. -/
inductive ColumnPolicy where
  | all
  | only (columns : List String)
deriving DecidableEq, Repr

/-- The column that stands for all columns. -/
def allColumnsMarker : String := "*"

namespace ColumnPolicy

/-- The column is granted. -/
def grants (policy : ColumnPolicy) (column : String) : Bool :=
  match policy with
  | all => true
  | only columns => columns.contains column

/-- The policy of a list of columns. The marker among them grants all columns. -/
def ofColumns (columns : List String) : ColumnPolicy :=
  if columns.contains allColumnsMarker then all else only columns

end ColumnPolicy

/-- The granted tables; the first policy of a table counts. -/
structure Whitelist where
  grants : List (String × ColumnPolicy) := []
deriving DecidableEq, Repr

namespace Whitelist

/-- Grants a table, in place of any earlier grant of it. -/
def grant (w : Whitelist) (table : String) (policy : ColumnPolicy) : Whitelist :=
  ⟨(table, policy) :: w.grants⟩

/-- What is granted of a table. -/
def policy? (w : Whitelist) (table : String) : Option ColumnPolicy :=
  w.grants.lookup table

theorem policy?_grant (w : Whitelist) (table : String) (policy : ColumnPolicy) :
    (w.grant table policy).policy? table = some policy := by
  simp [grant, policy?]

theorem policy?_grant_of_ne (w : Whitelist) {table other : String} (policy : ColumnPolicy)
    (h : other ≠ table) : (w.grant table policy).policy? other = w.policy? other := by
  have hne : (other == table) = false := by simpa using h
  simp [grant, policy?, List.lookup_cons, hne]

/-! ### Checks -/

/-- The table is granted. -/
def checkTable (w : Whitelist) (table : String) : Except Error Unit :=
  match w.policy? table with
  | some _ => .ok ()
  | none => .error (.denied table [] .tableNotWhitelisted)

/-- Every one of the columns is granted; the denial lists those that are not. -/
def checkColumns (w : Whitelist) (table : String) (columns : List String) : Except Error Unit :=
  match w.policy? table with
  | none => .error (.denied table [] .tableNotWhitelisted)
  | some policy =>
    match columns.filter fun c => !policy.grants c with
    | [] => .ok ()
    | refused => .error (.denied table refused .columnsNotWhitelisted)

/-- Every column of the table is granted, now and later. -/
def checkAllColumns (w : Whitelist) (table : String) : Except Error Unit :=
  match w.policy? table with
  | some .all => .ok ()
  | some (.only _) => .error (.denied table [allColumnsMarker] .noAllColumnsMarker)
  | none => .error (.denied table [] .tableNotWhitelisted)

/-! ### Documents -/

/-- An entry of a document: the marker or another word, or a list of columns. -/
def permission? : Written → Option (String ⊕ List String)
  | .string pieces => (StringPiece.text? pieces).map .inl
  | value => value.strings?.map .inr

/-- The entries of a document by table. Of a table that is given twice the last entry counts, but
an entry that is replaced still has to be one. -/
def entries? (value : Written) : Option (Fields (String ⊕ List String)) := do
  let given ← value.fields?
  let entries ← given.mapM fun f => (permission? f.2).map fun e => (f.1, e)
  some (Fields.ofList entries)

/-- Grants what the entries say, in their order. -/
def grantEntries (w : Whitelist) :
    List (String × (String ⊕ List String)) → Except Error Whitelist
  | [] => .ok w
  | (table, .inl marker) :: rest =>
    if marker == allColumnsMarker then (w.grant table .all).grantEntries rest
    else .error (.setup (.badPolicy table marker))
  | (table, .inr columns) :: rest => (w.grant table (.ofColumns columns)).grantEntries rest

/-- Reads a whitelist document: an object that gives each table the marker or a list of columns.
Tables are taken in ascending order, so the first faulty one decides the error. -/
def read (text : String) : Except Error Whitelist :=
  match (Written.ofText? text).bind entries? with
  | some entries => grantEntries {} entries
  | none => .error (.setup .malformed)

end Whitelist

/-- A list of allowed tables, if there is one, holds the table. -/
def checkAllowed (table : String) : Option (List String) → Except Error Unit
  | none => .ok ()
  | some allowed =>
    if allowed.contains table then .ok () else .error (.denied table [] .tableNotAllowed)

end TableQuery
