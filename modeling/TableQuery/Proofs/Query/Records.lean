import TableQuery.Proofs.Json.Fields
import TableQuery.Query.Document

/-!
# Records read back

Reading the record of a statement gives that very statement
(`TableQuery.Statement.ofJson?_toJson`), so no two statements have one record
(`TableQuery.Statement.toJson_injective`). Fields that are left out, and fields that
are null, both mean that there is nothing; no record has both forms for one field.
-/

namespace TableQuery

/-! ### Words -/

theorem VariableMode.ofKeyword?_keyword (m : VariableMode) : ofKeyword? m.keyword = some m := by
  cases m <;> rfl

theorem ItemRole.ofName?_name (r : ItemRole) : ofName? r.name = some r := by
  cases r <;> rfl

theorem Direction.ofName?_name (d : Direction) : ofName? d.name = some d := by
  cases d <;> rfl

theorem Aggregation.find?_keyword (a : Aggregation) :
    (all.find? fun b => b.keyword == a.keyword) = some a := by
  cases a <;> rfl

/-! ### Lists -/

namespace Json

@[simp] theorem str?_str (s : String) : (str s).str? = some s := rfl

@[simp] theorem bool?_bool (b : Bool) : (bool b).bool? = some b := rfl

@[simp] theorem isNull_null : isNull null = true := rfl

@[simp] theorem isNull_str (s : String) : isNull (str s) = false := rfl

variable {α : Type} {write : α → Json} {read : Json → Option α}

theorem list?_map (h : ∀ a, read (write a) = some a) (items : List α) :
    list? read (.arr (items.map write)) = some items := by
  rw [list?, items?, Option.bind_some]
  induction items with
  | nil => rfl
  | cons a rest ih => simp [h, ih]

@[simp] theorem strings?_ofStrings (ss : List String) : strings? (ofStrings ss) = some ss :=
  list?_map str?_str ss

@[simp] theorem isNull_ofStrings (ss : List String) : isNull (ofStrings ss) = false := rfl

end Json

/-! ### Fields -/

namespace Fields

variable {α : Type}

@[simp] theorem get?_optionalField (name other : String) (f : α → Json) (value : Option α) :
    get? (optionalField name f value) other = if other = name then value.map f else none := by
  cases value <;> simp [optionalField, get?_cons]

@[simp] theorem get?_optionalList (name other : String) (f : α → Json) (items : List α) :
    get? (optionalList name f items) other =
      if other = name then if items = [] then none else some (.arr (items.map f)) else none := by
  cases items <;> simp [optionalList, get?_cons]

end Fields

namespace Record

variable {α : Type} {read : Json → Option α} {write : α → Json} {name : String} {fields : Row}

@[simp] theorem field?_obj : field? name read (.obj fields) = (fields.get? name).bind read := by
  cases h : fields.get? name <;> simp [field?, Json.fields?, h]

@[simp] theorem wordOf?_obj {ofWord : String → Option α} :
    wordOf? name ofWord (.obj fields) = ((fields.get? name).bind Json.str?).bind ofWord := by
  rw [wordOf?, field?_obj]

@[simp] theorem maybe?_obj : maybe? name read (.obj fields) =
    (fields.get? name).elim (some none) fun field =>
      if field.isNull then some none else (read field).map some := by
  cases h : fields.get? name with
  | none => simp [maybe?, Json.fields?, h]
  | some field => cases field <;> simp [maybe?, Json.fields?, h, Json.isNull]

@[simp] theorem maybeList?_obj : maybeList? name read (.obj fields) =
    withDefault? (Json.list? read) [] (fields.get? name) := by
  simp [maybeList?, Json.fields?]

/-- A field that is left out where there is nothing reads back. -/
theorem elim_map_write (hread : ∀ a, read (write a) = some a)
    (hnull : ∀ a, (write a).isNull = false) (value : Option α) :
    ((value.map write).elim (some none) fun field =>
      if field.isNull then some none else (read field).map some) = some value := by
  cases value <;> simp [hread, hnull]

/-- A list that is left out where it is empty reads back. -/
theorem withDefault?_optionalList (hread : ∀ a, read (write a) = some a) (items : List α) :
    withDefault? (Json.list? read) []
      (if items = [] then none else some (.arr (items.map write))) = some items := by
  cases items with
  | nil => rfl
  | cons a rest =>
    rw [if_neg (List.cons_ne_nil a rest), withDefault?]
    exact Json.list?_map hread (a :: rest)

end Record

open Record

/-! ### Records of a kind -/

theorem ListItem.ofJson?_toJson (item : ListItem) : ofJson? item.toJson = some item := by
  simp [ofJson?, toJson, Fields.get?_cons, ItemRole.ofName?_name]

theorem Literal.ofJson?_toJson (l : Literal) : ofJson? l.toJson = some l := by
  cases l with
  | text value caseSensitive mode =>
    simp [ofJson?, toJson, kindRecord, Fields.get?_cons, MatchMode.ofName?_name]
  | dateRange lower upper =>
    cases lower <;> cases upper <;>
      simp [ofJson?, toJson, kindRecord, Fields.get?_cons, Json.orNull]
  | empty => simp [ofJson?, toJson, kindRecord, Fields.get?_cons]
  | notEmpty => simp [ofJson?, toJson, kindRecord, Fields.get?_cons]
  | variableRef name key mode =>
    cases key <;>
      simp [ofJson?, toJson, kindRecord, Fields.get?_cons, Json.orNull, VariableMode.ofKeyword?_keyword]
  | list items =>
    simp [ofJson?, toJson, kindRecord, Fields.get?_cons,
      Json.list?_map ListItem.ofJson?_toJson]

theorem Atom.ofJson?_toJson (a : Atom) : ofJson? a.toJson = some a := by
  cases a with
  | condition table columns literal =>
    cases columns with
    | none =>
      simp [ofJson?, toJson, kindRecord, Fields.get?_cons, Json.orNull,
        Literal.ofJson?_toJson]
    | some names =>
      simp [ofJson?, toJson, kindRecord, Fields.get?_cons, Json.orNull,
        Literal.ofJson?_toJson]
  | relation direction source target =>
    simp [ofJson?, toJson, kindRecord, Fields.get?_cons, Direction.ofName?_name]
  | never => simp [ofJson?, toJson, kindRecord, Fields.get?_cons]

theorem Expression.ofJson?_toJson (e : Expression) : ofJson? e.toJson = some e := by
  induction e with
  | and l r ihl ihr => simp [toJson, ofJson?, ihl, ihr]
  | or l r ihl ihr => simp [toJson, ofJson?, ihl, ihr]
  | not e ih => simp [toJson, ofJson?, ih]
  | atom a => simp [toJson, ofJson?, Atom.ofJson?_toJson]

theorem Projection.ofJson?_toJson (p : Projection) : ofJson? p.toJson = some p := by
  cases p <;>
    simp [ofJson?, toJson, kindRecord, Fields.get?_cons]

theorem Argument.ofJson?_toJson (a : Argument) : ofJson? a.toJson = some a := by
  have hname := elim_map_write Json.str?_str Json.isNull_str a.name
  simp [ofJson?, toJson, Fields.get?_cons, hname]

theorem StageCall.ofJson?_toJson (s : StageCall) : ofJson? s.toJson = some s := by
  have hargs := withDefault?_optionalList Argument.ofJson?_toJson s.arguments
  simp [ofJson?, toJson, Fields.get?_cons, hargs]

/-- **A statement reads back from its record.** -/
theorem Statement.ofJson?_toJson (s : Statement) : ofJson? s.toJson = some s := by
  obtain ⟨name, expression, projection, aggregation, key, stages⟩ := s
  have hword := elim_map_write Json.str?_str Json.isNull_str
  have hstages := withDefault?_optionalList StageCall.ofJson?_toJson stages
  have hprojection : projection.toJson.isNull = false := by cases projection <;> rfl
  cases aggregation <;>
    simp [ofJson?, toJson, Fields.get?_cons, hword, hstages, hprojection,
      Aggregation.find?_keyword, Expression.ofJson?_toJson, Projection.ofJson?_toJson]

/-- **No two statements have one record.** -/
theorem Statement.toJson_injective : Function.Injective Statement.toJson := by
  intro s t h
  have hread := ofJson?_toJson s
  rw [h, ofJson?_toJson] at hread
  exact (Option.some.inj hread).symm

end TableQuery
