import TableQuery.Proofs.Fetching.Requests
import TableQuery.Proofs.Json.Unambiguous
import TableQuery.Proofs.Predicate.Conditions
import TableQuery.Proofs.Schema.Built

/-!
# References to variables

A reference compares the recorded values of a variable with the candidates of a cell. Both are
taken apart into elements and rid of nulls, and equality is the loose one: that is the reading
of the three modes that `TableQuery.MeetsAny` and `TableQuery.MeetsAll` state without
keys. The modes for some value and for the element of the loop follow it.

The mode for all values follows it but for one slip. Its test does not drop the nulls among
the elements of an array, and the key of null is also that of the text `null`; a recorded text
`null` is therefore found in an array with a null in it
(`TableQuery.reference_modes`). Everywhere else the reading is the stated one, the mode for
all is stricter than the one for some, and they agree on values that are all equal.
-/

namespace TableQuery

namespace Json

theorem key_num_ne_null (n : Number) : (num n).key ≠ "null" := by
  have hkey : n.key.all FloatLayout.isNumberChar = true := by
    cases n with
    | int k => exact List.all_eq_true.mpr (isNumberChar_of_mem_renderNumber (.int k))
    | float x =>
      rw [Number.key]
      split
      · exact List.all_eq_true.mpr (isNumberChar_of_mem_renderNumber (.int _))
      · exact FloatLayout.all_isNumberChar_render _ x
  intro h
  rw [key, ← String.ofList_toList (s := "null")] at h
  rw [String.ofList_injective h] at hkey
  cases hkey

/-- The only values with the key of null are null and its word. -/
theorem eq_of_key_eq_null {v : Json} (h : v.key = "null") : v = null ∨ v = str "null" := by
  cases v with
  | null => exact .inl rfl
  | bool b => cases b <;> simp [key] at h
  | num n => exact absurd h (key_num_ne_null n)
  | str s => exact .inr (congrArg str h)
  | arr items => cases serialize_injective (a := arr items) (b := null) h
  | obj fields => cases serialize_injective (a := obj fields) (b := null) h

/-! ### Both sides of a comparison -/

/-- What is found in a value under a key, or without a key, which is the value itself. -/
def found? (value : Json) (key : Option String) : Option Json :=
  match key with
  | none => some value
  | some name => value.fields?.bind fun fields => fields.get? name

end Json

/-- **The recorded values** of a variable that a reference compares with: each value is
taken apart into its elements, and so is what the key finds in them. Nulls do not count. -/
def recorded (values : List Json) (key : Option String) : List Json :=
  (((values.flatMap Json.elements).filterMap fun v => v.found? key).flatMap
    Json.elements).filter fun v => !v.isNull

/-- **The candidates** of a cell: its elements that are not null. -/
def candidates (cell : Option Json) : List Json :=
  (cell.elim [] Json.elements).filter fun v => !v.isNull

/-- **Any**: in some column, some candidate is loosely equal to some value. -/
def MeetsAny (columns : List String) (values : List Json) (row : Row) : Prop :=
  ∃ name ∈ columns, ∃ e ∈ candidates (row.get? name), ∃ v ∈ values, e.looseEq v = true

/-- **All**: in some column, every value is loosely equal to some candidate. -/
def MeetsAll (columns : List String) (values : List Json) (row : Row) : Prop :=
  ∃ name ∈ columns, ∀ v ∈ values, ∃ e ∈ candidates (row.get? name), e.looseEq v = true

/-- The cell is an array with a null in it. -/
def HoldsNull (cell : Option Json) : Prop :=
  ∃ items, cell = some (.arr items) ∧ Json.null ∈ items

/-- **What the mode for all values accepts**: in some column, every value is loosely equal
to some candidate, or is the text `null` where the cell is an array with a null in it. -/
def MeetsAllOrNull (columns : List String) (values : List Json) (row : Row) : Prop :=
  ∃ name ∈ columns, ∀ v ∈ values,
    (∃ e ∈ candidates (row.get? name), e.looseEq v = true) ∨
      (v = .str "null" ∧ HoldsNull (row.get? name))

/-- The row gives the mode for all values no occasion to take a null for its word. -/
def NullApart (columns : List String) (values : List Json) (row : Row) : Prop :=
  .str "null" ∉ values ∨ ∀ name ∈ columns, ¬HoldsNull (row.get? name)

section Readings

variable {columns : List String} {values : List Json} {row : Row}

theorem meetsAllOrNull_iff (h : NullApart columns values row) :
    MeetsAllOrNull columns values row ↔ MeetsAll columns values row := by
  constructor
  · rintro ⟨name, hname, hall⟩
    refine ⟨name, hname, fun v hv => (hall v hv).resolve_right ?_⟩
    rintro ⟨rfl, hcell⟩
    exact h.elim (fun hword => hword hv) fun hcells => hcells name hname hcell
  · rintro ⟨name, hname, hall⟩
    exact ⟨name, hname, fun v hv => .inl (hall v hv)⟩

theorem MeetsAll.meetsAny (h : MeetsAll columns values row) (hne : values ≠ []) :
    MeetsAny columns values row := by
  obtain ⟨name, hname, hall⟩ := h
  obtain ⟨v, hv⟩ := List.exists_mem_of_ne_nil values hne
  obtain ⟨e, he, heq⟩ := hall v hv
  exact ⟨name, hname, e, he, v, hv, heq⟩

theorem MeetsAny.meetsAll (h : MeetsAny columns values row)
    (hsame : ∀ v ∈ values, ∀ w ∈ values, v.looseEq w = true) : MeetsAll columns values row := by
  obtain ⟨name, hname, e, he, v, hv, heq⟩ := h
  refine ⟨name, hname, fun w hw => ⟨e, he, ?_⟩⟩
  have hkeys := (beq_iff_eq.mp heq).trans (beq_iff_eq.mp (hsame v hv w hw))
  exact beq_iff_eq.mpr hkeys

end Readings

/-! ### The keys of recorded values -/

/-- What an access yields and what is found under the key differ in nulls only. -/
theorem filter_elements_accessKey {name : String} {key : Option String} {element : Json}
    {found : Option Json} (h : accessKey name key element = .ok found) :
    (found.toList.flatMap Json.elements).filter (fun v => !v.isNull) =
      ((element.found? key).toList.flatMap Json.elements).filter fun v => !v.isNull := by
  cases key with
  | none =>
    cases element with
    | obj fields => cases h
    | _ =>
      obtain rfl := Except.ok.inj h
      rfl
  | some k =>
    cases element with
    | null | obj fields =>
      obtain rfl := Except.ok.inj h
      rfl
    | _ => cases h

theorem filter_elements_accessKeys {name : String} {key : Option String} {elements : List Json}
    {accessed : List (Option Json)}
    (h : List.Forall₂ (fun v found => accessKey name key v = .ok found) elements accessed) :
    ((accessed.filterMap id).flatMap Json.elements).filter (fun v => !v.isNull) =
      ((elements.filterMap fun v => v.found? key).flatMap Json.elements).filter
        fun v => !v.isNull := by
  have hcons {α : Type} (f : α → Option Json) (x : α) (xs : List α) :
      (x :: xs).filterMap f = (f x).toList ++ xs.filterMap f := by
    rw [List.filterMap_cons]
    cases f x <;> rfl
  induction h with
  | nil => rfl
  | cons helement _ ih =>
    rw [hcons, hcons, List.flatMap_append, List.flatMap_append, List.filter_append,
      List.filter_append, ih]
    exact congrArg (· ++ _) (filter_elements_accessKey helement)

/-- The keys of a variable are those of its recorded values. -/
theorem variableKeys_eq {name : String} {values : List Json} {key : Option String}
    {keys : List String} (h : variableKeys name values key = .ok keys) :
    keys = (recorded values key).map Json.key := by
  obtain ⟨accessed, haccessed, h⟩ := except_bind_eq_ok.mp h
  obtain rfl := Except.ok.inj h
  exact congrArg (List.map Json.key) (filter_elements_accessKeys (mapM_eq_ok_iff.mp haccessed))

theorem isNull_of_mem_recorded {values : List Json} {key : Option String} {v : Json}
    (h : v ∈ recorded values key) : v.isNull = false := by
  simpa using (List.mem_filter.mp h).2

/-! ### The tests -/

section Tests

variable {type : ColumnType} {cell : Option Json} {values : List Json}

theorem exists_of_mem_candidates {e : Json} (h : e ∈ candidates cell) :
    ∃ value, cell = some value ∧ value.isNull = false := by
  cases cell with
  | none => cases h
  | some value =>
    refine ⟨value, rfl, Json.isNull_of_ne ?_⟩
    rintro rfl
    cases h

theorem accepts_anyKey :
    (CellTest.anyKey (values.map Json.key)).accepts type cell = true ↔
      ∃ e ∈ candidates cell, ∃ v ∈ values, e.looseEq v = true := by
  have hvalue (value : Json) :
      (CellTest.anyKey (values.map Json.key)).acceptsValue type value = true ↔
        ∃ e ∈ candidates (some value), ∃ v ∈ values, e.looseEq v = true := by
    have hkey (e v : Json) : v.key = e.key ↔ e.looseEq v = true := eq_comm.trans beq_iff_eq.symm
    simp only [CellTest.acceptsValue, candidates, Option.elim_some, List.any_eq_true,
      List.contains_iff_mem, List.mem_map, hkey]
  rw [CellTest.accepts_iff (by simp) (by simp)]
  constructor
  · rintro ⟨value, rfl, -, haccepts⟩
    exact (hvalue value).mp haccepts
  · rintro ⟨e, he, hfound⟩
    obtain ⟨value, rfl, hnull⟩ := exists_of_mem_candidates he
    exact ⟨value, rfl, hnull, (hvalue value).mpr ⟨e, he, hfound⟩⟩

/-- An element has the key of a value if some candidate is loosely equal to the value, or a
null of an array stands in for its word. -/
theorem exists_key_eq_iff {value v : Json} (hvalue : value.isNull = false)
    (hv : v.isNull = false) :
    (∃ e ∈ value.elements, e.key = v.key) ↔
      (∃ e ∈ candidates (some value), e.looseEq v = true) ∨
        (v = .str "null" ∧ HoldsNull (some value)) := by
  constructor
  · rintro ⟨e, he, hkey⟩
    by_cases hnull : e = .null
    · subst hnull
      have hword : v = .str "null" := (Json.eq_of_key_eq_null hkey.symm).resolve_left (by
        rintro rfl
        cases hv)
      refine .inr ⟨hword, ?_⟩
      cases value with
      | arr items => exact ⟨items, rfl, he⟩
      | null => cases hvalue
      | _ => cases List.mem_singleton.mp he
    · have hpresent : (!e.isNull) = true := by rw [Json.isNull_of_ne hnull, Bool.not_false]
      exact .inl ⟨e, List.mem_filter.mpr ⟨he, hpresent⟩, beq_iff_eq.mpr hkey⟩
  · rintro (⟨e, he, heq⟩ | ⟨rfl, items, harr, hitem⟩)
    · exact ⟨e, (List.mem_filter.mp he).1, beq_iff_eq.mp heq⟩
    · obtain rfl := Option.some.inj harr
      exact ⟨.null, hitem, rfl⟩

theorem accepts_allKeys (hpresent : ∀ v ∈ values, v.isNull = false) (hne : values ≠ []) :
    (CellTest.allKeys (values.map Json.key)).accepts type cell = true ↔
      ∀ v ∈ values, (∃ e ∈ candidates cell, e.looseEq v = true) ∨
        (v = .str "null" ∧ HoldsNull cell) := by
  have hvalue {value : Json} (hnull : value.isNull = false) :
      (CellTest.allKeys (values.map Json.key)).acceptsValue type value = true ↔
        ∀ v ∈ values, (∃ e ∈ candidates (some value), e.looseEq v = true) ∨
          (v = .str "null" ∧ HoldsNull (some value)) := by
    have hkeys : (CellTest.allKeys (values.map Json.key)).acceptsValue type value = true ↔
        ∀ v ∈ values, ∃ e ∈ value.elements, e.key = v.key := by
      simp [CellTest.acceptsValue]
    exact hkeys.trans (forall₂_congr fun v hv => exists_key_eq_iff hnull (hpresent v hv))
  rw [CellTest.accepts_iff (by simp) (by simp)]
  constructor
  · rintro ⟨value, rfl, hnull, haccepts⟩
    exact (hvalue hnull).mp haccepts
  · intro hall
    -- There is a value to be found, and so there is a cell.
    obtain ⟨v, hv⟩ := List.exists_mem_of_ne_nil values hne
    have hcell : ∃ value, cell = some value ∧ value.isNull = false := by
      rcases hall v hv with ⟨e, he, -⟩ | ⟨-, items, rfl, -⟩
      · exact exists_of_mem_candidates he
      · exact ⟨_, rfl, rfl⟩
    obtain ⟨value, rfl, hnull⟩ := hcell
    exact ⟨value, rfl, hnull, (hvalue hnull).mpr hall⟩

end Tests

/-! ### Compiled references -/

namespace CompileScope

variable {scope : CompileScope} {columns : Option (List String)} {name : String}
  {key : Option String} {accepts : RowTest}

/-- A condition on columns of the table that refers to a variable. -/
def reference (scope : CompileScope) (columns : Option (List String)) (name : String)
    (key : Option String) (mode : VariableMode) : Expression :=
  .atom (.condition scope.table.name columns (.variableRef name key mode))

/-- The names of the columns that a condition on the table looks at. -/
def columnsOf (scope : CompileScope) (columns : Option (List String)) : List String :=
  columns.getD scope.table.columnNames

theorem map_name_conditionColumns {t : Table} {found : List Column}
    (h : conditionColumns t columns = .ok found) :
    found.map Column.name = columns.getD t.columnNames := by
  cases columns with
  | none =>
    obtain rfl := Except.ok.inj h
    rfl
  | some names =>
    rw [conditionColumns, mapM_eq_ok_iff] at h
    rw [Option.getD_some]
    induction h with
    | nil => rfl
    | @cons name column names found hname _ ih =>
      rw [List.map_cons, ih]
      split at hname
      case h_1 column' hcolumn =>
        obtain rfl := Except.ok.inj hname
        rw [Table.name_of_column? hcolumn]
      case h_2 => cases hname

/-- A reference that compiles to a test of cells compiles to that test on the columns. -/
theorem compile_reference {mode : VariableMode} :
    compile scope (scope.reference columns name key mode) = .ok accepts ↔
      ∃ found, conditionColumns scope.table columns = .ok found ∧
        ∃ test, compileVariable scope name key mode = .ok test ∧
          accepts = test.elim (fun _ => scope.emptyMeansAll) (anyColumn found) := by
  simp only [reference, compile, compileAtom, bne_self_eq_false, Bool.false_eq_true, if_false,
    except_bind_eq_ok, compileLiteral]
  refine exists_congr fun found => and_congr_right fun _ => exists_congr fun test =>
    and_congr_right fun _ => ?_
  cases test <;> exact ⟨fun h => (Except.ok.inj h).symm, fun h => congrArg Except.ok h.symm⟩

theorem compileVariable_one {test : Option CellTest}
    (h : compileVariable scope name key .one = .ok test) :
    ∃ element, scope.frame = some ⟨name, element⟩ ∧
      test = some (.anyKey ((recorded [element] key).map Json.key)) := by
  rw [compileVariable] at h
  split at h
  · cases h
  · rename_i frame hfiltered
    obtain ⟨hframe, hname⟩ := Option.filter_eq_some_iff.mp hfiltered
    obtain rfl : frame.name = name := by simpa using hname
    obtain ⟨keys, hkeys, h⟩ := except_bind_eq_ok.mp h
    exact ⟨frame.element, hframe, variableKeys_eq hkeys ▸ (Except.ok.inj h).symm⟩

theorem compileVariable_any {test : Option CellTest}
    (h : compileVariable scope name key .any = .ok test) :
    ∃ v, scope.context.require name = .ok v ∧
      test = some (.anyKey ((recorded v.values key).map Json.key)) := by
  obtain ⟨v, hv, h⟩ := except_bind_eq_ok.mp h
  obtain ⟨keys, hkeys, h⟩ := except_bind_eq_ok.mp h
  exact ⟨v, hv, variableKeys_eq hkeys ▸ (Except.ok.inj h).symm⟩

/-- What compiles in the mode for all values compiles in the one for some. -/
theorem compileVariable_all {test : Option CellTest}
    (h : compileVariable scope name key .all = .ok test) :
    ∃ v, scope.context.require name = .ok v ∧
      compileVariable scope name key .any =
        .ok (some (.anyKey ((recorded v.values key).map Json.key))) ∧
      (recorded v.values key ≠ [] →
        test = some (.allKeys ((recorded v.values key).map Json.key))) := by
  obtain ⟨v, hv, h⟩ := except_bind_eq_ok.mp h
  obtain ⟨keys, hkeys, h⟩ := except_bind_eq_ok.mp h
  obtain rfl := variableKeys_eq hkeys
  refine ⟨v, hv, except_bind_eq_ok.mpr ⟨v, hv, except_bind_eq_ok.mpr ⟨_, hkeys, rfl⟩⟩,
    fun hne => ?_⟩
  obtain rfl := Except.ok.inj h
  rw [if_neg (by simpa using hne)]

theorem anyColumn_anyKey {found : List Column} {values : List Json} {row : Row} :
    anyColumn found (.anyKey (values.map Json.key)) row = true ↔
      MeetsAny (found.map Column.name) values row := by
  simp only [anyColumn, List.any_eq_true, accepts_anyKey, MeetsAny, List.mem_map,
    exists_exists_and_eq_and]

theorem anyColumn_allKeys {found : List Column} {values : List Json} {row : Row}
    (hpresent : ∀ v ∈ values, v.isNull = false) (hne : values ≠ []) :
    anyColumn found (.allKeys (values.map Json.key)) row = true ↔
      MeetsAllOrNull (found.map Column.name) values row := by
  simp only [anyColumn, List.any_eq_true, accepts_allKeys hpresent hne, MeetsAllOrNull,
    List.mem_map, exists_exists_and_eq_and]

/-- **The modes of a reference.** The mode for some value and the one for the element of the
loop accept by the stated reading. So does the mode for all values where no null is taken for
its word; there it is the stricter one, and the same one if the values are all equal. -/
theorem reference_modes (scope : CompileScope) (columns : Option (List String)) (name : String)
    (key : Option String) :
    (∀ one, compile scope (scope.reference columns name key .one) = .ok one →
      ∃ element, scope.frame = some ⟨name, element⟩ ∧ ∀ row,
        one row = true ↔ MeetsAny (scope.columnsOf columns) (recorded [element] key) row) ∧
    (∀ any, compile scope (scope.reference columns name key .any) = .ok any →
      ∃ v, scope.context.require name = .ok v ∧ ∀ row,
        any row = true ↔ MeetsAny (scope.columnsOf columns) (recorded v.values key) row) ∧
    ∀ all, compile scope (scope.reference columns name key .all) = .ok all →
      ∃ v any, scope.context.require name = .ok v ∧
        compile scope (scope.reference columns name key .any) = .ok any ∧
        (recorded v.values key ≠ [] → ∀ row,
          (all row = true ↔
            MeetsAllOrNull (scope.columnsOf columns) (recorded v.values key) row) ∧
          (NullApart (scope.columnsOf columns) (recorded v.values key) row →
            (all row = true ↔ MeetsAll (scope.columnsOf columns) (recorded v.values key) row) ∧
            (all row = true → any row = true) ∧
            ((∀ a ∈ recorded v.values key, ∀ b ∈ recorded v.values key, a.looseEq b = true) →
              all row = any row))) := by
  refine ⟨fun one hone => ?_, fun any hany => ?_, fun all hall => ?_⟩
  · obtain ⟨found, hfound, test, htest, rfl⟩ := compile_reference.mp hone
    obtain ⟨element, hframe, rfl⟩ := compileVariable_one htest
    refine ⟨element, hframe, fun row => ?_⟩
    rw [columnsOf, ← map_name_conditionColumns hfound]
    exact anyColumn_anyKey
  · obtain ⟨found, hfound, test, htest, rfl⟩ := compile_reference.mp hany
    obtain ⟨v, hv, rfl⟩ := compileVariable_any htest
    refine ⟨v, hv, fun row => ?_⟩
    rw [columnsOf, ← map_name_conditionColumns hfound]
    exact anyColumn_anyKey
  · obtain ⟨found, hfound, test, htest, rfl⟩ := compile_reference.mp hall
    obtain ⟨v, hv, hany, hsome⟩ := compileVariable_all htest
    refine ⟨v, _, hv, compile_reference.mpr ⟨found, hfound, _, hany, rfl⟩, fun hne row => ?_⟩
    obtain rfl := hsome hne
    rw [columnsOf, ← map_name_conditionColumns hfound]
    have hallIff : anyColumn found (.allKeys ((recorded v.values key).map Json.key)) row = true ↔
        MeetsAllOrNull (found.map Column.name) (recorded v.values key) row :=
      anyColumn_allKeys (fun _ => isNull_of_mem_recorded) hne
    refine ⟨hallIff, fun hapart => ?_⟩
    have hmeets := hallIff.trans (meetsAllOrNull_iff hapart)
    have hstricter (h : anyColumn found (.allKeys ((recorded v.values key).map Json.key)) row =
        true) : anyColumn found (.anyKey ((recorded v.values key).map Json.key)) row = true :=
      anyColumn_anyKey.mpr ((hmeets.mp h).meetsAny hne)
    refine ⟨hmeets, hstricter, fun hsame => Bool.eq_iff_iff.mpr ⟨hstricter, fun h => ?_⟩⟩
    exact hmeets.mpr ((anyColumn_anyKey.mp h).meetsAll hsame)

/-- A scope over posts, with a variable and a loop at the first of its values. -/
def ofLabels (values : List Json) : CompileScope where
  table := ⟨"posts", [⟨"labels", .stringArray, true⟩], none⟩
  context := [("picked", { values })]
  frame := values.head?.map fun element => ⟨"picked", element⟩
  relations := []
  emptyMeansAll := false

/-- The labels are compared with the labels of two rows, one of which has two. -/
theorem reference_modes_labels :
    let values : List Json := [.obj [("label", .str "1")],
      .obj [("label", .arr [.num (.int 2), .null])]]
    let row : Row := [("labels", .arr [.str "2", .null, .num (.int 1)])]
    ∃ one all, compile (ofLabels values) ((ofLabels values).reference (some ["labels"]) "picked"
        (some "label") .one) = .ok one ∧
      compile (ofLabels values) ((ofLabels values).reference (some ["labels"]) "picked"
        (some "label") .all) = .ok all ∧
      NullApart ["labels"] (recorded values (some "label")) row ∧
      (one row = true ∧ MeetsAny ["labels"] (recorded [values[0]] (some "label")) row) ∧
      all row = true ∧ MeetsAll ["labels"] (recorded values (some "label")) row := by
  intro values row
  obtain ⟨hone, -, hall⟩ := reference_modes (ofLabels values) (some ["labels"]) "picked"
    (some "label")
  obtain ⟨element, hframe, hone⟩ := hone _ rfl
  obtain ⟨v, any, hv, -, hall⟩ := hall _ rfl
  obtain rfl : values[0] = element := congrArg LoopFrame.element (Option.some.inj hframe)
  obtain rfl : ({ values } : Variable) = v := Except.ok.inj hv
  have hapart : NullApart ["labels"] (recorded values (some "label")) row := .inl (by decide)
  have hmeets := ((hall (by decide) row).2 hapart).1
  exact ⟨_, _, rfl, rfl, hapart, ⟨by decide, (hone row).mp (by decide)⟩, by decide,
    hmeets.mp (by decide)⟩

/-- **A null is taken for its word**: every value of the variable counts as found in an array
of nothing but a null, although none of them is. -/
theorem not_meetsAll_null :
    let values : List Json := [.str "null"]
    let row : Row := [("labels", .arr [.null])]
    ∃ all any, compile (ofLabels values) ((ofLabels values).reference (some ["labels"]) "picked"
        none .all) = .ok all ∧
      compile (ofLabels values) ((ofLabels values).reference (some ["labels"]) "picked"
        none .any) = .ok any ∧
      recorded values none ≠ [] ∧ all row = true ∧ any row = false ∧
      ¬MeetsAll ["labels"] (recorded values none) row := by
  refine ⟨_, _, rfl, rfl, by decide, by decide, by decide, ?_⟩
  rintro ⟨name, hname, hall⟩
  obtain rfl := List.mem_singleton.mp hname
  obtain ⟨e, he, -⟩ := hall (.str "null") (by decide)
  cases he

end CompileScope

end TableQuery
