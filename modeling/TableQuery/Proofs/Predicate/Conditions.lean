import TableQuery.Execution.Predicate

/-!
# Conditions on columns

What a condition is compiled to, and what its test looks at. Apart from the two tests for
emptiness a test looks at a cell that is there and is not null, and a row passes if one
of the columns has such a cell that passes.
-/

namespace TableQuery

theorem Json.isNull_of_ne {v : Json} (h : v ≠ .null) : v.isNull = false := by
  cases v with
  | null => exact absurd rfl h
  | _ => rfl

namespace CellTest

variable {test : CellTest} {type : ColumnType}

/-- A condition other than the one for emptiness looks at a cell that is there. -/
theorem accepts_iff {cell : Option Json} (hempty : test ≠ .empty) (hnotEmpty : test ≠ .notEmpty) :
    test.accepts type cell = true ↔
      ∃ value, cell = some value ∧ value.isNull = false ∧ test.acceptsValue type value = true := by
  have hcell : test.accepts type cell =
      (cell.filter fun v => !v.isNull).any (test.acceptsValue type) := by
    cases test with
    | empty => exact absurd rfl hempty
    | notEmpty => exact absurd rfl hnotEmpty
    | _ => rfl
  rw [hcell]
  cases cell with
  | none => simp
  | some value => cases hnull : value.isNull <;> simp [Option.filter, hnull]

/-- On a cell that is there the test is one of the value. -/
theorem accepts_some (hempty : test ≠ .empty) (hnotEmpty : test ≠ .notEmpty) {cell : Json}
    (hnull : cell.isNull = false) :
    test.accepts type (some cell) = true ↔ test.acceptsValue type cell = true := by
  rw [accepts_iff hempty hnotEmpty]
  constructor
  · rintro ⟨value, hvalue, -, haccepts⟩
    rwa [Option.some.inj hvalue]
  · exact fun haccepts => ⟨cell, rfl, hnull, haccepts⟩

end CellTest

/-- A condition on one column is compiled for that column. -/
theorem compileAtom_condition {scope : CompileScope} {name : String} {column : Column}
    (h : scope.table.column? name = some column) (literal : Literal) :
    compileAtom scope (.condition scope.table.name (some [name]) literal) =
      compileLiteral scope [column] literal := by
  simp only [compileAtom, conditionColumns, bne_self_eq_false, Bool.false_eq_true, if_false]
  rw [List.mapM_cons, h]
  rfl

theorem anyColumn_singleton {column : Column} {test : CellTest} {row : Row} :
    anyColumn [column] test row = test.accepts column.type (row.get? column.name) := by
  rw [anyColumn, List.any_cons, List.any_nil, Bool.or_false]

end TableQuery
