import TableQuery.Proofs.Predicate.Conditions
import TableQuery.Proofs.Schema.Built

/-!
# Lists of texts

A list in a condition is a short way to write a combination of text conditions on the
same column: every required item has to match, one of the alternatives if there are any,
and no excluded item. The list is tested by a loop of its own over the elements of the
cell; what an item means is nevertheless settled by the text condition that it stands for
(`TableQuery.compile_list`), whatever the type of the column, so that a search, an exact
comparison of numbers and a wildcard mean in a list what they mean alone.

A cell that is missing or null passes no list, not even one of excluded items only, while
an array of nothing but nulls passes such a list: its elements are dropped one by one.
-/

namespace TableQuery

namespace ListItem

/-- The text condition that an item stands for. -/
def literal (item : ListItem) : Literal :=
  let (mode, text) := splitWildcards item.text.toList
  .text (String.ofList text) false mode

/-- **What a list asks for** when `Matches` says which items match. -/
structure Combined (items : List ListItem) (Matches : ListItem → Prop) : Prop where
  required : ∀ item ∈ items, item.role = .required → Matches item
  alternative : (∃ item ∈ items, item.role = .alternative) →
    ∃ item ∈ items, item.role = .alternative ∧ Matches item
  excluded : ∀ item ∈ items, item.role = .excluded → ¬Matches item

end ListItem

variable {items : List ListItem}

theorem mem_itemsOf {role : ItemRole} {t : TextTest} :
    t ∈ itemsOf items role ↔ ∃ item ∈ items, item.role = role ∧ TextTest.ofItem item = t := by
  simp only [itemsOf, List.mem_map, List.mem_filter, beq_iff_eq, and_assoc]

/-- A list looks for its items one by one among the elements. -/
theorem listAccepts_iff {type : ColumnType} {elements : List Json} :
    listAccepts items type elements = true ↔
      ListItem.Combined items fun item =>
        elements.any ((TextTest.ofItem item).accepts type) = true := by
  let Found (item : ListItem) : Prop := elements.any ((TextTest.ofItem item).accepts type) = true
  have hrequired : (itemsOf items .required).all (fun t => elements.any (t.accepts type)) = true ↔
      ∀ item ∈ items, item.role = .required → Found item := by
    simp only [List.all_eq_true, mem_itemsOf]
    exact ⟨fun h item hitem hrole => h _ ⟨item, hitem, hrole, rfl⟩,
      fun h t ⟨item, hitem, hrole, ht⟩ => ht ▸ h item hitem hrole⟩
  have hany (role : ItemRole) :
      (itemsOf items role).any (fun t => elements.any (t.accepts type)) = true ↔
        ∃ item ∈ items, item.role = role ∧ Found item := by
    rw [List.any_eq_true]
    constructor
    · rintro ⟨t, ht, hfound⟩
      obtain ⟨item, hitem, hrole, rfl⟩ := mem_itemsOf.mp ht
      exact ⟨item, hitem, hrole, hfound⟩
    · rintro ⟨item, hitem, hrole, hfound⟩
      exact ⟨_, mem_itemsOf.mpr ⟨item, hitem, hrole, rfl⟩, hfound⟩
  have hnone : (itemsOf items .alternative).isEmpty = true ↔
      ¬∃ item ∈ items, item.role = .alternative := by
    simp [itemsOf, List.filter_eq_nil_iff]
  simp only [listAccepts, Bool.and_eq_true, Bool.or_eq_true, hrequired, hany, hnone,
    Bool.not_eq_true', ← Bool.not_eq_true]
  constructor
  · rintro ⟨⟨hall, hsome⟩, hnot⟩
    exact ⟨hall, fun hitems => hsome.resolve_left (not_not_intro hitems),
      fun item hitem hrole hfound => hnot ⟨item, hitem, hrole, hfound⟩⟩
  · rintro ⟨hall, hsome, hnot⟩
    exact ⟨⟨hall, (Classical.em _).symm.imp_right hsome⟩,
      fun ⟨item, hitem, hrole, hfound⟩ => hnot item hitem hrole hfound⟩

/-- An item alone looks for itself among the same elements. -/
theorem accepts_ofItem {item : ListItem} {type : ColumnType} {cell : Json}
    (hnull : cell.isNull = false) :
    (CellTest.text (.ofItem item)).accepts type (some cell) = true ↔
      (cell.elements.filter fun v => !v.isNull).any
        ((TextTest.ofItem item).accepts type.element) = true :=
  CellTest.accepts_some (by simp) (by simp) hnull

/-- A list accepts a cell that its items, each tested alone, accept in combination. -/
theorem accepts_list {type : ColumnType} {cell : Json} (hnull : cell.isNull = false) :
    (CellTest.list items).accepts type (some cell) = true ↔
      ListItem.Combined items fun item =>
        (CellTest.text (.ofItem item)).accepts type (some cell) = true := by
  simp only [accepts_ofItem hnull]
  exact (CellTest.accepts_some (by simp) (by simp) hnull).trans listAccepts_iff

/-- **A list condition is the combination of its items.** -/
theorem compile_list (scope : CompileScope) {name : String} {column : Column}
    (h : scope.table.column? name = some column) (items : List ListItem) :
    ∃ (accepts : RowTest) (matching : ListItem → RowTest),
      compile scope (.atom (.condition scope.table.name (some [name]) (.list items))) =
        .ok accepts ∧
      (∀ item : ListItem, compile scope (.atom (.condition scope.table.name (some [name])
        item.literal)) = .ok (matching item)) ∧
      ∀ row : Row,
        ((row.get? name).all Json.isNull = true → accepts row = false) ∧
        ((row.get? name).all Json.isNull = false →
          (accepts row = true ↔
            ListItem.Combined items fun item => matching item row = true)) := by
  obtain rfl := Table.name_of_column? h
  refine ⟨anyColumn [column] (.list items), fun item => anyColumn [column] (.text (.ofItem item)),
    compileAtom_condition h _, fun item => compileAtom_condition h _, fun row => ?_⟩
  simp only [anyColumn_singleton]
  cases row.get? column.name with
  | none => exact ⟨fun _ => rfl, fun hcell => absurd hcell (by simp)⟩
  | some cell =>
    rw [Option.all_some]
    refine ⟨fun hnull => ?_, accepts_list⟩
    rw [Bool.eq_false_iff, ne_eq, CellTest.accepts_iff (by simp) (by simp)]
    rintro ⟨value, hvalue, hvalueNull, -⟩
    obtain rfl := Option.some.inj hvalue
    exact absurd hnull (by simp [hvalueNull])

/-- Posts with labels: some texts, a missing one and a number. -/
theorem compile_list_labels :
    let labels : Column := ⟨"labels", .stringArray, true⟩
    let table : Table := ⟨"posts", [labels], none⟩
    let scope : CompileScope := ⟨table, {}, none, default, false⟩
    let row : Row := [("labels", .arr [.str "Red Fox", .null, .num (.int 7)])]
    let items : List ListItem := [⟨.required, "red*"⟩, ⟨.alternative, "blue"⟩,
      ⟨.alternative, "7"⟩, ⟨.excluded, "*null"⟩]
    table.column? "labels" = some labels ∧
    ∃ (accepts : RowTest) (matching : ListItem → RowTest),
      compile scope (.atom (.condition "posts" (some ["labels"]) (.list items))) = .ok accepts ∧
      accepts row = true ∧ ListItem.Combined items fun item => matching item row = true := by
  intro labels table scope row items
  have hcolumn : table.column? "labels" = some labels := by decide
  obtain ⟨accepts, matching, hcompile, -, hrow⟩ := compile_list scope hcolumn items
  have haccepts : accepts row = true := by
    obtain rfl : anyColumn [labels] (.list items) = accepts :=
      Except.ok.inj ((compileAtom_condition hcolumn _).symm.trans hcompile)
    decide +kernel
  exact ⟨hcolumn, accepts, matching, hcompile, haccepts, ((hrow row).2 rfl).mp haccepts⟩

end TableQuery
