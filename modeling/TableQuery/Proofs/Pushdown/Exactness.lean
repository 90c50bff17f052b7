import TableQuery.Proofs.Pushdown.Statements

/-!
# Exactly when pushdown loses no row

The two directions put together. A row is safe from pushdown, whatever is asked, if
and only if its cells are plain, and a statement over a table of plain rows has one
result with and without its filter. A row that is not safe is not an exotic one: an
identifier just above `2 ^ 53` in a column of numbers is not found by its own digits.
-/

namespace TableQuery

/-- **Pushdown loses no row exactly where cells are plain**: no expression loses a row
of a table if and only if the row is plain. So a statement whose table holds plain rows
has the same result when the filter of its request is ignored, unless the store cannot
evaluate the filter. -/
theorem keepsRow_iff_plainRow (x : Executor) (allowed : Option (List String))
    (context : Context) (s : Statement) (store : Store) :
    (∀ (t : Table) (row : Row), t.KeepsRow row ↔ t.PlainRow row) ∧
      let run := x.runStatement allowed context s
      (∀ t columns rows, x.plan allowed s = .ok (t, columns) →
          store.rows? t.name = some rows → ∀ row ∈ rows, t.PlainRow row) →
        (run.runOn store.fetch).1 = (run.withoutFirstFilter.runOn store.fetch).1 ∨
          ∃ table column mode,
            (run.runOn store.fetch).1 = .error (.unsupportedSearch table column mode) := by
  refine ⟨fun t row => ⟨Table.plainRow_of_keepsRow, Table.keepsRow_of_plainRow⟩, ?_⟩
  exact Executor.runOn_withoutFirstFilter

/-- The users of the blog. -/
def Catalog.blogUsers : Table := Catalog.blog.tables[0]

/-- A user with an identifier. -/
def Catalog.userRow (id : Int) : Row :=
  [("id", .num (.int id)), ("name", .str "Ada")]

/-- A small identifier is found by its digits, with the filter and without. -/
theorem keepsRow_userRow_seven :
    let x : Executor := ⟨.blog, { grants := [("users", .all)] }, .builtin, {}⟩
    let s : Statement := {
      expression := .atom (.condition "users" (some ["id"]) (.text "7" false .contains)) }
    let store : Store := { tables := [("users", [Catalog.userRow 7])] }
    let run := x.runStatement none [] s
    Catalog.blogUsers.KeepsRow (Catalog.userRow 7) ∧
      (run.runOn store.fetch).1 = (run.withoutFirstFilter.runOn store.fetch).1 ∧
      (run.runOn store.fetch).1 = .ok (.arr [.ofNat 7],
        { values := [.ofNat 7], column := some "id", table := some "users" }) := by
  intro x s store run
  have hseven : ColumnType.number.Plain (.num (.int 7)) := by
    intro v hv y hy
    obtain rfl := List.mem_singleton.mp hv
    -- the only element of the cell is the cell, and it is read as the double seven
    have hread : Json.number? (.num (.int 7)) =
        some (.finite ⟨false, 1024 * 2 ^ 52 + 7 * 2 ^ 50, by decide⟩) := by decide +kernel
    obtain rfl := Binary64.finite.inj (Option.some.inj (hread.symm.trans hy))
    decide +kernel
  have hplain : Catalog.blogUsers.PlainRow (Catalog.userRow 7) := by
    intro name column cell hcolumn hcell
    have hname := Table.name_of_column? hcolumn
    have hmem : column ∈ Catalog.blogUsers.columns := List.mem_of_find?_eq_some hcolumn
    rcases List.mem_cons.mp hmem with rfl | hmem
    · subst hname
      obtain rfl : .num (.int 7) = cell := Option.some.inj hcell
      exact hseven
    · obtain rfl := List.mem_singleton.mp hmem
      trivial
  obtain ⟨hkeeps, hrun⟩ := keepsRow_iff_plainRow x none [] s store
  have hok : (run.runOn store.fetch).1 = .ok (.arr [.ofNat 7],
      { values := [.ofNat 7], column := some "id", table := some "users" }) := by decide +kernel
  refine ⟨(hkeeps _ _).mpr hplain, ?_, hok⟩
  refine (hrun ?_).resolve_right fun ⟨_, _, _, hunsupported⟩ => nomatch hok.symm.trans hunsupported
  intro t columns rows hplan hrows row hrow
  -- the only table that the statement can plan for is that of the users
  have hplanned := Executor.planned_of_plan hplan
  have hname : "users" = t.name := Option.some.inj hplanned.target
  have htable := hplanned.inCatalog
  rw [← hname] at htable hrows
  obtain rfl : Catalog.blogUsers = t := Option.some.inj htable
  obtain rfl : [Catalog.userRow 7] = rows := Option.some.inj hrows
  rw [List.mem_singleton.mp hrow]
  exact hplain

/-- **Pushdown loses a row**: the identifier `2 ^ 53 + 1` is read as `2 ^ 53`, and so are
its own digits in a literal, but the filter compares the digits of the two. -/
theorem not_keepsRow_userRow_large :
    ¬Catalog.blogUsers.KeepsRow (Catalog.userRow 9007199254740993) := by
  intro h
  have hplain : ColumnType.number.Plain (.num (.int 9007199254740993)) :=
    Table.plainRow_of_keepsRow h "id" ⟨"id", .number, false⟩ _ rfl rfl
  have hread : Json.number? (.num (.int 9007199254740993)) =
      some (.finite ⟨false, 1076 * 2 ^ 52, by decide⟩) := by decide +kernel
  -- a plain cell would be loosely equal to the double that it is read as
  have hloose := hplain _ (List.mem_singleton_self _) _ hread
  revert hloose
  decide +kernel

end TableQuery
