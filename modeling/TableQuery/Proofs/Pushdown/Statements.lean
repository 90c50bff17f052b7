import TableQuery.Proofs.Access.Confinement
import TableQuery.Proofs.Json.Fields
import TableQuery.Proofs.Pushdown.Rows

/-!
# Statements with and without pushdown

What pushdown means for a statement: its first request carries a filter, and the rest
of the statement sees nothing of that but the rows that come back. If the filter keeps
what the test accepts, the accepted rows are the same with and without it
(`TableQuery.Executor.acceptedRows_filtered`), and everything behind them is: shapes,
stages, joins and the variable that is bound.

Two things are to be checked besides. The test is run on rows that were cut down to
the requested columns and the filter on whole ones, which makes no difference as the
filter reads requested columns only. And relations are looked up for the rows that
came back, filtered or not; but an expression with a relation in it is never pushed
down (`TableQuery.StorageFilter.isCondition_of_mem_atoms`).
-/

namespace TableQuery

namespace Fetching

variable {α : Type}

/-- The computation with the filter of its first request left out. -/
def withoutFirstFilter : Fetching α → Fetching α
  | fetch call next => fetch { call with filter := none } next
  | t => t

end Fetching

/-! ### Requests with and without a filter -/

namespace Store

variable {call : FetchCall}

/-- The filter of a request lets a row through, or cannot tell. -/
def Lets (call : FetchCall) (row : Row) : Bool :=
  decide ((call.filter.map fun f => f.eval row).getD (.holds true) ≠ .holds false)

/-- A request is answered with the rows that its filter lets through, unless a search
in one of them is unsupported. -/
theorem select_cases (call : FetchCall) (rows : List Row) :
    (∃ column mode, select call rows = .error (.unsupported call.table column mode)) ∨
      select call rows = .ok ((rows.filter (Lets call)).map (projectRow call.columns)) := by
  induction rows with
  | nil => exact Or.inr rfl
  | cons row rest ih =>
    rw [select]
    cases hverdict : (call.filter.map fun f => f.eval row).getD (.holds true) with
    | holds result =>
      cases result with
      | true =>
        have hlets : Lets call row = true := by simp [Lets, hverdict]
        rcases ih with ⟨column, mode, herror⟩ | hok
        · exact Or.inl ⟨column, mode, by rw [herror]; rfl⟩
        · refine Or.inr ?_
          rw [hok, List.filter_cons_of_pos hlets]
          rfl
      | false =>
        have hlets : ¬Lets call row = true := by simp [Lets, hverdict]
        rw [List.filter_cons_of_neg hlets]
        exact ih
    | unsupported column mode => exact Or.inl ⟨column, mode, rfl⟩

theorem fetch_of_rows? {store : Store} {rows : List Row}
    (h : store.rows? call.table = some rows) : store.fetch call = select call rows := by
  rw [fetch, h]

theorem fetch_of_no_rows {store : Store} (h : store.rows? call.table = none) :
    store.fetch call = .error (.backend s!"relation \"{call.table}\" does not exist") := by
  rw [fetch, h]

theorem select_unfiltered (hnone : call.filter = none) (rows : List Row) :
    select call rows = .ok (rows.map (projectRow call.columns)) := by
  induction rows with
  | nil => rfl
  | cons row rest ih =>
    rw [select, hnone]
    simp only [Option.map_none, Option.getD_none, ih]
    rfl

end Store

/-- A plain row is plain when it is cut down to some columns. -/
theorem Table.PlainRow.projectRow {t : Table} {row : Row} (h : t.PlainRow row)
    (columns : List String) : t.PlainRow (Store.projectRow columns row) := by
  intro name column cell hcolumn hcell
  rw [Store.get?_projectRow] at hcell
  split at hcell
  · exact h name column cell hcolumn hcell
  · cases hcell

theorem agreeOn_projectRow (columns : List String) (row : Row) :
    AgreeOn (· ∈ columns) (Store.projectRow columns row) row := by
  intro name hname
  rw [Store.get?_projectRow, if_pos hname]

/-! ### No relations are pushed down -/

/-- A condition on columns. -/
def Atom.IsCondition : Atom → Prop
  | .condition .. => True
  | _ => False

theorem StorageFilter.isCondition_of_mem_atoms {t : Table} {e : Expression} {f : StorageFilter}
    (h : ofExpression? t e = some f) : ∀ a ∈ e.atoms, a.IsCondition := by
  induction e generalizing f with
  | and l r ihl ihr | or l r ihl ihr =>
    obtain ⟨fl, hl, h⟩ := Option.bind_eq_some_iff.mp h
    obtain ⟨fr, hr, -⟩ := Option.bind_eq_some_iff.mp h
    intro a ha
    rcases List.mem_append.mp ha with ha | ha
    · exact ihl hl a ha
    · exact ihr hr a ha
  | not e => cases h
  | atom a =>
    obtain ⟨name, literal, column, rfl, -, -⟩ := ofAtom?_eq_some h
    intro a ha
    rw [List.mem_singleton.mp ha]
    trivial

theorem resolveRelations_of_isCondition {scope : Scope} {table : String} {rows : List Row}
    {atoms : List Atom} (h : ∀ a ∈ atoms, a.IsCondition) (checks : RelationChecks) :
    resolveRelations scope table rows atoms checks = .done checks := by
  induction atoms with
  | nil => rfl
  | cons a rest ih =>
    have ha := h a (List.mem_cons_self ..)
    cases a with
    | condition =>
      rw [resolveRelations]
      exact ih fun b hb => h b (List.mem_cons_of_mem _ hb)
      all_goals exact fun _ _ _ hrelation => by cases hrelation
    | relation | never => cases ha

/-! ### What follows the request -/

namespace Executor

variable {x : Executor} {allowed : Option (List String)} {context : Context} {s : Statement}

theorem joinElements_congr {c : Candidates} {rows : List Row}
    (h : ∀ frame, x.acceptedRows s c context frame =
      x.acceptedRows s { c with rows } context frame)
    (name key : String) (index : Nat) (elements : List Json) :
    x.joinElements allowed s c context name key index elements =
      x.joinElements allowed s { c with rows } context name key index elements := by
  induction elements generalizing index with
  | nil => rfl
  | cons element rest ih =>
    cases element with
    | obj fields => rw [joinElements, joinElements, h, ih]
    | null | bool | num | str | arr => rfl

/-- **Only the accepted rows are seen** by what follows the request. -/
theorem finish_congr {c : Candidates} {rows : List Row}
    (h : ∀ frame, x.acceptedRows s c context frame =
      x.acceptedRows s { c with rows } context frame) :
    x.finish allowed context s c = x.finish allowed context s { c with rows } := by
  unfold finish
  split
  · rw [join, join]
    simp only [joinElements_congr h]
  · rw [evaluate, evaluate, h]
    rfl

/-- The rows that are accepted are the same before and after the filter. -/
theorem acceptedRows_filtered {t : Table} {columns : RequiredColumns}
    (hplanned : Planned x allowed s t columns) {f : StorageFilter}
    (hf : StorageFilter.ofExpression? t s.expression = some f) {rows : List Row}
    (hplain : ∀ row ∈ rows, t.PlainRow row) (relations : RelationChecks)
    (frame : Option LoopFrame) :
    let project := Store.projectRow columns.names
    x.acceptedRows s
        ⟨t, columns, (rows.filter (Store.Lets (rowsCall s t columns))).map project, relations⟩
        context frame =
      x.acceptedRows s ⟨t, columns, rows.map project, relations⟩ context frame := by
  intro project
  rw [acceptedRows, acceptedRows]
  cases htest : compile ⟨t, context, frame, relations, x.options.emptyMeansAll⟩ s.expression with
  | error e => rfl
  | ok test =>
    -- the test sees the row cut down, the filter sees all of it, but reads requested columns only
    have hlets : ∀ row ∈ rows, test (project row) = true →
        Store.Lets (rowsCall s t columns) row = true := by
      intro row hrow haccepts
      have hkept := StorageFilter.eval_ne_false_of_plainRow
        ((hplain row hrow).projectRow columns.names) htest hf haccepts
      have hcolumns : AgreeOn (· ∈ f.columns) (project row) row :=
        (agreeOn_projectRow columns.names row).mono fun name hname =>
          hplanned.permits.covered f hf name hname
      rw [StorageFilter.eval_congr f hcolumns] at hkept
      simp [Store.Lets, rowsCall, hf, hkept]
    have hrows : ((rows.filter (Store.Lets (rowsCall s t columns))).map project).filter test =
        (rows.map project).filter test := by
      rw [List.filter_map, List.filter_map, List.filter_filter]
      refine congrArg (List.map project) (List.filter_congr fun row hrow => ?_)
      cases haccepts : test (project row) with
      | true => simp [haccepts, hlets row hrow haccepts]
      | false => simp [haccepts]
    exact congrArg Except.ok hrows

/-! ### With and without the filter -/

/-- A statement that is not planned fails before anything is fetched. -/
theorem runStatement_of_plan_error {e : Error} (hplan : x.plan allowed s = .error e) :
    x.runStatement allowed context s = .failed e := by
  simp only [runStatement, candidates, hplan, Fetching.lift_error, Fetching.failed_bind]

/-- A planned statement makes its request, looks the relations up and goes on. -/
theorem runStatement_of_plan {t : Table} {columns : RequiredColumns}
    (hplan : x.plan allowed s = .ok (t, columns)) :
    x.runStatement allowed context s = .fetch (rowsCall s t columns) fun
      | .ok rows =>
        resolveRelations ⟨x.catalog, x.whitelist, allowed⟩ t.name rows s.expression.atoms [] >>=
          fun relations => x.finish allowed context s ⟨t, columns, rows, relations⟩
      | .error e => .failed e.toError := by
  simp only [runStatement, candidates, hplan, Fetching.lift_ok, Fetching.done_bind,
    Fetching.request, Fetching.fetch_bind, rowsCall]
  congr 1
  funext answer
  cases answer with
  | error e => rfl
  | ok rows =>
    rw [Fetching.done_bind, Fetching.bind_assoc]
    rfl

/-- A statement that carries a filter has no relations to look up. -/
theorem runStatement_of_filter {t : Table} {columns : RequiredColumns}
    (hplan : x.plan allowed s = .ok (t, columns)) {f : StorageFilter}
    (hf : StorageFilter.ofExpression? t s.expression = some f) :
    x.runStatement allowed context s = .fetch (rowsCall s t columns) fun
      | .ok rows => x.finish allowed context s ⟨t, columns, rows, []⟩
      | .error e => .failed e.toError := by
  rw [runStatement_of_plan hplan]
  congr 1
  funext answer
  cases answer with
  | error e => rfl
  | ok rows =>
    simp only [resolveRelations_of_isCondition (StorageFilter.isCondition_of_mem_atoms hf)]
    rfl

/-- **A filter changes nothing on plain rows**, unless it is reported as unsupported. -/
theorem runOn_withoutFirstFilter {store : Store}
    (hplain : ∀ t columns rows, x.plan allowed s = .ok (t, columns) →
      store.rows? t.name = some rows → ∀ row ∈ rows, t.PlainRow row) :
    let run := x.runStatement allowed context s
    (run.runOn store.fetch).1 = (run.withoutFirstFilter.runOn store.fetch).1 ∨
      ∃ table column mode,
        (run.runOn store.fetch).1 = .error (.unsupportedSearch table column mode) := by
  intro run
  cases hplan : x.plan allowed s with
  | error e =>
    have hrun : run = .failed e := runStatement_of_plan_error hplan
    rw [hrun]
    exact Or.inl rfl
  | ok planned =>
    obtain ⟨t, columns⟩ := planned
    cases hf : StorageFilter.ofExpression? t s.expression with
    | none =>
      have hrun : run = _ := runStatement_of_plan hplan
      -- nothing is pushed down, so there is no filter to leave out
      have hnone : { rowsCall s t columns with filter := none } = rowsCall s t columns := by
        rw [rowsCall, hf]
      rw [hrun, Fetching.withoutFirstFilter, hnone]
      exact Or.inl rfl
    | some f =>
      have hrun : run = _ := runStatement_of_filter hplan hf
      rw [hrun, Fetching.withoutFirstFilter, Fetching.runOn, Fetching.runOn]
      cases hrows : store.rows? t.name with
      | none =>
        rw [Store.fetch_of_no_rows hrows, Store.fetch_of_no_rows hrows]
        exact Or.inl rfl
      | some rows =>
        -- the store has the table: compare its answers with and without the filter
        have hwhole : Store.select { rowsCall s t columns with filter := none } rows =
            .ok (rows.map (Store.projectRow columns.names)) := Store.select_unfiltered rfl rows
        rw [Store.fetch_of_rows? hrows, Store.fetch_of_rows? hrows, hwhole]
        rcases Store.select_cases (rowsCall s t columns) rows with ⟨column, mode, herror⟩ | hok
        · rw [herror]
          exact Or.inr ⟨t.name, column, mode, rfl⟩
        · rw [hok]
          have hfinish : x.finish allowed context s _ = x.finish allowed context s _ :=
            finish_congr (acceptedRows_filtered (planned_of_plan hplan) hf
              (hplain t columns rows hplan hrows) [])
          exact Or.inl (congrArg (fun t => (Fetching.runOn store.fetch t).1) hfinish)

end Executor

end TableQuery
