import TableQuery.Proofs.Fetching.Requests
import TableQuery.Proofs.Pushdown.Cells
import TableQuery.Proofs.Schema.Built
import TableQuery.Proofs.Storage.FilterColumns
import TableQuery.Proofs.Storage.Merging

/-!
# Rows that pushdown keeps

The filter of an expression is meant to let every row through that the expression
accepts. It does so for a row whose cells are plain
(`TableQuery.StorageFilter.eval_ne_false_of_plainRow`), by induction on the
expression: a merged conjunction or disjunction of two filters that keep the row
keeps it, also where a search on the way is unsupported. And it does so for no other
row, since a single condition is enough to lose one
(`TableQuery.Table.plainRow_of_keepsRow`).
-/

namespace TableQuery

namespace Table

/-- A row is plain if each of its cells is, for the type of its column. -/
def PlainRow (t : Table) (row : Row) : Prop :=
  ∀ name column cell, t.column? name = some column → row.get? name = some cell →
    column.type.Plain cell

/-- **Pushdown keeps a row**: no expression is pushed down as a filter that turns the
row away while the test of the expression accepts it. -/
def KeepsRow (t : Table) (row : Row) : Prop :=
  ∀ (scope : CompileScope) (e : Expression) (test : RowTest) (f : StorageFilter),
    scope.table = t → compile scope e = .ok test → StorageFilter.ofExpression? t e = some f →
      test row = true → f.eval row ≠ .holds false

end Table

namespace Verdict

theorem andThen_ne_false {first second : Verdict} (h₁ : first ≠ .holds false)
    (h₂ : second ≠ .holds false) : first.andThen second ≠ .holds false := by
  rcases first with (_ | _) | _
  · exact h₁
  · exact h₂
  · exact h₁

theorem orElse_ne_false {first second : Verdict}
    (h : first ≠ .holds false ∨ second ≠ .holds false) :
    first.orElse second ≠ .holds false := by
  rcases first with (_ | _) | _
  · exact h.resolve_left fun hne => hne rfl
  · exact fun hholds => by cases hholds
  · exact fun hholds => by cases hholds

end Verdict

namespace StorageFilter

/-- **A plain row is kept.** -/
theorem eval_ne_false_of_plainRow {scope : CompileScope} {row : Row}
    (hplain : scope.table.PlainRow row) {e : Expression} {test : RowTest} {f : StorageFilter}
    (hcompile : compile scope e = .ok test) (hf : ofExpression? scope.table e = some f)
    (htest : test row = true) : f.eval row ≠ .holds false := by
  induction e generalizing test f with
  | and l r ihl ihr =>
    obtain ⟨testl, hl, hcompile⟩ := except_bind_eq_ok.mp hcompile
    obtain ⟨testr, hr, hcompile⟩ := except_bind_eq_ok.mp hcompile
    obtain rfl := Except.ok.inj hcompile
    obtain ⟨fl, hfl, hf⟩ := Option.bind_eq_some_iff.mp hf
    obtain ⟨fr, hfr, hf⟩ := Option.bind_eq_some_iff.mp hf
    obtain rfl := Option.some.inj hf
    obtain ⟨htestl, htestr⟩ := Bool.and_eq_true_iff.mp htest
    rw [eval_mergeAnd]
    exact Verdict.andThen_ne_false (ihl hl hfl htestl) (ihr hr hfr htestr)
  | or l r ihl ihr =>
    obtain ⟨testl, hl, hcompile⟩ := except_bind_eq_ok.mp hcompile
    obtain ⟨testr, hr, hcompile⟩ := except_bind_eq_ok.mp hcompile
    obtain rfl := Except.ok.inj hcompile
    obtain ⟨fl, hfl, hf⟩ := Option.bind_eq_some_iff.mp hf
    obtain ⟨fr, hfr, hf⟩ := Option.bind_eq_some_iff.mp hf
    obtain rfl := Option.some.inj hf
    -- one side accepts the row, and a filter that keeps it makes up for the other
    rw [eval_mergeOr]
    refine Verdict.orElse_ne_false ?_
    rcases Bool.or_eq_true_iff.mp htest with htestl | htestr
    · exact Or.inl (ihl hl hfl htestl)
    · exact Or.inr (ihr hr hfr htestr)
  | not e => cases hf
  | atom a =>
    obtain ⟨name, literal, column, rfl, hcolumn, hf⟩ := ofAtom?_eq_some hf
    have hname := Table.name_of_column? hcolumn
    -- only conditions on one column are pushed down, so the test is that of the column
    have hliteral : compileLiteral scope [column] literal = .ok test := by
      rw [← compileAtom_condition hcolumn]
      exact hcompile
    refine keeps_of_plain hf (fun cell hcell => ?_) hliteral htest
    exact hplain name column cell hcolumn (hname ▸ hcell)

end StorageFilter

/-- **No other row is kept.** -/
theorem Table.plainRow_of_keepsRow {t : Table} {row : Row} (h : t.KeepsRow row) :
    t.PlainRow row := by
  intro name column cell hcolumn hcell
  have hname := Table.name_of_column? hcolumn
  have hget : row.get? column.name = some cell := by rwa [hname]
  refine StorageFilter.plain_of_not_misses hget fun literal hmiss => ?_
  obtain ⟨f, hf, heval, hcompile⟩ := hmiss
  -- the scope does not matter: a condition that is missed is missed in every one
  let scope : CompileScope := ⟨t, [], none, [], false⟩
  obtain ⟨test, hliteral, htest⟩ := hcompile scope
  have hcondition : compileAtom scope (.condition t.name (some [name]) literal) = .ok test :=
    (compileAtom_condition hcolumn literal).trans hliteral
  refine h scope (.atom (.condition t.name (some [name]) literal)) test f rfl ?_ ?_ htest heval
  · exact hcondition
  · simp only [StorageFilter.ofExpression?, StorageFilter.ofAtom?, beq_self_eq_true, if_true,
      hcolumn, Option.bind_some]
    exact hf

theorem Table.keepsRow_of_plainRow {t : Table} {row : Row} (h : t.PlainRow row) :
    t.KeepsRow row := by
  rintro scope e test f rfl hcompile hf htest
  exact StorageFilter.eval_ne_false_of_plainRow h hcompile hf htest

end TableQuery
